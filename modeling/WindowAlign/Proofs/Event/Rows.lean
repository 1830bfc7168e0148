import WindowAlign.Proofs.Event.Header
import WindowAlign.Proofs.Store.Effects

/-!
# Rows of events

`Event.rowsFor` gives the rows that the processor of a category takes from an event while it is
bound to a window. Every such row fits its category (`fits_of_mem_rowsFor`): its cells are of their
columns' types, the columns of its identity come from the path and hold texts, its update time is
the writer's time, and the row of an operation has a start or an end. The writer's time lies in the
window.
-/

namespace WindowAlign

/-- Every cell is nothing or a value of its column's type. -/
def Schema.Holding (s : Schema) (cells : List Cell) : Prop :=
  List.Forall₂ (fun (col : Column) v => col.type.Holds v) s.columns cells

def Schema.PathSet (s : Schema) (cells : List Cell) : Prop :=
  ∀ (i : Nat) (col : Column), s.columns[i]? = some col → col.source = .path →
    ∃ t, cells[i]? = some (.text t)

def Phase.source : Phase → ColumnSource
  | start => .startTime
  | finish => .endTime

def Phase.lineName : Phase → String
  | start => "StartTime"
  | finish => "FinishTime"

/-! ## Columns of the catalog -/

section Catalog

variable (c : Category)

theorem source_path_of_key (h : c ≠ .clusterTopology) :
    ∀ col ∈ c.schema.columns, col.isKey = true → col.source = .path := by
  cases c <;> first | exact absurd rfl h | decide

theorem pathColumn?_of_pathField :
    ∀ i < c.schema.pathFields.length,
      (c.schema.pathFields[i]?).all (c.schema.pathColumn? · = some i) = true := by
  cases c <;> decide

theorem lt_of_source_path :
    ∀ i < c.schema.columns.length, (c.schema.columns[i]?).any (·.source = .path) = true →
      i < c.schema.pathFields.length := by
  cases c <;> decide

end Catalog

theorem forall₂_set {α β : Type} {R : α → β → Prop} {x : β} :
    ∀ {l : List α} {m : List β} {i : Nat}, List.Forall₂ R l m → (∀ a, l[i]? = some a → R a x) →
      List.Forall₂ R l (m.set i x)
  | _, _, _, .nil, _ => .nil
  | a :: _, _, 0, .cons _ ht, hx => .cons (hx a rfl) ht
  | _, _, i + 1, .cons h ht, hx => .cons h (forall₂_set (i := i) ht hx)

theorem FieldType.holds_cell? {t : FieldType} {raw : String} {v : Cell} (h : t.cell? raw = some v) :
    t.Holds v := by
  unfold FieldType.cell? at h
  split at h
  · cases h; exact FieldType.holds_null t
  split at h
  · cases h; trivial
  · rw [Option.map_eq_some_iff] at h
    obtain ⟨x, -, rfl⟩ := h
    trivial
  · split at h
    · cases h; rfl
    split at h
    · cases h; rfl
    rw [Option.map_eq_some_iff] at h
    obtain ⟨n, hn, rfl⟩ := h
    have hchecked : ∀ {o : Option Nat} {f : Nat → Int},
        (o.bind fun m => Signed64.checked? (f m)) = some n → Signed64.fits n = true := by
      intro o f hn
      obtain ⟨m, -, hm⟩ := Option.bind_eq_some_iff.1 hn
      unfold Signed64.checked? at hm
      split at hm
      · cases hm; assumption
      · cases hm
    unfold Signed64.ofText? at hn
    split at hn <;> exact hchecked hn

namespace Row

variable {c : Category}

/-! ## Path columns -/

/-- Path columns that come after the cells `done` are filled in order, and the cells behind them
stay. -/
theorem putPath_append {s : Schema} : ∀ {names values : List String} {done rest : List Cell},
    values.length = names.length → names.length ≤ rest.length →
    (∀ j < names.length, (names[j]?).all (s.pathColumn? · = some (done.length + j)) = true) →
    putPath s names values (done ++ rest) =
      done ++ values.map Cell.text ++ rest.drop names.length
  | [], values, done, rest, hv, _, _ => by
    rw [List.length_eq_zero_iff.1 hv]
    simp [putPath]
  | name :: names, [], _, _, hv, _, _ => by cases hv
  | name :: names, _ :: _, _, [], _, hrest, _ => by cases hrest
  | name :: names, value :: values, done, cell :: rest, hv, hrest, hcolumn => by
    have hfirst : s.pathColumn? name = some done.length := by simpa using hcolumn 0 (by simp)
    have hset : (done ++ cell :: rest).set done.length (.text value) =
        (done ++ [.text value]) ++ rest := by simp
    rw [putPath, hfirst]
    simp only [hset]
    rw [putPath_append (by simpa using hv) (by simpa using hrest) fun j hj => ?_]
    · simp
    · have hnext := hcolumn (j + 1) (by simpa using hj)
      rw [List.getElem?_cons_succ] at hnext
      rw [List.length_append, List.length_singleton, Nat.add_assoc, Nat.add_comm 1 j]
      exact hnext

/-- The cells that a path gives, before those of the block. -/
def pathCells (s : Schema) (values : List String) : List Cell :=
  values.map .text ++ List.replicate (s.width - s.pathFields.length) .null

theorem putPath_eq {values : List String} (hv : values.length = c.schema.pathFields.length) :
    putPath c.schema c.schema.pathFields values (List.replicate c.schema.width .null) =
      pathCells c.schema values := by
  have hwidth : c.schema.pathFields.length ≤ c.schema.width := by
    rw [Schema.width, Schema.columns, List.append_assoc, List.append_assoc, List.length_append,
      List.length_map]
    omega
  have hrest : c.schema.pathFields.length ≤ (List.replicate c.schema.width Cell.null).length := by
    rwa [List.length_replicate]
  rw [← List.nil_append (List.replicate ..), putPath_append hv hrest fun j hj => by
    rw [List.length_nil, Nat.zero_add]
    exact pathColumn?_of_pathField c j hj]
  rw [List.nil_append, List.drop_replicate, pathCells]

theorem replicate_holding (cs : List Column) :
    List.Forall₂ (fun (col : Column) v => col.type.Holds v) cs
      (List.replicate cs.length .null) := by
  induction cs with
  | nil => exact .nil
  | cons c cs ih => exact .cons (FieldType.holds_null _) ih

section PathCells

variable {values : List String} (hv : values.length = c.schema.pathFields.length)

include hv

theorem holding_pathCells : c.schema.Holding (pathCells c.schema values) := by
  have hpath : List.Forall₂ (fun (col : Column) v => col.type.Holds v)
      (c.schema.pathFields.map fun n => ⟨n, .text, .path, c.schema.keyFields.contains n⟩)
      (values.map .text) := by
    rw [List.forall₂_map_left_iff, List.forall₂_map_right_iff]
    exact List.forall₂_iff_get.2 ⟨hv.symm, fun _ _ _ => trivial⟩
  unfold Schema.Holding pathCells Schema.width Schema.columns
  rw [List.append_assoc, List.append_assoc]
  refine List.rel_append hpath ?_
  rw [List.length_append, List.length_map, Nat.add_sub_cancel_left]
  exact replicate_holding _

theorem pathSet_pathCells : c.schema.PathSet (pathCells c.schema values) := by
  intro i col hcol hs
  have hi := lt_of_source_path c i (List.getElem?_eq_some_iff.1 hcol).1
    (by rw [hcol, Option.any_some]; exact decide_eq_true hs)
  rw [← hv] at hi
  refine ⟨values[i], ?_⟩
  rw [pathCells, List.getElem?_append_left (by rwa [List.length_map]), List.getElem?_map,
    List.getElem?_eq_getElem hi]
  rfl

end PathCells

/-! ## Fields -/

theorem slot?_spec {s : Schema} {name : String} {slot : Slot} (h : s.slot? name = some slot) :
    ∃ col, s.columns[slot.column]? = some col ∧ slot.type = col.type ∧
      col.blockName? = some name := by
  unfold Schema.slot? at h
  simp only [Option.map_eq_some_iff] at h
  obtain ⟨col, hcol, rfl⟩ := h
  obtain ⟨hi, hget⟩ := List.getElem?_eq_some_iff.1 hcol
  have hname := List.findIdx_getElem (w := hi)
  rw [hget] at hname
  exact ⟨col, hcol, rfl, eq_of_beq hname⟩

theorem putFields_spec {s : Schema} {fields : List (String × String)} {cells out : List Cell}
    (h : putFields s fields cells = .ok out) (hh : s.Holding cells) (hp : s.PathSet cells) :
    s.Holding out ∧ s.PathSet out := by
  induction fields generalizing cells with
  | nil => cases h; exact ⟨hh, hp⟩
  | cons f fields ih =>
    obtain ⟨name, raw⟩ := f
    rw [putFields] at h
    split at h
    · exact ih h hh hp
    rename_i slot hslot
    split at h
    · cases h
    rename_i v hv
    obtain ⟨col, hcol, ht, hname⟩ := slot?_spec hslot
    refine ih h (forall₂_set hh fun a ha => ?_) fun i col' hcol' hs' => ?_
    · rw [hcol] at ha
      cases ha
      exact ht ▸ FieldType.holds_cell? hv
    · have hne : slot.column ≠ i := by
        rintro rfl
        rw [hcol] at hcol'
        cases hcol'
        rw [Column.blockName?, hs'] at hname
        cases hname
      rw [List.getElem?_set_ne hne]
      exact hp i col' hcol' hs'

theorem typed_of_holding (hc : c ≠ .clusterTopology) {cells : List Cell}
    (hh : c.schema.Holding cells) (hp : c.schema.PathSet cells)
    (hu : ∃ t, c.schema.lastUpdated cells = .int t) : c.schema.Typed cells := by
  have hlen : cells.length = c.schema.columns.length := (List.Forall₂.length_eq hh).symm
  refine List.forall₂_iff_get.2 ⟨hlen.symm, fun i hi hi' => ⟨List.Forall₂.get hh hi hi', ?_⟩⟩
  have hcol : c.schema.columns[i]? = some (c.schema.columns.get ⟨i, hi⟩) :=
    List.getElem?_eq_getElem hi
  have hcell : cells[i]? = some (cells.get ⟨i, hi'⟩) := List.getElem?_eq_getElem hi'
  intro hr
  rw [Column.isRequired, Bool.or_eq_true] at hr
  rcases hr with hk | hl
  · have hs := source_path_of_key c hc _ (List.mem_of_getElem? hcol) hk
    obtain ⟨t, ht⟩ := hp i _ hcol hs
    rw [hcell] at ht
    rw [Option.some.inj ht]
    rfl
  · have hs := eq_of_beq hl
    have he : i = c.schema.lastUpdatedColumn :=
      Schema.eq_lastUpdatedColumn i hi (by rw [hcol, Option.any_some]; exact decide_eq_true hs)
    obtain ⟨t, ht⟩ := hu
    rw [Schema.lastUpdated, List.getD_eq_getElem?_getD, ← he, hcell, Option.getD_some] at ht
    rw [ht]
    rfl

/-! ## Rows of a block -/

theorem set_int {cells : List Cell} {i : Nat} {col : Column} {t : Int} (ht : col.type = .int)
    (hcol : c.schema.columns[i]? = some col) (hs : col.source ≠ .path)
    (hf : Signed64.fits t = true) (hh : c.schema.Holding cells) (hp : c.schema.PathSet cells) :
    c.schema.Holding (cells.set i (.int t)) ∧ c.schema.PathSet (cells.set i (.int t)) := by
  refine ⟨forall₂_set hh fun a ha => ?_, fun j col' hcol' hs' => ?_⟩
  · rw [hcol] at ha
    cases ha
    rw [ht]
    exact hf
  · have hne : i ≠ j := by
      rintro rfl
      rw [hcol] at hcol'
      cases hcol'
      exact hs hs'
    rw [List.getElem?_set_ne hne]
    exact hp j col' hcol' hs'

theorem ofBlock_eq_ok {path : PathMatch} (hv : path.values.length = c.schema.pathFields.length)
    {block : Block} {row : Row} (h : ofBlock c.schema path block = .ok row) :
    ∃ cells, putFields c.schema block.fields (pathCells c.schema path.values) = .ok cells ∧
      row = ⟨cells.set c.schema.lastUpdatedColumn (.int block.time), block.time⟩ := by
  unfold ofBlock at h
  simp only [putPath_eq hv] at h
  split at h
  · cases h
  rename_i cells hcells
  cases h
  exact ⟨cells, hcells, rfl⟩

theorem ofBlock_spec {path : PathMatch} (hv : path.values.length = c.schema.pathFields.length)
    {block : Block} (hf : Signed64.fits block.time = true) {row : Row}
    (h : ofBlock c.schema path block = .ok row) :
    c.schema.Holding row.cells ∧ c.schema.PathSet row.cells ∧
      c.schema.lastUpdated row.cells = .int block.time ∧ row.observedAt = block.time := by
  obtain ⟨cells, hcells, rfl⟩ := ofBlock_eq_ok hv h
  have hcol := Schema.lastUpdatedColumn_eq (c := c)
  obtain ⟨hh, hp⟩ := putFields_spec hcells (holding_pathCells hv) (pathSet_pathCells hv)
  obtain ⟨hh', hp'⟩ := set_int rfl hcol (by decide) hf hh hp
  have hlt : c.schema.lastUpdatedColumn < cells.length := by
    rw [← List.Forall₂.length_eq hh]
    exact (List.getElem?_eq_some_iff.1 hcol).1
  refine ⟨hh', hp', ?_, rfl⟩
  rw [Schema.lastUpdated, List.getD_eq_getElem?_getD, List.getElem?_set_self hlt, Option.getD_some]

theorem phaseColumn?_spec (hc : c.schema.isStartFinish = true) (phase : Phase) :
    ∃ i col, phaseColumn? c.schema phase = some i ∧ c.schema.columns[i]? = some col ∧
      col.type = .int ∧ col.source = phase.source ∧ col.blockName? = some phase.lineName ∧
      ∀ r : Record, (r[i]?.getD .null).isNull = false → c.schema.Timed r := by
  cases phase with
  | start =>
    obtain ⟨i, hi, hcol⟩ := Schema.startColumn?_eq hc
    refine ⟨i, _, hi, hcol, rfl, rfl, rfl, fun r hr => .inl ?_⟩
    rwa [Schema.startTime_eq hi]
  | finish =>
    obtain ⟨i, hi, hcol⟩ := Schema.endColumn?_eq hc
    refine ⟨i, _, hi, hcol, rfl, rfl, rfl, fun r hr => .inr ?_⟩
    rwa [Schema.endTime_eq hi]

theorem withPhaseTime_observedAt (s : Schema) (phase : Option Phase) (row : Row) :
    (row.withPhaseTime s phase).observedAt = row.observedAt := by
  unfold withPhaseTime
  split
  · rfl
  · split <;> rfl

theorem fits_withPhaseTime (hc : c.schema.isStartFinish = true) {row : Row} (phase : Phase)
    (hh : c.schema.Holding row.cells) (hp : c.schema.PathSet row.cells)
    (hu : c.schema.lastUpdated row.cells = .int row.observedAt)
    (hf : Signed64.fits row.observedAt = true) :
    Series.Fits c (row.withPhaseTime c.schema (some phase)) := by
  have htop : c ≠ .clusterTopology := by rintro rfl; exact absurd hc (by decide)
  obtain ⟨i, col, hi, hcol, ht, hsource, -, htimed⟩ := phaseColumn?_spec hc phase
  have hpath : col.source ≠ .path := by
    rw [hsource]
    cases phase <;> decide
  have hlt : i < row.cells.length := by
    rw [← List.Forall₂.length_eq hh]
    exact (List.getElem?_eq_some_iff.1 hcol).1
  have hne : i ≠ c.schema.lastUpdatedColumn := by
    rintro rfl
    rw [Schema.lastUpdatedColumn_eq] at hcol
    cases hcol
    cases phase <;> cases hsource
  unfold withPhaseTime
  rw [Option.bind_some, hi]
  simp only
  split
  · obtain ⟨hh', hp'⟩ := set_int ht hcol hpath hf hh hp
    have hu' : c.schema.lastUpdated (row.cells.set i (.int row.observedAt)) =
        .int row.observedAt := by
      rw [Schema.lastUpdated, List.getD_eq_getElem?_getD, List.getElem?_set_ne hne]
      rwa [Schema.lastUpdated, List.getD_eq_getElem?_getD] at hu
    refine ⟨typed_of_holding htop hh' hp' ⟨_, hu'⟩, hu', fun _ => htimed _ ?_⟩
    rw [List.getElem?_set_self hlt]
    rfl
  · rename_i hnull
    refine ⟨typed_of_holding htop hh hp ⟨_, hu⟩, hu, fun _ => htimed _ ?_⟩
    rw [List.getElem?_eq_getElem hlt] at hnull ⊢
    rw [Option.getD_some]
    cases hv : row.cells[i] with
    | null => exact absurd (by rw [hv]) hnull
    | _ => rfl

theorem ofNode_fits {time : Int} (hf : Signed64.fits time = true) (n : Node) :
    Series.Fits .clusterTopology (Row.ofNode time n) := by
  have hm : Signed64.fits (if n.isManager then 1 else 0) = true := by
    cases n.isManager <;> rfl
  refine ⟨?_, rfl, fun h => absurd h (by decide)⟩
  refine .cons ⟨trivial, fun _ => rfl⟩ (.cons ⟨trivial, fun _ => rfl⟩ ?_)
  refine .cons ⟨trivial, fun _ => rfl⟩ (.cons ⟨hm, fun _ => rfl⟩ ?_)
  exact .cons ⟨hf, fun _ => rfl⟩ .nil

end Row

/-! ## Rows of an event -/

theorem Category.match?_spec {c : Category} {segments : List String} {m : PathMatch}
    (h : c.match? segments = some m) :
    m.values.length = c.schema.pathFields.length ∧ m.phase.isSome = c.schema.isStartFinish := by
  unfold Category.match? at h
  split at h
  all_goals first
    | (cases h; exact ⟨rfl, rfl⟩)
    | (obtain ⟨p, -, rfl⟩ := Option.map_eq_some_iff.1 h; exact ⟨rfl, rfl⟩)
    | cases h

theorem Category.extract_spec {c : Category} {segments : List String} {m : PathMatch}
    (h : c.extract segments = .ok m) : c.match? segments = some m := by
  unfold Category.extract at h
  split at h
  · cases h; assumption
  · cases h

theorem Processor.rowsOf_fits {c : Category} {path : PathMatch} {segments : List String}
    (hm : c.match? segments = some path) {block : Block} (hf : Signed64.fits block.time = true)
    {rows : List Row} {seen : Option Topology} (h : rowsOf c path block = .ok (rows, seen)) :
    ∀ row ∈ rows, Series.Fits c row ∧ row.observedAt = block.time := by
  obtain ⟨hv, hphase⟩ := Category.match?_spec hm
  unfold rowsOf at h
  split at h
  · split at h
    · cases h
    cases h
    intro row hrow
    obtain ⟨n, -, rfl⟩ := List.mem_map.1 hrow
    exact ⟨Row.ofNode_fits hf n, rfl⟩
  · rename_i htop
    split at h
    · cases h
    rename_i row hrow
    cases h
    obtain ⟨hh, hp, hu, ho⟩ := Row.ofBlock_spec hv hf hrow
    rintro _ (_ | ⟨_, hnil⟩)
    · refine ⟨?_, (Row.withPhaseTime_observedAt ..).trans ho⟩
      cases hp' : path.phase with
      | some p =>
        have hc : c.schema.isStartFinish = true := by rw [← hphase, hp']; rfl
        exact Row.fits_withPhaseTime hc p hh hp (ho ▸ hu) (ho ▸ hf)
      | none =>
        have hc : c.schema.isStartFinish = false := by rw [← hphase, hp']; rfl
        refine ⟨Row.typed_of_holding (fun e => htop e) hh hp ⟨_, hu⟩, ho ▸ hu, fun e => ?_⟩
        rw [hc] at e
        cases e
    · cases hnil

/-- The rows that the processor of a category takes from an event while it is bound to a window:
none unless the event is claimed, decodes, and belongs to the window. -/
def Event.rowsFor (c : Category) (w : Window) (e : Event) : List Row :=
  if c.claims e.segments then
    match c.extract e.segments, Block.ofText e.value with
    | .ok path, .ok block =>
      if w.contains block.time then
        match Processor.rowsOf c path block with
        | .ok (rows, _) => rows
        | .error _ => []
      else []
    | _, _ => []
  else []

/-- **Accepted rows fit their category and lie in the window.** -/
theorem fits_of_mem_rowsFor {c : Category} {w : Window} {e : Event} {row : Row}
    (h : row ∈ e.rowsFor c w) : Series.Fits c row ∧ w.contains row.observedAt = true := by
  unfold Event.rowsFor at h
  split at h
  · split at h
    · rename_i path block hpath hblock
      split at h
      · rename_i hw
        split at h
        · rename_i rows seen hrows
          obtain ⟨hfit, ho⟩ := Processor.rowsOf_fits (Category.extract_spec hpath)
            (Block.ofText_time_fits hblock) hrows row h
          exact ⟨hfit, ho ▸ hw⟩
        · cases h
      · cases h
    · cases h
  · cases h

end WindowAlign
