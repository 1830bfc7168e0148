import WindowAlign.Proofs.Ingest.Routing

/-!
# Contents of rows

What stands in the row of an event, column by column. Each body line writes at most one slot, so a
column holds what the last line with its name says, or nothing (`Row.getElem?_putFields`): a body that
repeats names, or has empty values or names that no column goes by, is no different from one with a
single line for each slot. No line writes the columns of the path, and those are the identity of a
row. Therefore events of a category have the same identity exactly when their paths have the same
subject (`Processor.process_determined`).
-/

namespace WindowAlign

def Block.last? (b : Block) (name : String) : Option String :=
  b.fields.reverse.lookup name

def Phase.other : Phase → Phase
  | start => finish
  | finish => start

/-- The names of the columns that are no fields of the catalog: those of the path and the bookkeeping
times. -/
def Schema.reserved (s : Schema) : List String :=
  s.pathFields ++ ["last_updated_time", "start_time", "end_time"]

def Schema.known (s : Schema) (fields : List (String × String)) : List (String × String) :=
  fields.filter fun field => (s.slot? field.1).isSome

/-! ## Columns that lines write -/

section Catalog

variable (c : Category)

theorem slot?_of_blockName :
    ∀ i < c.schema.columns.length, (c.schema.columns[i]?).all (fun col => col.blockName?.all
      fun name => c.schema.slot? name = some ⟨i, col.type, col.isKey⟩) = true := by
  cases c <;> decide

theorem slot?_of_reserved : ∀ name ∈ c.schema.reserved, c.schema.slot? name = none := by
  cases c <;> decide

theorem keyColumns_eq (h : c ≠ .clusterTopology) :
    c.schema.keyColumns = List.range c.schema.pathFields.length := by
  cases c <;> first | exact absurd rfl h | decide

end Catalog

namespace Row

variable {c : Category}

theorem slot?_eq_iff {name : String} {i : Nat} {col : Column} (hcol : c.schema.columns[i]? = some col) :
    (∃ slot, c.schema.slot? name = some slot ∧ slot.column = i) ↔ col.blockName? = some name := by
  constructor
  · rintro ⟨slot, hslot, rfl⟩
    obtain ⟨found, hfound, -, hname⟩ := slot?_spec hslot
    rw [hfound] at hcol
    cases hcol
    exact hname
  · intro hname
    have hi := (List.getElem?_eq_some_iff.1 hcol).1
    have hslot := slot?_of_blockName c i hi
    rw [hcol, Option.all_some, hname, Option.all_some, decide_eq_true_iff] at hslot
    exact ⟨_, hslot, rfl⟩

theorem slot?_type {name : String} {slot : Slot} {col : Column} (h : c.schema.slot? name = some slot)
    (hcol : c.schema.columns[slot.column]? = some col) : slot.type = col.type := by
  obtain ⟨found, hfound, htype, -⟩ := slot?_spec h
  rw [hfound] at hcol
  cases hcol
  exact htype

theorem lookup_reverse_cons (key name raw : String) (fields : List (String × String)) :
    ((name, raw) :: fields).reverse.lookup key =
      (fields.reverse.lookup key).or (if key = name then some raw else none) := by
  rw [List.reverse_cons, List.lookup_append, List.lookup_singleton]
  simp only [beq_iff_eq]

/-- **A column holds what the last line with its name says**, and what it held before where there is
none. -/
theorem getElem?_putFields {fields : List (String × String)} {cells out : List Cell} {i : Nat}
    {col : Column} (hcol : c.schema.columns[i]? = some col) (hi : i < cells.length)
    (h : putFields c.schema fields cells = .ok out) :
    out[i]? = (col.blockName?.bind fun name => fields.reverse.lookup name).elim cells[i]?
      col.type.cell? := by
  induction fields generalizing cells with
  | nil =>
    cases h
    cases col.blockName? <;> rfl
  | cons field fields ih =>
    obtain ⟨name, raw⟩ := field
    -- A line for another column is none of the lines that count here.
    have hother (hne : col.blockName? ≠ some name) :
        (col.blockName?.bind fun key => ((name, raw) :: fields).reverse.lookup key) =
          col.blockName?.bind fun key => fields.reverse.lookup key := by
      refine Option.bind_congr fun key hkey => ?_
      have hkey' : key ≠ name := fun e => hne (hkey.trans (congrArg some e))
      rw [lookup_reverse_cons, if_neg hkey', Option.or_none]
    rw [putFields] at h
    split at h
    · rename_i hslot
      rw [ih hi h, hother]
      intro hname
      obtain ⟨slot, hsome, -⟩ := (slot?_eq_iff hcol).2 hname
      rw [hslot] at hsome
      cases hsome
    rename_i slot hslot
    split at h
    · cases h
    rename_i v hv
    rw [ih (by rwa [List.length_set]) h]
    by_cases hcolumn : slot.column = i
    · subst hcolumn
      rw [(slot?_eq_iff hcol).1 ⟨slot, hslot, rfl⟩, Option.bind_some, Option.bind_some,
        lookup_reverse_cons, if_pos rfl, List.getElem?_set_self hi]
      cases fields.reverse.lookup name with
      | none => rw [Option.none_or, Option.elim_some, ← slot?_type hslot hcol, hv, Option.elim_none]
      | some last => rfl
    · rw [List.getElem?_set_ne hcolumn, hother]
      intro hname
      obtain ⟨found, hfound, hi⟩ := (slot?_eq_iff hcol).2 hname
      rw [hslot] at hfound
      cases hfound
      exact hcolumn hi

/-! ## Rows of a block -/

/-- A row of a path and a block, column by column. -/
structure MadeOf (c : Category) (path : PathMatch) (block : Block) (row : Row) : Prop where
  width : row.cells.length = c.schema.width
  /-- The first columns are the path's values, in the order of the catalog. -/
  values : row.cells.take c.schema.pathFields.length = path.values.map .text
  /-- Both times of the row are the writer's time. -/
  updated : row.cells[c.schema.lastUpdatedColumn]? = some (.int block.time)
  observed : row.observedAt = block.time
  /-- The fields of the catalog come next. Each is what the last line with its name reads as, or
  nothing. -/
  fields : ∀ (k : Nat) (f : Field), c.schema.fields[k]? = some f →
    row.cells[c.schema.pathFields.length + k]? =
      (block.last? f.name).elim (some .null) f.type.cell?
  /-- The half that the path names took place at the time of its last line, or at the writer's time
  where there is no such line or it says nothing. -/
  half : ∀ phase, path.phase = some phase → ∃ i, phaseColumn? c.schema phase = some i ∧
    row.cells[i]? = ((block.last? phase.lineName).filter (!·.isEmpty)).elim
      (some (.int block.time)) FieldType.int.cell?
  /-- The other half is a field like any other. -/
  otherHalf : ∀ phase, path.phase = some phase → ∃ i, phaseColumn? c.schema phase.other = some i ∧
    row.cells[i]? = (block.last? phase.other.lineName).elim (some .null) FieldType.int.cell?
  /-- The path's values are the identity of the row, also as it is stored. -/
  identity : c.schema.identity row.cells = path.values
  stored : c.schema.identity (c.schema.keep row.cells) = path.values

theorem columns_field {s : Schema} {k : Nat} {f : Field} (hf : s.fields[k]? = some f) :
    s.columns[s.pathFields.length + k]? =
      some ⟨f.name, f.type, .block f.role, s.keyFields.contains f.name⟩ := by
  have hk := (List.getElem?_eq_some_iff.1 hf).1
  rw [Schema.columns, List.append_assoc, List.append_assoc,
    List.getElem?_append_right (by simp), List.getElem?_append_left (by simpa using hk)]
  simp [hf]

theorem source_path_of_lt {s : Schema} {i : Nat} (hi : i < s.pathFields.length) :
    ∃ col, s.columns[i]? = some col ∧ col.source = .path ∧ col.blockName? = none := by
  rw [Schema.columns, List.append_assoc, List.append_assoc,
    List.getElem?_append_left (by simpa using hi), List.getElem?_map,
    List.getElem?_eq_getElem hi]
  exact ⟨_, rfl, rfl, rfl⟩

section OfBlock

variable {path : PathMatch} {block : Block} {row : Row} {i : Nat} {col : Column}

/-- A column other than the update time holds what its last line says, or what the path put there. -/
theorem getElem?_ofBlock (hv : path.values.length = c.schema.pathFields.length)
    (h : ofBlock c.schema path block = .ok row) (hcol : c.schema.columns[i]? = some col)
    (hi : i ≠ c.schema.lastUpdatedColumn) :
    row.cells[i]? = (col.blockName?.bind block.last?).elim
      (pathCells c.schema path.values)[i]? col.type.cell? := by
  obtain ⟨cells, hcells, rfl⟩ := ofBlock_eq_ok hv h
  have hlt : i < c.schema.width := (List.getElem?_eq_some_iff.1 hcol).1
  rw [List.getElem?_set_ne (Ne.symm hi)]
  refine getElem?_putFields hcol ?_ hcells
  rw [pathCells, List.length_append, List.length_map, List.length_replicate, hv]
  omega

theorem getElem?_ofBlock_named (hv : path.values.length = c.schema.pathFields.length)
    (h : ofBlock c.schema path block = .ok row) (hcol : c.schema.columns[i]? = some col)
    {name : String} (hname : col.blockName? = some name) :
    row.cells[i]? = (block.last? name).elim (some .null) col.type.cell? := by
  have hupdate : i ≠ c.schema.lastUpdatedColumn := by
    rintro rfl
    rw [Schema.lastUpdatedColumn_eq] at hcol
    cases hcol
    cases hname
  have hpath : c.schema.pathFields.length ≤ i := by
    by_contra hlt
    obtain ⟨found, hfound, -, hnone⟩ := source_path_of_lt (Nat.lt_of_not_le hlt)
    rw [hfound] at hcol
    cases hcol
    rw [hname] at hnone
    cases hnone
  have hlt : i < c.schema.width := (List.getElem?_eq_some_iff.1 hcol).1
  rw [getElem?_ofBlock hv h hcol hupdate, hname, Option.bind_some, pathCells,
    List.getElem?_append_right (by rwa [List.length_map, hv]), List.getElem?_replicate,
    if_pos (by rw [List.length_map, hv]; omega)]

theorem take_ofBlock (hv : path.values.length = c.schema.pathFields.length)
    (h : ofBlock c.schema path block = .ok row) :
    row.cells.take c.schema.pathFields.length = path.values.map .text := by
  refine List.ext_getElem? fun i => ?_
  rw [List.getElem?_take]
  split
  · rename_i hi
    obtain ⟨col, hcol, -, hnone⟩ := source_path_of_lt hi
    have hupdate : i ≠ c.schema.lastUpdatedColumn := by
      unfold Schema.lastUpdatedColumn
      omega
    rw [getElem?_ofBlock hv h hcol hupdate, hnone, Option.bind_none, Option.elim_none,
      pathCells, List.getElem?_append_left (by rwa [List.length_map, hv])]
  · rename_i hi
    rw [List.getElem?_eq_none (by rw [List.length_map, hv]; omega)]

end OfBlock

/-! ## The time of a half -/

section PhaseTime

variable {s : Schema} {row : Row} {i : Nat}

theorem length_withPhaseTime (phase : Option Phase) :
    (row.withPhaseTime s phase).cells.length = row.cells.length := by
  unfold withPhaseTime
  split
  · rfl
  · split
    · exact List.length_set
    · rfl

theorem getElem?_withPhaseTime_ne {phase : Option Phase} (h : phase.bind (phaseColumn? s) ≠ some i) :
    (row.withPhaseTime s phase).cells[i]? = row.cells[i]? := by
  unfold withPhaseTime
  split
  · rfl
  rename_i j hj
  split
  · refine List.getElem?_set_ne ?_
    rintro rfl
    exact h hj
  · rfl

theorem cell?_ne_null {type : FieldType} {raw : String} (h : raw.isEmpty = false) :
    type.cell? raw ≠ some .null := by
  unfold FieldType.cell?
  rw [h, if_neg (by decide)]
  split
  · intro e
    cases e
  · intro e
    obtain ⟨x, -, hx⟩ := Option.map_eq_some_iff.1 e
    cases hx
  · split
    · intro e
      cases e
    split
    · intro e
      cases e
    intro e
    obtain ⟨x, -, hx⟩ := Option.map_eq_some_iff.1 e
    cases hx

/-- The column of a half is what its line says, or the writer's time where that is nothing. -/
theorem getElem?_withPhaseTime {phase : Phase} {last : Option String}
    (hi : phaseColumn? s phase = some i) (hlt : i < row.cells.length)
    (h : row.cells[i]? = last.elim (some .null) FieldType.int.cell?) :
    (row.withPhaseTime s (some phase)).cells[i]? =
      (last.filter (!·.isEmpty)).elim (some (.int row.observedAt)) FieldType.int.cell? := by
  have hset : row.cells[i]? = some .null →
      (row.withPhaseTime s (some phase)).cells[i]? = some (.int row.observedAt) := fun hnull => by
    unfold withPhaseTime
    rw [Option.bind_some, hi]
    simp only [hnull]
    exact List.getElem?_set_self hlt
  cases last with
  | none => exact hset h
  | some raw =>
    rw [Option.elim_some] at h
    cases hraw : raw.isEmpty with
    | true =>
      rw [FieldType.cell?, hraw, if_pos rfl] at h
      rw [hset h, Option.filter_some, hraw]
      rfl
    | false =>
      have hkeep : (row.withPhaseTime s (some phase)).cells[i]? = row.cells[i]? := by
        unfold withPhaseTime
        rw [Option.bind_some, hi]
        dsimp only
        split
        · rename_i hnull
          exact absurd (h.symm.trans hnull) (cell?_ne_null hraw)
        · rfl
      rw [hkeep, h, Option.filter_some, hraw]
      rfl

end PhaseTime

section MadeOf

variable {segments : List String} {path : PathMatch} {block : Block} {row : Row}

theorem getElem?_withPhaseTime_of_source {i : Nat} {col : Column}
    (hphase : path.phase.isSome = c.schema.isStartFinish) (hcol : c.schema.columns[i]? = some col)
    (h : ∀ phase, path.phase = some phase → col.source ≠ phase.source) :
    (row.withPhaseTime c.schema path.phase).cells[i]? = row.cells[i]? := by
  refine getElem?_withPhaseTime_ne fun hbind => ?_
  obtain ⟨phase, hp, hi⟩ := Option.bind_eq_some_iff.1 hbind
  rw [hp] at hphase
  obtain ⟨j, found, hj, hfound, -, hsource, -, -⟩ := phaseColumn?_spec hphase.symm phase
  rw [hi] at hj
  cases hj
  rw [hcol] at hfound
  cases hfound
  exact h phase hp hsource

theorem identity_of_take (hc : c ≠ .clusterTopology) {values : List String} {cells : List Cell}
    (h : cells.take c.schema.pathFields.length = values.map .text)
    (hv : values.length = c.schema.pathFields.length) : c.schema.identity cells = values := by
  rw [Schema.identity, keyColumns_eq c hc, ← hv]
  refine List.ext_getElem (by simp) fun i hi hi' => ?_
  have hcell : cells[i]? = some (.text values[i]) := by
    have hfirst := congrArg (·[i]?) h
    simp only [List.getElem?_take, List.getElem?_map, List.getElem?_eq_getElem hi'] at hfirst
    rwa [if_pos (by omega)] at hfirst
  rw [List.getElem_map, List.getElem_range, List.getD_eq_getElem?_getD, hcell]
  rfl

theorem madeOf (hc : c ≠ .clusterTopology) (hm : c.match? segments = some path)
    (hf : Signed64.fits block.time = true) (h : ofBlock c.schema path block = .ok row) :
    MadeOf c path block (row.withPhaseTime c.schema path.phase) := by
  obtain ⟨hv, hphase⟩ := Category.match?_spec hm
  obtain ⟨hholding, -, -, hobserved⟩ := ofBlock_spec hv hf h
  have hlength : row.cells.length = c.schema.width := (List.Forall₂.length_eq hholding).symm
  have hfits := (Processor.rowsOf_fits hm hf (by rw [Processor.rowsOf_of_ne hc, h]; rfl) _
    List.mem_cons_self).1
  have hvalues : (row.withPhaseTime c.schema path.phase).cells.take c.schema.pathFields.length =
      path.values.map .text := by
    rw [← take_ofBlock hv h]
    refine List.ext_getElem? fun i => ?_
    rw [List.getElem?_take, List.getElem?_take]
    split
    · rename_i hi
      obtain ⟨col, hcol, hsource, -⟩ := source_path_of_lt hi
      refine getElem?_withPhaseTime_of_source hphase hcol fun phase _ => ?_
      rw [hsource]
      cases phase <;> decide
    · rfl
  have hidentity := identity_of_take hc hvalues hv
  exact {
    width := (length_withPhaseTime _).trans hlength
    values := hvalues
    updated := by
      rw [getElem?_withPhaseTime_of_source hphase Schema.lastUpdatedColumn_eq fun phase _ => by
        cases phase <;> decide]
      obtain ⟨cells, -, rfl⟩ := ofBlock_eq_ok hv h
      refine List.getElem?_set_self ?_
      rw [List.length_set] at hlength
      rw [hlength]
      exact (List.getElem?_eq_some_iff.1 Schema.lastUpdatedColumn_eq).1
    observed := (withPhaseTime_observedAt ..).trans hobserved
    fields := fun k f hfield => by
      have hcol := columns_field hfield
      rw [getElem?_withPhaseTime_of_source hphase hcol fun phase _ => by
        cases phase <;> exact ColumnSource.noConfusion]
      exact getElem?_ofBlock_named hv h hcol rfl
    half := fun phase hp => by
      rw [hp] at hphase
      obtain ⟨i, col, hi, hcol, htype, -, hname, -⟩ := phaseColumn?_spec hphase.symm phase
      have hcell := getElem?_ofBlock_named hv h hcol hname
      rw [htype] at hcell
      have hlt : i < row.cells.length := by
        rw [hlength]
        exact (List.getElem?_eq_some_iff.1 hcol).1
      exact ⟨i, hi, hp ▸ hobserved ▸ getElem?_withPhaseTime hi hlt hcell⟩
    otherHalf := fun phase hp => by
      have hstartFinish : c.schema.isStartFinish = true := by rw [← hphase, hp]; rfl
      obtain ⟨i, col, hi, hcol, htype, hsource, hname, -⟩ :=
        phaseColumn?_spec hstartFinish phase.other
      refine ⟨i, hi, ?_⟩
      rw [getElem?_withPhaseTime_of_source hphase hcol fun own hown => ?_, ← htype]
      · exact getElem?_ofBlock_named hv h hcol hname
      · rw [hp] at hown
        cases hown
        rw [hsource]
        cases phase <;> decide
    identity := hidentity
    stored := (Schema.identity_keep hfits.typed).trans hidentity }

end MadeOf

theorem putFields_known {s : Schema} (fields : List (String × String)) (cells : List Cell) :
    putFields s (s.known fields) cells = putFields s fields cells := by
  induction fields generalizing cells with
  | nil => rfl
  | cons field fields ih =>
    obtain ⟨name, raw⟩ := field
    rw [Schema.known, List.filter_cons]
    cases hslot : s.slot? name with
    | none =>
      rw [if_neg (by simp), putFields, hslot]
      exact ih cells
    | some slot =>
      rw [if_pos (by simp), putFields, putFields, hslot]
      cases hcell : slot.type.cell? raw with
      | none => simp only [hcell]
      | some v =>
        simp only [hcell]
        exact ih _

end Row

/-! ## Events -/

namespace Processor

/-- A processor buffers an event as the one row of its path and its block. -/
structure Took (p : Processor) (published : Topology) (e : Event) (path : PathMatch) (block : Block)
    (row : Row) : Prop where
  matched : p.category.match? e.segments = some path
  /-- The key path is the path's values in their places, with the phase behind them, if there is one. -/
  segments : e.segments = p.category.stem path.values ++ (path.phase.map Phase.name).toList
  /-- There is one exactly where events report the halves of operations. -/
  phased : path.phase.isSome = p.category.schema.isStartFinish
  decoded : Block.ofText e.value = .ok block
  effect : p.process published e =
    (.buffered 1, { p with pending := p.pending ++ [row] }, published)
  contents : row.MadeOf p.category path block

variable {p q : Processor} {published published' : Topology} {e e' : Event} {path path' : PathMatch}
  {block block' : Block} {row row' : Row}

theorem took_of_buffered {n : Nat} (hc : p.category ≠ .clusterTopology)
    (h : (p.process published e).1 = .buffered n) :
    ∃ path block row, p.Took published e path block row := by
  rcases process_effects p published e with ⟨path, block, rows, seen, hpath, hblock, hrows, he⟩ | ⟨-, hnot⟩
  · have hmatch := Category.extract_spec hpath
    rw [rowsOf_of_ne hc] at hrows
    cases hrow : Row.ofBlock p.category.schema path block with
    | error cause =>
      rw [hrow] at hrows
      cases hrows
    | ok row =>
      rw [hrow] at hrows
      cases hrows
      exact ⟨path, block, _, hmatch, Category.segments_of_match? hmatch,
        (Category.match?_spec hmatch).2, hblock, he,
        Row.madeOf hc hmatch (Block.ofText_time_fits hblock) hrow⟩
  · exact absurd h (hnot n)

/-- An event is decoded by its key path, the time of its block and the fields that the schema knows. -/
theorem process_congr (hc : p.category ≠ .clusterTopology) (hkey : e'.key = e.key)
    (hblock : Block.ofText e.value = .ok block) (hblock' : Block.ofText e'.value = .ok block')
    (htime : block'.time = block.time)
    (hfields : p.category.schema.known block'.fields = p.category.schema.known block.fields) :
    p.process published e' = p.process published e := by
  have hrows (path : PathMatch) : rowsOf p.category path block' = rowsOf p.category path block := by
    rw [rowsOf_of_ne hc, rowsOf_of_ne hc, Row.ofBlock, Row.ofBlock, htime,
      ← Row.putFields_known block'.fields, hfields, Row.putFields_known]
  unfold process
  rw [Event.segments, hkey, ← Event.segments, hblock, hblock']
  simp only [htime, hrows]

/-- **The row of an event is determined column by column, and its identity comes from the path
alone.** An event that is no membership list and that a processor buffers comes to one row, which is
made of its path and its block. Lines without a slot may be added to the body or taken from it, among
them those named like a column of the path or a bookkeeping time, and nothing becomes different. The
rows of two events that are buffered, by whatever processors of the category, have the same identity
exactly when their paths are about the same: when they are equal, but for the start or finish at the
end where events report halves. -/
theorem process_determined {n : Nat} (hc : p.category ≠ .clusterTopology)
    (h : (p.process published e).1 = .buffered n) :
    ∃ path block row, p.Took published e path block row ∧
      ((∀ name ∈ p.category.schema.reserved, p.category.schema.slot? name = none) ∧
        ∀ e' block', e'.key = e.key → Block.ofText e'.value = .ok block' →
          block'.time = block.time →
          p.category.schema.known block'.fields = p.category.schema.known block.fields →
          p.process published e' = p.process published e) ∧
      ∀ (q : Processor) published' e' path' block' row', q.category = p.category →
        q.Took published' e' path' block' row' →
        (p.category.schema.identity row.cells = p.category.schema.identity row'.cells ↔
          p.category.subject e.segments = p.category.subject e'.segments) := by
  obtain ⟨path, block, row, htook⟩ := took_of_buffered hc h
  refine ⟨path, block, row, htook, ⟨slot?_of_reserved _, fun e' block' hkey hblock' =>
    process_congr hc hkey htook.decoded hblock'⟩, ?_⟩
  intro q published' e' path' block' row' hq htook'
  have hcontents := htook'.contents
  have hpath := htook'.matched
  rw [hq] at hcontents hpath
  rw [htook.contents.identity, hcontents.identity]
  exact Category.values_eq_iff htook.matched hpath

theorem exists_buffered {w : Window} (hw : p.window = some w)
    (hclaims : p.category.claims e.segments = true) (h : e.isBuffered w = true) :
    ∃ n, (p.process published e).1 = .buffered n := by
  rw [Event.isBuffered, Event.fate_of_claims (Category.mem_all _) hclaims] at h
  rw [Event.process_verdict hw]
  cases hverdict : e.verdictFor p.category w with
  | buffered n => exact ⟨n, rfl⟩
  | stale t =>
    rw [hverdict] at h
    cases h
  | rejected cause =>
    rw [hverdict] at h
    cases h

/-- The end of a request, with lines that are named like columns which no line writes, a field twice,
and an end time that a later line takes back. -/
def forgedFinish : Event :=
  ⟨"threads/7//http/search/12/finish", "\x7b\"current_time\":4200\x7d\nThreadID:8\nRequestID:13\n" ++
    "end_time:1\nlast_updated_time:2\nFinishTime:3\nItemCount:4\nItemCount:true\nFinishTime:\n"⟩

/-- Its row is that of the request in the path, and ends at the writer's time. -/
theorem process_determined_forged :
    let p : Processor := ⟨.httpRequests, 15000, some ⟨0, 5000⟩, []⟩
    (∃ n, (p.process .unknown forgedFinish).1 = .buffered n) ∧
      ∃ path block row, p.Took .unknown forgedFinish path block row ∧
        p.category.schema.identity row.cells = ["7", "search", "12"] ∧
        row.cells[9]? = some (.int 4200) := by
  intro p
  have hclaims : p.category.claims forgedFinish.segments = true := by decide +kernel
  have hvalue : (forgedFinish.isBuffered ⟨0, 5000⟩ && (Block.ofText forgedFinish.value).toOption.any
      fun b => b.time = 4200 ∧ b.last? "FinishTime" = some "") = true := by decide +kernel
  obtain ⟨hbuffered, hblock⟩ := Bool.and_eq_true_iff.1 hvalue
  obtain ⟨n, hn⟩ : ∃ n, (p.process .unknown forgedFinish).1 = .buffered n :=
    exists_buffered rfl hclaims hbuffered
  refine ⟨⟨n, hn⟩, ?_⟩
  obtain ⟨path, block, row, htook, -, -⟩ := process_determined (by decide) hn
  have hpath : (p.category.match? forgedFinish.segments).any
      (fun m => m.values = ["7", "search", "12"] ∧ m.phase = some .finish) = true := by
    decide +kernel
  rw [htook.matched, Option.any_some, decide_eq_true_iff] at hpath
  rw [htook.decoded, Except.toOption, Option.any_some, decide_eq_true_iff] at hblock
  obtain ⟨i, hi, hcell⟩ := htook.contents.half .finish hpath.2
  have hcolumn : i = 9 := by
    cases hi
    rfl
  rw [hcolumn, hblock.1, show Phase.finish.lineName = "FinishTime" from rfl, hblock.2] at hcell
  exact ⟨path, block, row, htook, htook.contents.identity.trans hpath.1, hcell⟩

end Processor

end WindowAlign
