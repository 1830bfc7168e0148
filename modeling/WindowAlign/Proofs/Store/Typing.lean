import Mathlib.Data.List.Forall2
import WindowAlign.Store.Basic

/-!
# Typed records

A record is typed when each of its cells is nothing or a value of its column's type, and the
required columns hold something. `keep` is the record that the columns keep of a row's cells; of a
typed row it is typed, nothing refuses it, and where no column is a float column it is the row
itself. Joining two typed records gives a typed one, so `upsertAll` never fails on typed rows.

Whatever rows the store is given, the records that it comes to hold are `Stored`: texts identify them,
and their required columns hold something. Typed records are.
-/

namespace WindowAlign

/-- Whether a cell is nothing or a value of the type. -/
def FieldType.Holds : FieldType → Cell → Prop
  | _, .null => True
  | .text, .text _ => True
  | .float, .real _ => True
  | .int, .int n => Signed64.fits n = true
  | _, _ => False

instance : (t : FieldType) → (v : Cell) → Decidable (t.Holds v)
  | .text, .null | .float, .null | .int, .null => .isTrue trivial
  | .text, .text _ | .float, .real _ => .isTrue trivial
  | .int, .int n => inferInstanceAs (Decidable (Signed64.fits n = true))
  | .text, .int _ | .text, .real _ | .float, .int _ | .float, .text _ => .isFalse id
  | .int, .real _ | .int, .text _ => .isFalse id

/-- Whether a column may keep a cell. -/
def Column.Admits (col : Column) (v : Cell) : Prop :=
  col.type.Holds v ∧ (col.isRequired = true → v.isNull = false)

instance (col : Column) (v : Cell) : Decidable (col.Admits v) :=
  inferInstanceAs (Decidable (_ ∧ _))

/-- A record with a cell for each column that the column may keep. -/
def Schema.Typed (s : Schema) (r : Record) : Prop :=
  List.Forall₂ Column.Admits s.columns r

instance (s : Schema) (r : Record) : Decidable (s.Typed r) :=
  inferInstanceAs (Decidable (List.Forall₂ Column.Admits s.columns r))

/-- Whether a column holds a cell once some row was written into it. -/
def Column.Keeps (col : Column) (v : Cell) : Prop :=
  (col.isKey = true → ∃ t, v = .text t) ∧ (col.isRequired = true → v.isNull = false)

/-- A record that texts identify and whose required columns hold something. -/
def Schema.Stored (s : Schema) (r : Record) : Prop :=
  List.Forall₂ Column.Keeps s.columns r

/-- What the columns of a schema keep of the cells of a row. -/
def Schema.keep (s : Schema) (cells : List Cell) : Record :=
  List.zipWith (fun c v => c.type.store v) s.columns cells

/-! ## Columns of the catalog -/

section Catalog

variable (c : Category)

theorem type_ne_float_of_required :
    ∀ col ∈ c.schema.columns, col.isRequired = true → col.type ≠ .float := by
  cases c <;> decide

theorem type_text_of_key : ∀ col ∈ c.schema.columns, col.isKey = true → col.type = .text := by
  cases c <;> decide

theorem type_ne_float_of_startFinish (h : c.schema.isStartFinish = true) :
    ∀ col ∈ c.schema.columns, col.type ≠ .float := by
  cases c <;> first | exact absurd h (by decide) | decide

end Catalog

/-! ## Cells -/

@[simp] theorem FieldType.holds_null (t : FieldType) : t.Holds .null := by
  cases t <;> trivial

theorem FieldType.Holds.text {v : Cell} (h : FieldType.text.Holds v) (hv : v.isNull = false) :
    ∃ t, v = .text t := by
  cases v with
  | null => cases hv
  | text t => exact ⟨t, rfl⟩
  | int _ => exact h.elim
  | real _ => exact h.elim

theorem FieldType.Holds.int {v : Cell} (h : FieldType.int.Holds v) :
    v = .null ∨ ∃ n, v = .int n ∧ Signed64.fits n = true := by
  cases v with
  | null => exact .inl rfl
  | int n => exact .inr ⟨n, rfl, h⟩
  | real _ => exact h.elim
  | text _ => exact h.elim

theorem FieldType.store_of_ne_float {t : FieldType} {v : Cell} (ht : t ≠ .float) (h : t.Holds v) :
    t.store v = v := by
  cases t <;> cases v <;> first | rfl | exact absurd rfl ht | exact h.elim

theorem FieldType.holds_store {t : FieldType} {v : Cell} (h : t.Holds v) : t.Holds (t.store v) := by
  by_cases ht : t = .float
  · subst ht
    cases v with
    | null => trivial
    | real x =>
      show FieldType.float.Holds (Cell.ofReal (Binary64.dropZeroSign x))
      unfold Cell.ofReal; split <;> trivial
    | int _ => exact h.elim
    | text _ => exact h.elim
  · rwa [FieldType.store_of_ne_float ht h]

theorem FieldType.holds_orElse {t : FieldType} {a b : Cell} (ha : t.Holds a) (hb : t.Holds b) :
    t.Holds (a.orElse b) := by
  cases a <;> first | exact hb | exact ha

theorem Cell.isNull_orElse (a b : Cell) : (a.orElse b).isNull = (a.isNull && b.isNull) := by
  cases a <;> rfl

theorem Cell.greater_eq (a b : Cell) : a.greater b = a ∨ a.greater b = b := by
  unfold Cell.greater; split
  · exact .inl rfl
  · exact .inr rfl

theorem FieldType.store_text (v : Cell) :
    (FieldType.text.store v).isNull = false → ∃ t, FieldType.text.store v = .text t := by
  cases v with
  | null => exact fun h => by cases h
  | real x =>
    show (if x.isNaN then Cell.null else .text (Cell.realText x)).isNull = false →
      ∃ t, (if x.isNaN then Cell.null else .text (Cell.realText x)) = .text t
    split
    · exact fun h => by cases h
    · exact fun _ => ⟨_, rfl⟩
  | int n => exact fun _ => ⟨_, rfl⟩
  | text t => exact fun _ => ⟨t, rfl⟩

theorem Column.Keeps.joinCell {col : Column} {a b : Cell} (ha : col.Keeps a) (hb : col.Keeps b) :
    col.Keeps (Schema.joinCell col a b) := by
  unfold Schema.joinCell
  split
  · exact ha
  rename_i hkey
  split
  · rcases Cell.greater_eq b a with h | h <;> rw [h]
    · exact hb
    · exact ha
  · rename_i hsource
    have hreq : ¬ col.isRequired = true := by simp [Column.isRequired, hkey, hsource]
    exact ⟨fun h => absurd h hkey, fun h => absurd h hreq⟩

theorem Column.Admits.store {col : Column} {v : Cell}
    (hf : col.isRequired = true → col.type ≠ .float) (h : col.Admits v) :
    col.Admits (col.type.store v) := by
  refine ⟨FieldType.holds_store h.1, fun hr => ?_⟩
  rw [FieldType.store_of_ne_float (hf hr) h.1]
  exact h.2 hr

theorem Column.Admits.joinCell {col : Column} {a b : Cell} (ha : col.Admits a) (hb : col.Admits b) :
    col.Admits (Schema.joinCell col a b) := by
  unfold Schema.joinCell
  split
  · exact ha
  split
  · rcases Cell.greater_eq b a with h | h <;> rw [h]
    · exact hb
    · exact ha
  · refine ⟨FieldType.holds_orElse hb.1 ha.1, fun hr => ?_⟩
    rw [Cell.isNull_orElse, hb.2 hr, Bool.false_and]

/-! ## Records -/

namespace Schema

theorem Typed.length {s : Schema} {r : Record} (h : s.Typed r) : r.length = s.columns.length :=
  (List.Forall₂.length_eq h).symm

theorem exists_cell {P : Column → Cell → Prop} {cs : List Column} {r : Record}
    (h : List.Forall₂ P cs r) {i : Nat} {col : Column} (hc : cs[i]? = some col) :
    ∃ v, r[i]? = some v ∧ P col v := by
  obtain ⟨hi, rfl⟩ := List.getElem?_eq_some_iff.1 hc
  have hr : i < r.length := by rw [← List.Forall₂.length_eq h]; exact hi
  exact ⟨r[i], List.getElem?_eq_getElem hr, List.Forall₂.get h hi hr⟩

theorem Typed.admits {s : Schema} {r : Record} (h : s.Typed r) {i : Nat} {col : Column}
    (hc : s.columns[i]? = some col) : ∃ v, r[i]? = some v ∧ col.Admits v :=
  exists_cell h hc

theorem Stored.keeps {s : Schema} {r : Record} (h : s.Stored r) {i : Nat} {col : Column}
    (hc : s.columns[i]? = some col) : ∃ v, r[i]? = some v ∧ col.Keeps v :=
  exists_cell h hc

theorem joinCells_forall₂ {P : Column → Cell → Prop}
    (hjoin : ∀ col a b, P col a → P col b → P col (joinCell col a b)) {cs : List Column} :
    ∀ {a b : Record}, List.Forall₂ P cs a → List.Forall₂ P cs b →
      List.Forall₂ P cs (joinCells cs a b) := by
  induction cs with
  | nil => intro a b ha hb; cases ha; exact .nil
  | cons c cs ih =>
    rintro _ _ (_ | ⟨ha, hat⟩) (_ | ⟨hb, hbt⟩)
    exact .cons (hjoin c _ _ ha hb) (ih hat hbt)

theorem merge_forall₂ {P : Column → Cell → Prop}
    (hjoin : ∀ col a b, P col a → P col b → P col (joinCell col a b)) {s : Schema} {a b : Record}
    (ha : List.Forall₂ P s.columns a) (hb : List.Forall₂ P s.columns b) :
    List.Forall₂ P s.columns (s.merge a b) := by
  unfold Schema.merge
  split
  · exact joinCells_forall₂ hjoin ha hb
  all_goals
    split
    · exact hb
    · exact ha

theorem Typed.merge {s : Schema} {a b : Record} (ha : s.Typed a) (hb : s.Typed b) :
    s.Typed (s.merge a b) :=
  merge_forall₂ (fun _ _ _ => Column.Admits.joinCell) ha hb

theorem Stored.merge {s : Schema} {a b : Record} (ha : s.Stored a) (hb : s.Stored b) :
    s.Stored (s.merge a b) :=
  merge_forall₂ (fun _ _ _ => Column.Keeps.joinCell) ha hb

theorem keep_admits {cs : List Column} (hf : ∀ c ∈ cs, c.isRequired = true → c.type ≠ .float) :
    ∀ {cells : List Cell}, List.Forall₂ Column.Admits cs cells →
      List.Forall₂ Column.Admits cs (List.zipWith (fun c v => c.type.store v) cs cells) := by
  induction cs with
  | nil => intro cells h; cases h; exact .nil
  | cons c cs ih =>
    rintro _ (_ | ⟨h, ht⟩)
    exact .cons (h.store (hf c List.mem_cons_self))
      (ih (fun c hc => hf c (List.mem_cons_of_mem _ hc)) ht)

theorem missing?_eq_none {cs : List Column} :
    ∀ {r : Record}, List.Forall₂ Column.Admits cs r → missing? cs r = none := by
  induction cs with
  | nil => intro r h; cases h; rfl
  | cons c cs ih =>
    rintro _ (_ | ⟨h, ht⟩)
    rename_i v vs
    have hn : (c.isRequired && v.isNull) = false := by
      cases hr : c.isRequired
      · rfl
      · exact h.2 hr
    simp only [missing?, hn, Bool.false_eq_true, ↓reduceIte]
    exact ih ht

variable {c : Category}

theorem Typed.stored {r : Record} (h : c.schema.Typed r) : c.schema.Stored r := by
  have hall : ∀ {cs : List Column} {r : Record}, (∀ col ∈ cs, col.isKey = true → col.type = .text) →
      List.Forall₂ Column.Admits cs r → List.Forall₂ Column.Keeps cs r := by
    intro cs r hkey h
    induction h with
    | nil => exact .nil
    | @cons col v cs r hv _ ih =>
      refine .cons ⟨fun hk => ?_, hv.2⟩ (ih fun col hc => hkey col (List.mem_cons_of_mem _ hc))
      have hreq : col.isRequired = true := by rw [Column.isRequired, hk, Bool.true_or]
      exact (hkey col List.mem_cons_self hk ▸ hv.1).text (hv.2 hreq)
  exact hall (type_text_of_key c) h

theorem Typed.keep {cells : List Cell} (h : c.schema.Typed cells) :
    c.schema.Typed (c.schema.keep cells) :=
  keep_admits (type_ne_float_of_required c) h

theorem keep_eq_self {cs : List Column} (hf : ∀ c ∈ cs, c.type ≠ .float) :
    ∀ {cells : List Cell}, List.Forall₂ Column.Admits cs cells →
      List.zipWith (fun c v => c.type.store v) cs cells = cells := by
  induction cs with
  | nil => intro cells h; cases h; rfl
  | cons c cs ih =>
    rintro _ (_ | ⟨h, ht⟩)
    rw [List.zipWith_cons_cons, ih (fun c hc => hf c (List.mem_cons_of_mem _ hc)) ht,
      FieldType.store_of_ne_float (hf c List.mem_cons_self) h.1]

/-- Rows of operations are kept as they are. -/
theorem Typed.keep_eq {cells : List Cell} (hc : c.schema.isStartFinish = true)
    (h : c.schema.Typed cells) : c.schema.keep cells = cells :=
  keep_eq_self (type_ne_float_of_startFinish c hc) h

theorem Typed.record? {cells : List Cell} (table : String) (h : c.schema.Typed cells) :
    c.schema.record? table cells = .ok (c.schema.keep cells) := by
  unfold Schema.record?
  rw [if_neg (by rw [h.length]; exact not_not.mpr rfl)]
  have := missing?_eq_none h.keep
  unfold Schema.keep at this ⊢
  simp only [this]

theorem keeps_of_missing?_eq_none {cs : List Column}
    (hkey : ∀ col ∈ cs, col.isKey = true → col.type = .text) : ∀ {cells : List Cell},
      cells.length = cs.length →
      missing? cs (List.zipWith (fun c v => c.type.store v) cs cells) = none →
      List.Forall₂ Column.Keeps cs (List.zipWith (fun c v => c.type.store v) cs cells) := by
  induction cs with
  | nil => intro cells _ _; exact .nil
  | cons c cs ih =>
    intro cells hlen h
    cases cells with
    | nil => cases hlen
    | cons v cells =>
      rw [List.zipWith_cons_cons, missing?] at h
      split at h
      · cases h
      rename_i hsome
      have hreq : c.isRequired = true → (c.type.store v).isNull = false := by simpa using hsome
      refine .cons ⟨fun hk => ?_, hreq⟩
        (ih (fun col hc => hkey col (List.mem_cons_of_mem _ hc)) (by simpa using hlen) h)
      have hv := hreq (by rw [Column.isRequired, hk, Bool.true_or])
      simp only [hkey c List.mem_cons_self hk] at hv ⊢
      exact FieldType.store_text v hv

theorem stored_of_record?_eq_ok {table : String} {cells : List Cell} {r : Record}
    (h : c.schema.record? table cells = .ok r) :
    r = c.schema.keep cells ∧ c.schema.Stored (c.schema.keep cells) := by
  unfold Schema.record? at h
  split at h
  · cases h
  rename_i hlen
  simp only at h
  split at h
  · cases h
  rename_i hnone
  cases h
  exact ⟨rfl, keeps_of_missing?_eq_none (type_text_of_key c) (not_not.1 hlen) hnone⟩

/-- The records with the rows of a list written in order. -/
def upserts (s : Schema) (rows : List Row) (records : List Record) : List Record :=
  rows.foldl (fun acc row => s.upsert (s.keep row.cells) acc) records

@[simp] theorem upserts_nil (s : Schema) (records : List Record) : s.upserts [] records = records :=
  rfl

@[simp] theorem upserts_cons (s : Schema) (row : Row) (rows : List Row) (records : List Record) :
    s.upserts (row :: rows) records = s.upserts rows (s.upsert (s.keep row.cells) records) :=
  rfl

theorem upserts_append (s : Schema) (a b : List Row) (records : List Record) :
    s.upserts (a ++ b) records = s.upserts b (s.upserts a records) :=
  List.foldl_append

/-- **Typed rows are never refused.** -/
theorem upsertAll_typed (table : String) {rows : List Row}
    (h : ∀ row ∈ rows, c.schema.Typed row.cells) (records : List Record) :
    c.schema.upsertAll table rows records = .ok (c.schema.upserts rows records) := by
  induction rows generalizing records with
  | nil => rfl
  | cons row rows ih =>
    rw [upsertAll, (h row List.mem_cons_self).record? table]
    exact ih (fun row hr => h row (List.mem_cons_of_mem _ hr)) _

/-- **Rows of any kind are refused or written in order.** -/
theorem upsertAll_eq_ok {table : String} {rows : List Row} {records after : List Record}
    (h : c.schema.upsertAll table rows records = .ok after) :
    after = c.schema.upserts rows records ∧
      ∀ row ∈ rows, c.schema.Stored (c.schema.keep row.cells) := by
  induction rows generalizing records with
  | nil => cases h; exact ⟨rfl, fun _ hr => by cases hr⟩
  | cons row rows ih =>
    rw [upsertAll] at h
    split at h
    · cases h
    rename_i r hr
    obtain ⟨rfl, hrow⟩ := stored_of_record?_eq_ok hr
    obtain ⟨hafter, hrows⟩ := ih h
    refine ⟨hafter, fun q hq => ?_⟩
    rcases List.mem_cons.1 hq with rfl | hq
    · exact hrow
    · exact hrows q hq

theorem upsert_forall {s : Schema} {P : Record → Prop}
    (merge : ∀ a b, P a → P b → P (s.merge a b)) {incoming : Record} (hi : P incoming)
    {records : List Record} (h : ∀ r ∈ records, P r) : ∀ r ∈ s.upsert incoming records, P r := by
  induction records with
  | nil =>
    intro r hr
    rw [upsert, List.mem_singleton] at hr
    exact hr ▸ hi
  | cons a rest ih =>
    have hrest := fun r hr => h r (List.mem_cons_of_mem a hr)
    have ha := h a List.mem_cons_self
    intro r hr
    unfold upsert at hr
    split at hr
    all_goals rcases List.mem_cons.1 hr with rfl | hr
    · exact merge _ _ ha hi
    · exact hrest r hr
    · exact ha
    · exact ih hrest r hr

theorem upserts_forall {s : Schema} {P : Record → Prop}
    (merge : ∀ a b, P a → P b → P (s.merge a b)) {rows : List Row}
    (hr : ∀ row ∈ rows, P (s.keep row.cells)) {records : List Record}
    (h : ∀ r ∈ records, P r) : ∀ r ∈ s.upserts rows records, P r := by
  induction rows generalizing records with
  | nil => exact h
  | cons row rows ih =>
    exact ih (fun row h => hr row (List.mem_cons_of_mem _ h))
      (upsert_forall merge (hr row List.mem_cons_self) h)

theorem upsert_stored {s : Schema} {incoming : Record} (hi : s.Stored incoming)
    {records : List Record} (h : ∀ r ∈ records, s.Stored r) :
    ∀ r ∈ s.upsert incoming records, s.Stored r :=
  upsert_forall (fun _ _ ha hb => ha.merge hb) hi h

theorem upserts_stored {s : Schema} {rows : List Row}
    (hr : ∀ row ∈ rows, s.Stored (s.keep row.cells)) {records : List Record}
    (h : ∀ r ∈ records, s.Stored r) : ∀ r ∈ s.upserts rows records, s.Stored r :=
  upserts_forall (fun _ _ ha hb => ha.merge hb) hr h

theorem upserts_typed {rows : List Row} (hr : ∀ row ∈ rows, c.schema.Typed row.cells)
    {records : List Record} (h : ∀ r ∈ records, c.schema.Typed r) :
    ∀ r ∈ c.schema.upserts rows records, c.schema.Typed r :=
  upserts_forall (fun _ _ ha hb => ha.merge hb) (fun row h => (hr row h).keep) h

end Schema

end WindowAlign
