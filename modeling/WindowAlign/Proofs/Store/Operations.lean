import WindowAlign.Proofs.Store.Records

/-!
# Records of operations

Joining two records of one operation takes, column by column, what the later one has and else what
is stored: `merge_eq_orElse` says so of whole records, for a later one that is as new. A record of
an operation has a start or an end (`Timed`), so it is complete, orphaned or open, and only one of
the three; the open ones are those that started at a cutoff or later and those that started before.
-/

namespace WindowAlign

namespace Schema

variable {c : Category}

/-- The record says when the operation started or when it ended. -/
def Timed (s : Schema) (r : Record) : Prop :=
  (s.startTime r).isNull = false ∨ (s.endTime r).isNull = false

theorem startColumn?_eq (hc : c.schema.isStartFinish = true) :
    ∃ i, c.schema.startColumn? = some i ∧
      c.schema.columns[i]? = some ⟨"start_time", .int, .startTime, false⟩ := by
  cases c <;> first | exact ⟨_, rfl, rfl⟩ | exact absurd hc (by decide)

theorem endColumn?_eq (hc : c.schema.isStartFinish = true) :
    ∃ i, c.schema.endColumn? = some i ∧
      c.schema.columns[i]? = some ⟨"end_time", .int, .endTime, false⟩ := by
  cases c <;> first | exact ⟨_, rfl, rfl⟩ | exact absurd hc (by decide)

theorem eq_lastUpdatedColumn :
    ∀ i < c.schema.columns.length, (c.schema.columns[i]?).any (·.source = .lastUpdated) = true →
      i = c.schema.lastUpdatedColumn := by
  cases c <;> decide

theorem lastUpdatedColumn_eq :
    c.schema.columns[c.schema.lastUpdatedColumn]? =
      some ⟨"last_updated_time", .int, .lastUpdated, false⟩ := by
  cases c <;> rfl

theorem startTime_eq {s : Schema} {i : Nat} (h : s.startColumn? = some i) (r : Record) :
    s.startTime r = r[i]?.getD .null := by
  simp [startTime, h]

theorem endTime_eq {s : Schema} {i : Nat} (h : s.endColumn? = some i) (r : Record) :
    s.endTime r = r[i]?.getD .null := by
  simp [endTime, h]

/-! ## Times -/

theorem Typed.cell_int {r : Record} (h : c.schema.Typed r) {i : Nat} {col : Column}
    (hc : c.schema.columns[i]? = some col) (ht : col.type = .int) :
    r[i]?.getD .null = .null ∨ ∃ n, r[i]?.getD .null = .int n ∧ Signed64.fits n = true := by
  obtain ⟨v, hv, ha⟩ := h.admits hc
  rw [hv, Option.getD_some]
  exact (ht ▸ ha.1).int

theorem Typed.int_of_not_null {r : Record} (h : c.schema.Typed r) {i : Nat} {col : Column}
    (hc : c.schema.columns[i]? = some col) (ht : col.type = .int)
    (hnull : (r[i]?.getD .null).isNull = false) : ∃ t, r[i]?.getD .null = .int t := by
  rcases h.cell_int hc ht with e | ⟨t, e, -⟩
  · rw [e] at hnull
    cases hnull
  · exact ⟨t, e⟩

theorem Typed.startTime_int (hc : c.schema.isStartFinish = true) {r : Record}
    (h : c.schema.Typed r) (hnull : (c.schema.startTime r).isNull = false) :
    ∃ t, c.schema.startTime r = .int t := by
  obtain ⟨i, hi, hcol⟩ := startColumn?_eq hc
  rw [startTime_eq hi] at hnull ⊢
  exact h.int_of_not_null hcol rfl hnull

theorem Typed.endTime_int (hc : c.schema.isStartFinish = true) {r : Record}
    (h : c.schema.Typed r) (hnull : (c.schema.endTime r).isNull = false) :
    ∃ t, c.schema.endTime r = .int t := by
  obtain ⟨i, hi, hcol⟩ := endColumn?_eq hc
  rw [endTime_eq hi] at hnull ⊢
  exact h.int_of_not_null hcol rfl hnull

theorem merge_eq (hc : c.schema.isStartFinish = true) (a b : Record) :
    c.schema.merge a b = joinCells c.schema.columns a b := by
  have hl : c.schema.lifecycle = .startFinish := by simpa [isStartFinish] using hc
  unfold merge
  rw [hl]

theorem merge_getD (hc : c.schema.isStartFinish = true) {a b : Record} (ha : c.schema.Stored a)
    (hb : c.schema.Stored b) {i : Nat} {col : Column} (hi : c.schema.columns[i]? = some col)
    (hk : col.isKey = false) (hs : col.source ≠ .lastUpdated) :
    (c.schema.merge a b)[i]?.getD .null = (b[i]?.getD .null).orElse (a[i]?.getD .null) := by
  obtain ⟨x, hx, -⟩ := ha.keeps hi
  obtain ⟨y, hy, -⟩ := hb.keeps hi
  rw [merge_eq hc, getElem?_joinCells hi hx hy, hx, hy]
  simp [joinCell, hk, hs]

theorem startTime_merge (hc : c.schema.isStartFinish = true) {a b : Record}
    (ha : c.schema.Typed a) (hb : c.schema.Typed b) :
    c.schema.startTime (c.schema.merge a b) =
      (c.schema.startTime b).orElse (c.schema.startTime a) := by
  obtain ⟨i, hi, hcol⟩ := startColumn?_eq hc
  simp only [startTime_eq hi]
  exact merge_getD hc ha.stored hb.stored hcol rfl (by decide)

theorem endTime_merge (hc : c.schema.isStartFinish = true) {a b : Record}
    (ha : c.schema.Typed a) (hb : c.schema.Typed b) :
    c.schema.endTime (c.schema.merge a b) = (c.schema.endTime b).orElse (c.schema.endTime a) := by
  obtain ⟨i, hi, hcol⟩ := endColumn?_eq hc
  simp only [endTime_eq hi]
  exact merge_getD hc ha.stored hb.stored hcol rfl (by decide)

theorem lastUpdated_merge (hc : c.schema.isStartFinish = true) {a b : Record}
    (ha : c.schema.Stored a) (hb : c.schema.Stored b) :
    c.schema.lastUpdated (c.schema.merge a b) =
      (c.schema.lastUpdated b).greater (c.schema.lastUpdated a) := by
  obtain ⟨x, hx, -⟩ := ha.keeps lastUpdatedColumn_eq
  obtain ⟨y, hy, -⟩ := hb.keeps lastUpdatedColumn_eq
  simp only [lastUpdated, List.getD_eq_getElem?_getD]
  rw [merge_eq hc, getElem?_joinCells lastUpdatedColumn_eq hx hy, hx, hy]
  simp [joinCell]

theorem Timed.merge (hc : c.schema.isStartFinish = true) {a b : Record} (ha : c.schema.Typed a)
    (hb : c.schema.Typed b) (h : c.schema.Timed b) : c.schema.Timed (c.schema.merge a b) := by
  unfold Timed at h ⊢
  rw [startTime_merge hc ha hb, endTime_merge hc ha hb, Cell.isNull_orElse, Cell.isNull_orElse]
  rcases h with h | h
  · exact .inl (by rw [h, Bool.false_and])
  · exact .inr (by rw [h, Bool.false_and])

/-! ## Joining whole records -/

theorem key_cells_eq {a b : Record} (ha : c.schema.Stored a) (hb : c.schema.Stored b)
    (h : c.schema.identity a = c.schema.identity b) {i : Nat} {col : Column}
    (hi : c.schema.columns[i]? = some col) (hk : col.isKey = true) : a[i]? = b[i]? := by
  have hlt : i < c.schema.columns.length := (List.getElem?_eq_some_iff.1 hi).1
  have hm := mem_keyColumns_of_isKey i hlt (by rw [hi, Option.any_some, hk])
  obtain ⟨x, hx, hax⟩ := ha.keeps hi
  obtain ⟨y, hy, hay⟩ := hb.keeps hi
  obtain ⟨x, rfl⟩ := hax.1 hk
  obtain ⟨y, rfl⟩ := hay.1 hk
  have he := List.map_inj_left.1 h i hm
  simp only [List.getD_eq_getElem?_getD, hx, hy, Option.getD_some, keyText] at he
  rw [hx, hy, he]

theorem orElse_of_not_null {a b : Cell} (h : a.isNull = false) : a.orElse b = a := by
  cases a <;> first | rfl | cases h

/-- **A later record of an operation counts where it says something.** -/
theorem merge_eq_orElse (hc : c.schema.isStartFinish = true) {a b : Record}
    (ha : c.schema.Typed a) (hb : c.schema.Typed b)
    (hid : c.schema.identity a = c.schema.identity b)
    (hle : (c.schema.lastUpdated a).le (c.schema.lastUpdated b) = true) :
    c.schema.merge a b = List.zipWith Cell.orElse b a := by
  rw [merge_eq hc]
  apply List.ext_getElem?
  intro i
  cases hi : c.schema.columns[i]? with
  | none =>
    have hlen := List.getElem?_eq_none_iff.1 hi
    rw [List.getElem?_eq_none, List.getElem?_eq_none]
    · rw [List.length_zipWith, hb.length, ha.length, Nat.min_self]; exact hlen
    · rw [Typed.length (joinCells_forall₂ (fun _ _ _ => Column.Admits.joinCell) ha hb)]; exact hlen
  | some col =>
    obtain ⟨x, hx, hax⟩ := ha.admits hi
    obtain ⟨y, hy, hby⟩ := hb.admits hi
    rw [getElem?_joinCells hi hx hy, List.getElem?_zipWith, hx, hy]
    show some (joinCell col x y) = some (y.orElse x)
    unfold joinCell
    split
    · rename_i hk
      have hr : col.isRequired = true := by rw [Column.isRequired, hk, Bool.true_or]
      rw [orElse_of_not_null (hby.2 hr)]
      exact hx.symm.trans ((key_cells_eq ha.stored hb.stored hid hi hk).trans hy)
    split
    · rename_i hs
      have hlt : i < c.schema.columns.length := (List.getElem?_eq_some_iff.1 hi).1
      have he : i = c.schema.lastUpdatedColumn :=
        eq_lastUpdatedColumn i hlt (by rw [hi, Option.any_some]; exact decide_eq_true hs)
      have hr : col.isRequired = true := by simp [Column.isRequired, hs]
      simp only [lastUpdated, List.getD_eq_getElem?_getD, ← he, hx, hy, Option.getD_some] at hle
      rw [orElse_of_not_null (hby.2 hr), Cell.greater, if_pos hle]
    · rfl

/-! ## Kinds of operations -/

theorem Timed.kinds {s : Schema} {r : Record} (h : s.Timed r) :
    s.isComplete r = true ∨ s.isOrphan r = true ∨ s.isOpen r = true := by
  unfold Timed at h
  unfold isComplete isOrphan isOpen
  cases hs : (s.startTime r).isNull <;> cases he : (s.endTime r).isNull <;> simp_all

theorem isOpen_iff {s : Schema} {r : Record} :
    s.isOpen r = true ↔ (s.endTime r).isNull = true ∧ (s.startTime r).isNull = false := by
  simp [isOpen]

theorem startedSince_iff {s : Schema} {r : Record} {cutoff t : Int}
    (h : s.startTime r = .int t) : s.startedSince cutoff r = true ↔ cutoff ≤ t := by
  simp [startedSince, h, Cell.le]

/-- The open records that started at the cutoff or later. -/
def carriable (s : Schema) (cutoff : Int) (records : List Record) : List Record :=
  (records.filter s.isOpen).filter (s.startedSince cutoff)

theorem mem_carriable {s : Schema} {cutoff : Int} {records : List Record} {r : Record} :
    r ∈ s.carriable cutoff records ↔
      r ∈ records ∧ s.isOpen r = true ∧ s.startedSince cutoff r = true := by
  rw [carriable, List.mem_filter, List.mem_filter, and_assoc]

theorem Unique.carriable {s : Schema} {records : List Record} (h : s.Unique records)
    (cutoff : Int) : s.Unique (s.carriable cutoff records) :=
  (h.filter _).filter _

theorem recordOf?_carriable {s : Schema} {records : List Record} (h : s.Unique records)
    (cutoff : Int) (k : List String) : s.recordOf? k (s.carriable cutoff records) =
      (s.recordOf? k records).filter fun r => s.isOpen r && s.startedSince cutoff r := by
  refine Option.ext fun r => ?_
  rw [Option.filter_eq_some_iff, recordOf?_eq_some (h.carriable cutoff), recordOf?_eq_some h,
    mem_carriable, Bool.and_eq_true]
  exact and_right_comm

/-- The open records that started before the cutoff. -/
def abandoned (s : Schema) (cutoff : Int) (records : List Record) : List Record :=
  (records.filter s.isOpen).filter fun r => !s.startedSince cutoff r

/-- The records of one snapshot that a rollover adds to another: those that can be carried and whose
identity is not there yet. -/
def joining (s : Schema) (cutoff : Int) (source target : List Record) : List Record :=
  (s.carriable cutoff source).filter fun r => (s.recordOf? (s.identity r) target).isNone

@[simp] theorem joining_nil (s : Schema) (cutoff : Int) (source : List Record) :
    s.joining cutoff source [] = s.carriable cutoff source :=
  List.filter_eq_self.2 fun _ _ => rfl

theorem timed_of_isOpen {s : Schema} {r : Record} (h : s.isOpen r = true) : s.Timed r :=
  .inl (isOpen_iff.1 h).2

end Schema

end WindowAlign
