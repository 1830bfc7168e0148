import Mathlib.Data.List.Nodup
import WindowAlign.Proofs.Store.Typing
import WindowAlign.Store.Lifecycle

/-!
# Records by identity

`recordOf? k` is the record of identity `k`, and `Unique` says that no two records have one
identity. Joining two records keeps the identity of the stored one, so writing a row changes the
record of the row's identity only (`recordOf?_upsert`), and `carry` appends the records whose
identities are not there yet. An operation's record has a start or an end (`Timed`), hence it is
open, complete or orphaned, and just one of the three.
-/

namespace WindowAlign

namespace Schema

def Unique (s : Schema) (records : List Record) : Prop :=
  (records.map s.identity).Nodup

def recordOf? (s : Schema) (k : List String) (records : List Record) : Option Record :=
  records.find? (s.identity · = k)

variable {c : Category}

/-! ## Key columns -/

theorem isKey_of_mem_keyColumns :
    ∀ i ∈ c.schema.keyColumns, (c.schema.columns[i]?).any (·.isKey) = true := by
  cases c <;> decide

theorem mem_keyColumns_of_isKey :
    ∀ i < c.schema.columns.length, (c.schema.columns[i]?).any (·.isKey) = true →
      i ∈ c.schema.keyColumns := by
  cases c <;> decide

theorem getElem?_joinCells {cs : List Column} {a b : Record} {i : Nat} {col : Column} {x y : Cell}
    (hc : cs[i]? = some col) (ha : a[i]? = some x) (hb : b[i]? = some y) :
    (joinCells cs a b)[i]? = some (joinCell col x y) := by
  induction cs generalizing a b i with
  | nil => simp at hc
  | cons d cs ih =>
    cases a with
    | nil => simp at ha
    | cons x' a =>
      cases b with
      | nil => simp at hb
      | cons y' b =>
        cases i with
        | zero =>
          simp only [List.getElem?_cons_zero, Option.some.injEq] at hc ha hb
          simp [joinCells, hc, ha, hb]
        | succ i =>
          simp only [List.getElem?_cons_succ] at hc ha hb
          simpa [joinCells] using ih hc ha hb

theorem identity_joinCells {a b : Record} (ha : c.schema.Stored a) (hb : c.schema.Stored b) :
    c.schema.identity (joinCells c.schema.columns a b) = c.schema.identity a := by
  refine List.map_congr_left fun i hi => ?_
  have hk := isKey_of_mem_keyColumns i hi
  cases hc : c.schema.columns[i]? with
  | none => simp [hc] at hk
  | some col =>
    rw [hc, Option.any_some] at hk
    obtain ⟨x, hx, -⟩ := ha.keeps hc
    obtain ⟨y, hy, -⟩ := hb.keeps hc
    simp [List.getD_eq_getElem?_getD, getElem?_joinCells hc hx hy, hx, joinCell, hk]

theorem identity_merge {a b : Record} (ha : c.schema.Stored a) (hb : c.schema.Stored b)
    (h : c.schema.identity a = c.schema.identity b) :
    c.schema.identity (c.schema.merge a b) = c.schema.identity b := by
  unfold merge
  split
  · exact (identity_joinCells ha hb).trans h
  all_goals
    split
    · rfl
    · exact h

theorem getElem?_keep {s : Schema} {cells : List Cell} {i : Nat} {col : Column} {v : Cell}
    (hc : s.columns[i]? = some col) (hv : cells[i]? = some v) :
    (s.keep cells)[i]? = some (col.type.store v) := by
  simp [keep, List.getElem?_zipWith, hc, hv]

theorem identity_keep {cells : List Cell} (h : c.schema.Typed cells) :
    c.schema.identity (c.schema.keep cells) = c.schema.identity cells := by
  refine List.map_congr_left fun i hi => ?_
  have hk := isKey_of_mem_keyColumns i hi
  cases hc : c.schema.columns[i]? with
  | none => simp [hc] at hk
  | some col =>
    rw [hc, Option.any_some] at hk
    obtain ⟨v, hv, ha⟩ := h.admits hc
    have ht := type_text_of_key c col (List.mem_of_getElem? hc) hk
    have hs := FieldType.store_of_ne_float (by rw [ht]; decide) ha.1
    simp [List.getD_eq_getElem?_getD, getElem?_keep hc hv, hv, hs]

/-! ## Writing -/

theorem map_identity_upsert {r : Record} (hr : c.schema.Stored r) {l : List Record}
    (h : ∀ a ∈ l, c.schema.Stored a) :
    (c.schema.upsert r l).map c.schema.identity =
      if c.schema.identity r ∈ l.map c.schema.identity then l.map c.schema.identity
      else l.map c.schema.identity ++ [c.schema.identity r] := by
  induction l with
  | nil => simp [upsert]
  | cons a l ih =>
    have hl := ih fun a ha => h a (List.mem_cons_of_mem _ ha)
    unfold upsert
    by_cases ha : c.schema.identity a = c.schema.identity r
    · simp [ha, identity_merge (h a List.mem_cons_self) hr ha]
    · have hm : c.schema.identity r ∈ (a :: l).map c.schema.identity ↔
          c.schema.identity r ∈ l.map c.schema.identity := by
        rw [List.map_cons, List.mem_cons, or_iff_right (Ne.symm ha)]
      rw [if_neg ha, List.map_cons, hl]
      by_cases h' : c.schema.identity r ∈ l.map c.schema.identity
      · rw [if_pos h', if_pos (hm.2 h'), List.map_cons]
      · rw [if_neg h', if_neg (mt hm.1 h'), List.map_cons, List.cons_append]

theorem Unique.upsert {r : Record} (hr : c.schema.Stored r) {l : List Record}
    (h : ∀ a ∈ l, c.schema.Stored a) (hu : c.schema.Unique l) :
    c.schema.Unique (c.schema.upsert r l) := by
  unfold Unique at hu ⊢
  rw [map_identity_upsert hr h]
  split
  · exact hu
  · rename_i hm
    exact List.nodup_append.2 ⟨hu, List.nodup_singleton _, fun x hx y hy e => by
      rw [List.mem_singleton] at hy
      exact hm (hy ▸ e ▸ hx)⟩

/-- **A write changes the record of its own identity only.** -/
theorem recordOf?_upsert {r : Record} (hr : c.schema.Stored r) {l : List Record}
    (h : ∀ a ∈ l, c.schema.Stored a) (k : List String) :
    c.schema.recordOf? k (c.schema.upsert r l) =
      if c.schema.identity r = k then
        some (((c.schema.recordOf? k l).map (c.schema.merge · r)).getD r)
      else c.schema.recordOf? k l := by
  induction l with
  | nil => by_cases hk : c.schema.identity r = k <;> simp [upsert, recordOf?, hk]
  | cons a l ih =>
    have hl := ih fun a ha => h a (List.mem_cons_of_mem _ ha)
    unfold recordOf? at hl ⊢
    unfold upsert
    by_cases ha : c.schema.identity a = c.schema.identity r
    · have hm := identity_merge (h a List.mem_cons_self) hr ha
      rw [if_pos ha]
      by_cases hk : c.schema.identity r = k
      · simp [hm, hk, ha]
      · simp [hm, hk, ha]
    · rw [if_neg ha]
      by_cases hk : c.schema.identity a = k
      · have : c.schema.identity r ≠ k := fun e => ha (hk.trans e.symm)
        simp [hk, this]
      · simp only [List.find?_cons, hk, decide_false]
        exact hl

/-- What the rows of one identity, written in order, make of its record. -/
def joinRows (s : Schema) (rows : List Row) (stored : Option Record) : Option Record :=
  rows.foldl (fun o row => some ((o.map (s.merge · (s.keep row.cells))).getD (s.keep row.cells)))
    stored

def rowIdentity (s : Schema) (row : Row) : List String :=
  s.identity (s.keep row.cells)

theorem recordOf?_upserts {rows : List Row}
    (hr : ∀ row ∈ rows, c.schema.Stored (c.schema.keep row.cells)) {l : List Record}
    (h : ∀ a ∈ l, c.schema.Stored a) (k : List String) :
    c.schema.recordOf? k (c.schema.upserts rows l) =
      c.schema.joinRows (rows.filter (c.schema.rowIdentity · = k)) (c.schema.recordOf? k l) := by
  induction rows generalizing l with
  | nil => rfl
  | cons row rows ih =>
    have hrow := hr row List.mem_cons_self
    rw [upserts_cons, ih (fun row h => hr row (List.mem_cons_of_mem _ h))
      (upsert_stored hrow h), recordOf?_upsert hrow h]
    by_cases hk : c.schema.identity (c.schema.keep row.cells) = k
    · simp [rowIdentity, hk, joinRows]
    · simp [rowIdentity, hk]

theorem recordOf?_upserts_typed {rows : List Row} (hr : ∀ row ∈ rows, c.schema.Typed row.cells)
    {l : List Record} (h : ∀ a ∈ l, c.schema.Stored a) (k : List String) :
    c.schema.recordOf? k (c.schema.upserts rows l) =
      c.schema.joinRows (rows.filter (c.schema.identity ·.cells = k)) (c.schema.recordOf? k l) := by
  have hsame : rows.filter (c.schema.rowIdentity · = k) =
      rows.filter (c.schema.identity ·.cells = k) :=
    List.filter_congr fun row hrow => by rw [rowIdentity, identity_keep (hr row hrow)]
  rw [recordOf?_upserts (fun row hrow => (hr row hrow).keep.stored) h, hsame]

theorem Unique.upserts {rows : List Row}
    (hr : ∀ row ∈ rows, c.schema.Stored (c.schema.keep row.cells)) {l : List Record}
    (h : ∀ a ∈ l, c.schema.Stored a) (hu : c.schema.Unique l) :
    c.schema.Unique (c.schema.upserts rows l) := by
  induction rows generalizing l with
  | nil => exact hu
  | cons row rows ih =>
    have hrow := hr row List.mem_cons_self
    exact ih (fun row h => hr row (List.mem_cons_of_mem _ h)) (upsert_stored hrow h)
      (hu.upsert hrow h)

theorem recordOf?_eq_some {s : Schema} {l : List Record} (hu : s.Unique l) {k : List String}
    {r : Record} : s.recordOf? k l = some r ↔ r ∈ l ∧ s.identity r = k := by
  constructor
  · intro h
    exact ⟨List.mem_of_find?_eq_some h, by simpa using List.find?_some h⟩
  · rintro ⟨hr, rfl⟩
    cases h : s.recordOf? (s.identity r) l with
    | none => simpa using List.find?_eq_none.1 h r hr
    | some a =>
      have ha : s.identity a = s.identity r := by simpa using List.find?_some h
      rw [List.inj_on_of_nodup_map hu (List.mem_of_find?_eq_some h) hr ha]

theorem recordOf?_eq_none {s : Schema} {l : List Record} {k : List String} :
    s.recordOf? k l = none ↔ ∀ r ∈ l, s.identity r ≠ k := by
  simp [recordOf?]

theorem filter_identity {s : Schema} {l : List Record} (hu : s.Unique l) (k : List String) :
    l.filter (s.identity · = k) = (s.recordOf? k l).toList := by
  induction l with
  | nil => rfl
  | cons a l ih =>
    unfold Unique at hu
    rw [List.map_cons, List.nodup_cons] at hu
    have hl := ih hu.2
    unfold recordOf? at hl ⊢
    by_cases ha : s.identity a = k
    · have hn : ∀ r ∈ l, s.identity r ≠ k :=
        fun r hr e => hu.1 (List.mem_map.2 ⟨r, hr, e.trans ha.symm⟩)
      simpa [ha] using hn
    · simpa [ha] using hl

/-! ## Carrying along -/

theorem insertIfAbsent_of_absent {s : Schema} {r : Record} {l : List Record}
    (h : ∀ a ∈ l, s.identity a ≠ s.identity r) : s.insertIfAbsent r l = l ++ [r] := by
  induction l with
  | nil => rfl
  | cons a l ih =>
    rw [insertIfAbsent, if_neg (h a List.mem_cons_self),
      ih fun a ha => h a (List.mem_cons_of_mem _ ha), List.cons_append]

theorem insertIfAbsent_of_present {s : Schema} {r a : Record} {l : List Record} (ha : a ∈ l)
    (h : s.identity a = s.identity r) : s.insertIfAbsent r l = l := by
  induction l with
  | nil => simp at ha
  | cons b l ih =>
    rw [insertIfAbsent]
    split
    · rfl
    · rename_i hb
      rcases List.mem_cons.1 ha with rfl | ha
      · exact absurd h hb
      · rw [ih ha]

/-- **Carrying appends what is absent.** -/
theorem carry_eq {s : Schema} {source : List Record} (hu : s.Unique source) (target : List Record) :
    s.carry source target =
      target ++ source.filter fun r => (s.recordOf? (s.identity r) target).isNone := by
  induction source generalizing target with
  | nil => simp [carry]
  | cons r source ih =>
    unfold Unique at hu
    rw [List.map_cons, List.nodup_cons] at hu
    have hr : ∀ b ∈ source, s.identity r ≠ s.identity b :=
      fun b hb e => hu.1 (List.mem_map.2 ⟨b, hb, e.symm⟩)
    have hstep : s.carry (r :: source) target = s.carry source (s.insertIfAbsent r target) := rfl
    rw [hstep, ih hu.2]
    cases h : s.recordOf? (s.identity r) target with
    | some a =>
      rw [insertIfAbsent_of_present (List.mem_of_find?_eq_some h)
        (by simpa using List.find?_some h)]
      simp [h]
    | none =>
      rw [insertIfAbsent_of_absent (recordOf?_eq_none.1 h)]
      have hsame : ∀ b ∈ source, (s.recordOf? (s.identity b) (target ++ [r])).isNone =
          (s.recordOf? (s.identity b) target).isNone := by
        intro b hb
        simp [recordOf?, List.find?_append, hr b hb]
      simp [h, List.filter_congr hsame]

theorem Unique.filter {s : Schema} {l : List Record} (hu : s.Unique l) (p : Record → Bool) :
    s.Unique (l.filter p) :=
  hu.sublist (List.filter_sublist.map _)

end Schema

end WindowAlign
