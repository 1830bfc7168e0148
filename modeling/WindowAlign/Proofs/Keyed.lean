import Mathlib.Data.List.Nodup

/-!
# Lists of entries with keys

The windows of a database, the groups of an aligned table and the entries of a directory are kept as
lists of pairs. An entry is found under its key (`mem_iff_lookup`) where no two of them have the same.
-/

namespace WindowAlign.Keyed

variable {α β : Type} [BEq α] [LawfulBEq α]

theorem lookup_eq_none {l : List (α × β)} {k : α} : l.lookup k = none ↔ ∀ x ∈ l, k ≠ x.1 := by
  simp only [List.lookup_eq_none_iff, bne_iff_ne]

variable [DecidableEq α]

theorem lookup_cons (k : α) (x : α × β) (l : List (α × β)) :
    (x :: l).lookup k = if k = x.1 then some x.2 else l.lookup k := by
  rw [List.lookup_cons]
  by_cases h : k = x.1
  · rw [if_pos h, beq_iff_eq.2 h]
  · rw [if_neg h, beq_false_of_ne h]

theorem lookup_filter (p : α → Bool) (l : List (α × β)) (k : α) :
    (l.filter fun x => p x.1).lookup k = if p k then l.lookup k else none := by
  induction l with
  | nil => simp
  | cons x l ih =>
    rw [List.filter_cons, lookup_cons k x l]
    by_cases hk : k = x.1
    · by_cases hx : p x.1 = true
      · rw [if_pos hx, lookup_cons, hk, if_pos hx, if_pos rfl, if_pos rfl]
      · rw [if_neg hx, ih, hk, if_neg hx, if_neg hx]
    · rw [if_neg hk, ← ih]
      split
      · rw [lookup_cons, if_neg hk]
      · rfl

theorem mem_iff_lookup {l : List (α × β)} (h : (l.map (·.1)).Nodup) {x : α × β} :
    x ∈ l ↔ l.lookup x.1 = some x.2 := by
  induction l with
  | nil => simp
  | cons y l ih =>
    rw [List.map_cons, List.nodup_cons] at h
    rw [List.mem_cons, ih h.2, lookup_cons, Prod.ext_iff]
    by_cases hk : x.1 = y.1
    · have hnone : l.lookup x.1 = none := lookup_eq_none.2 fun z hz e =>
        h.1 (List.mem_map.2 ⟨z, hz, e.symm.trans hk⟩)
      rw [hnone, if_pos hk, Option.some_inj]
      simp [hk, eq_comm]
    · simp [hk]

end WindowAlign.Keyed
