import Mathlib.Data.List.DropRight
import WindowAlign.Text.Blank

/-!
# Cutting and trimming

What cutting a text at a separator and taking blanks off its ends do to a text that was put together
from parts. Blanks around a text change nothing (`trim_append`), trimming a text with a separator
trims the outer sides of its two parts (`trim_separated`), and cutting takes off what stands before
the first separator (`cut?_append`, `pieces_append`). Texts without the separator are got back from
what joins them (`pieces_intercalate`).
-/

namespace WindowAlign.Text

variable {s a b : List Char} {sep : Char}

/-! ## Trimming -/

theorem trimStart_append (ha : a.all isBlank = true) : trimStart (a ++ s) = trimStart s :=
  List.dropWhile_append_of_pos (List.all_eq_true.1 ha)

theorem trimEnd_append (hb : b.all isBlank = true) : trimEnd (s ++ b) = trimEnd s := by
  rw [← List.all_reverse] at hb
  rw [trimEnd, List.reverse_append, List.dropWhile_append_of_pos (List.all_eq_true.1 hb), ← trimEnd]

theorem trimStart_trimStart (s : List Char) : trimStart (trimStart s) = trimStart s :=
  List.dropWhile_idempotent isBlank s

theorem trimEnd_trimEnd (s : List Char) : trimEnd (trimEnd s) = trimEnd s :=
  List.rdropWhile_idempotent isBlank s

/-- A blank in front falls away where all behind it does. -/
theorem trimEnd_cons (c : Char) (s : List Char) :
    trimEnd (c :: s) = if trimEnd s = [] ∧ isBlank c = true then [] else c :: trimEnd s := by
  unfold trimEnd
  rw [List.reverse_cons, List.dropWhile_append]
  cases s.reverse.dropWhile isBlank with
  | nil => cases hc : isBlank c <;> simp [hc]
  | cons d r => simp

/-- It does not matter which end is trimmed first. -/
theorem trimStart_trimEnd (s : List Char) : trimStart (trimEnd s) = trimEnd (trimStart s) := by
  induction s with
  | nil => rfl
  | cons c s ih =>
    rw [trimEnd_cons]
    cases hc : isBlank c with
    | false => simp [trimStart, hc, trimEnd_cons]
    | true =>
      have hstart (r : List Char) : trimStart (c :: r) = trimStart r :=
        List.dropWhile_cons_of_pos hc
      rw [hstart, ← ih]
      split
      · rename_i h
        rw [h.1]
      · exact hstart _

theorem trim_trimStart (s : List Char) : trim (trimStart s) = trim s := by
  rw [trim, trimStart_trimStart, ← trim]

theorem trim_trimEnd (s : List Char) : trim (trimEnd s) = trim s := by
  rw [trim, trimStart_trimEnd, trimEnd_trimEnd, ← trim]

theorem trim_append (ha : a.all isBlank = true) (hb : b.all isBlank = true) :
    trim (a ++ s ++ b) = trim s := by
  rw [trim, List.append_assoc, trimStart_append ha, ← trimStart_trimEnd, trimEnd_append hb,
    trimStart_trimEnd, ← trim]

theorem trimStart_separated (hsep : isBlank sep = false) :
    trimStart (a ++ sep :: b) = trimStart a ++ sep :: b := by
  unfold trimStart
  rw [List.dropWhile_append]
  split
  · rename_i h
    rw [List.isEmpty_iff.1 h, List.dropWhile_cons_of_neg (by rw [hsep]; decide), List.nil_append]
  · rfl

theorem trimEnd_separated (hsep : isBlank sep = false) :
    trimEnd (a ++ sep :: b) = a ++ sep :: trimEnd b := by
  have h := trimStart_separated (a := b.reverse) (b := a.reverse) hsep
  unfold trimStart at h
  rw [trimEnd, List.reverse_append, List.reverse_cons, List.append_assoc, List.singleton_append, h,
    List.reverse_append, List.reverse_cons, List.reverse_reverse, ← trimEnd, List.append_assoc,
    List.singleton_append]

/-- **Of a text with a separator the outer sides of its parts are trimmed.** -/
theorem trim_separated (hsep : isBlank sep = false) :
    trim (a ++ sep :: b) = trimStart a ++ sep :: trimEnd b := by
  rw [trim, trimStart_separated hsep, trimEnd_separated hsep]

theorem mem_of_mem_trimStart {c : Char} (h : c ∈ trimStart s) : c ∈ s :=
  (List.dropWhile_sublist _).mem h

theorem mem_of_mem_trim {c : Char} (h : c ∈ trim s) : c ∈ s := by
  rw [trim, trimEnd, List.mem_reverse] at h
  exact mem_of_mem_trimStart (List.mem_reverse.1 ((List.dropWhile_sublist _).mem h))

/-! ## Cutting -/

theorem cut?_append (h : sep ∉ a) : cut? sep (a ++ sep :: b) = some (a, b) := by
  induction a with
  | nil => rw [List.nil_append, cut?, if_pos rfl]
  | cons c a ih =>
    rw [List.mem_cons, not_or] at h
    rw [List.cons_append, cut?, if_neg (Ne.symm h.1), ih h.2]
    rfl

theorem cut?_eq_none (h : sep ∉ s) : cut? sep s = none := by
  induction s with
  | nil => rfl
  | cons c s ih =>
    rw [List.mem_cons, not_or] at h
    rw [cut?, if_neg (Ne.symm h.1), ih h.2]
    rfl

theorem pieces_eq_singleton (h : sep ∉ s) : pieces sep s = [s] := by
  induction s with
  | nil => rfl
  | cons c s ih =>
    rw [List.mem_cons, not_or] at h
    rw [pieces, if_neg (Ne.symm h.1), ih h.2]

theorem pieces_append (h : sep ∉ a) : pieces sep (a ++ sep :: b) = a :: pieces sep b := by
  induction a with
  | nil => rw [List.nil_append, pieces, if_pos rfl]
  | cons c a ih =>
    rw [List.mem_cons, not_or] at h
    rw [List.cons_append, pieces, if_neg (Ne.symm h.1), ih h.2]

theorem pieces_eq_cut? (sep : Char) (s : List Char) :
    pieces sep s = (cut? sep s).elim [s] fun p => p.1 :: pieces sep p.2 := by
  by_cases h : sep ∈ s
  · obtain ⟨a, b, rfl, ha⟩ := List.eq_append_cons_of_mem h
    rw [cut?_append ha, pieces_append ha, Option.elim_some]
  · rw [cut?_eq_none h, pieces_eq_singleton h, Option.elim_none]

theorem pieces_eq_nil_singleton : pieces sep s = [[]] ↔ s = [] := by
  constructor
  · intro h
    cases s with
    | nil => rfl
    | cons c s =>
      rw [pieces] at h
      split at h
      · exact absurd (List.cons.inj h).2 (pieces_ne_nil sep s)
      · split at h <;> cases h
  · rintro rfl
    rfl

theorem pieces_separated (sep : Char) (a b : List Char) :
    pieces sep (a ++ sep :: b) = pieces sep a ++ pieces sep b := by
  induction a with
  | nil => simp [pieces]
  | cons c a ih =>
    rw [List.cons_append, pieces, pieces, ih]
    split
    · rfl
    · cases hp : pieces sep a with
      | nil => exact absurd hp (pieces_ne_nil sep a)
      | cons p ps => rfl

/-- **Texts are got back from what joins them by a separator that none of them has.** -/
theorem pieces_intercalate {parts : List (List Char)} (hparts : parts ≠ [])
    (h : ∀ p ∈ parts, sep ∉ p) : pieces sep ([sep].intercalate parts) = parts := by
  induction parts with
  | nil => exact absurd rfl hparts
  | cons p parts ih =>
    rw [List.forall_mem_cons] at h
    cases parts with
    | nil => rw [List.intercalate_singleton, pieces_eq_singleton h.1]
    | cons q parts =>
      rw [List.intercalate_cons_cons, List.append_assoc, List.singleton_append, pieces_append h.1,
        ih (List.cons_ne_nil _ _) h.2]

end WindowAlign.Text
