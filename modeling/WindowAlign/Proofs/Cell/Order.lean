import WindowAlign.Cell.Basic

/-!
# The order of cells

Cells are ordered by their kind first: nothing, then numbers, then texts. Numbers are compared as
multiples of one unit, so the order is total and transitive across integers and doubles
(`Cell.le_total`, `Cell.le_trans`). Two cells may be equally great without being equal. Both ways of
joining two cells, the greater one and the first that holds something, are associative, and joining a
cell once more changes nothing. The greater of two integers is the same in either order
(`Cell.greater_int_comm`), and so is the first of two cells that holds something where both agree
(`Cell.orElse_comm`).
-/

namespace WindowAlign

theorem Binary64.unitsPerOne_pos : 0 < Binary64.unitsPerOne := by
  unfold unitsPerOne
  generalize 1074 = n
  exact Nat.two_pow_pos n

namespace Cell

def rank : Cell → Nat
  | null => 0
  | int _ => 1
  | real _ => 1
  | text _ => 2

/-- A number as a multiple of the unit of doubles. -/
def units : Cell → Int
  | int n => n * Binary64.unitsPerOne
  | real x => Binary64.units x
  | _ => 0

def characters : Cell → String
  | text s => s
  | _ => ""

/-- **Cells are compared by kind, then by size, then by characters.** -/
theorem le_iff {a b : Cell} : a.le b = true ↔ a.rank < b.rank ∨
    a.rank = b.rank ∧ a.units ≤ b.units ∧ a.characters ≤ b.characters := by
  have hpos : (0 : Int) < Binary64.unitsPerOne := Int.natCast_pos.2 Binary64.unitsPerOne_pos
  have hscale : ∀ m n : Int,
      m * Binary64.unitsPerOne ≤ n * Binary64.unitsPerOne ↔ m ≤ n := fun m n =>
    ⟨fun h => Int.le_of_mul_le_mul_right h hpos,
      fun h => Int.mul_le_mul_of_nonneg_right h (Int.le_of_lt hpos)⟩
  -- the unit is kept closed: simp must not compute it
  cases a <;> cases b <;> simp only [le, rank, units, characters, decide_eq_true_eq]
  all_goals
    generalize Binary64.unitsPerOne = k at hscale ⊢
    simp [hscale]

theorem le_refl (a : Cell) : a.le a = true :=
  le_iff.2 (.inr ⟨rfl, Int.le_refl _, String.le_refl _⟩)

theorem le_trans {a b c : Cell} (hab : a.le b = true) (hbc : b.le c = true) : a.le c = true := by
  rw [le_iff] at hab hbc ⊢
  rcases hab with hab | ⟨hr, hu, hs⟩
  · left; omega
  rcases hbc with hbc | ⟨hr', hu', hs'⟩
  · left; omega
  · exact .inr ⟨hr.trans hr', Int.le_trans hu hu', String.le_trans hs hs'⟩

theorem le_total (a b : Cell) : a.le b = true ∨ b.le a = true := by
  have hunits := Int.le_total a.units b.units
  cases a with
  | null => exact .inl rfl
  | int m =>
    cases b <;> simp_all [le_iff, rank, characters]
  | real x =>
    cases b <;> simp_all [le_iff, rank, characters]
  | text s =>
    cases b with
    | text t => simpa [le] using String.le_total s t
    | _ => exact .inr rfl

/-! ## Joining cells -/

theorem greater_self (a : Cell) : a.greater a = a := by
  rw [greater, if_pos (le_refl a)]

theorem greater_assoc (a b c : Cell) : (a.greater b).greater c = a.greater (b.greater c) := by
  unfold greater
  cases hba : b.le a with
  | true =>
    cases hcb : c.le b with
    | true => simp [le_trans hcb hba, hba]
    | false => simp
  | false =>
    have hab : a.le b = true := (le_total a b).resolve_right (by rw [hba]; decide)
    cases hcb : c.le b with
    | true => simp [hcb, hba]
    | false =>
      have hca : c.le a = false := Bool.eq_false_iff.2 fun h => by
        rw [le_trans h hab] at hcb
        cases hcb
      simp [hcb, hca]

theorem greater_int_comm (m n : Int) : (int m).greater (int n) = (int n).greater (int m) := by
  unfold greater le
  rcases Int.lt_trichotomy m n with h | rfl | h
  · simp [Int.le_of_lt h, Int.not_le.2 h]
  · rfl
  · simp [Int.le_of_lt h, Int.not_le.2 h]

theorem orElse_self (a : Cell) : a.orElse a = a := by
  cases a <;> rfl

theorem orElse_assoc (a b c : Cell) : (a.orElse b).orElse c = a.orElse (b.orElse c) := by
  cases a <;> rfl

/-- Of two cells that agree where both hold something, either may come first. -/
theorem orElse_comm {a b : Cell} (h : a.isNull = false → b.isNull = false → a = b) :
    a.orElse b = b.orElse a := by
  cases ha : a.isNull with
  | true =>
    cases a with
    | null => cases b <;> rfl
    | _ => cases ha
  | false =>
    cases hb : b.isNull with
    | true =>
      cases b with
      | null => cases a <;> rfl
      | _ => cases hb
    | false => rw [h ha hb]

end Cell

end WindowAlign
