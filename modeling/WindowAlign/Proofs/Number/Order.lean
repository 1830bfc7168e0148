import Mathlib
import WindowAlign.Number.Binary64

/-!
# The order of doubles

A comparison of doubles looks at their kinds first (an infinity, a finite value or a zero, with the
sign), then at the exponents and then at the significands. So numbers are ordered as triples of integers
are (`lt_iff_place`, `le_iff_place`), with both zeros at one place. NaN compares with nothing, so the
place that it has says nothing either. Packing what a double was unpacked to gives the double again: one
that unpacks like another is the other (`eq_of_unpack`), and adding it to the negative zero changes
nothing (`neg_zero_add`).
-/

namespace WindowAlign.Binary64

open Float.Model (UnpackedFloat)

/-- The place of an unpacked number: its kind, then its exponent, then its significand. Below zero the
last two are negated. -/
def rank : UnpackedFloat → Int ×ₗ Int ×ₗ Int
  | .infinity .negative => toLex (-2, toLex (0, 0))
  | .finite .negative m e _ => toLex (-1, toLex (-e, -m))
  | .notANumber | .zero _ => toLex (0, toLex (0, 0))
  | .finite .positive m e _ => toLex (1, toLex (e, m))
  | .infinity .positive => toLex (2, toLex (0, 0))

def place (x : Float) : Int ×ₗ Int ×ₗ Int :=
  rank x.toModel.unpack

/-! ## Comparisons -/

theorem compare_triple (k e f m n : Int) :
    compare (toLex (k, toLex (e, m))) (toLex (k, toLex (f, n))) =
      (compare e f).then (compare m n) := by
  simp [Prod.Lex.compare_def, compareLex, compareOn]

theorem compare_neg (e f : Int) : compare (-e) (-f) = compare f e := by
  rw [← cmp_eq_compare, ← cmp_eq_compare]
  exact StrictAnti.cmp_map_eq (fun _ _ => Int.neg_lt_neg) e f

theorem compare_natCast (m n : Nat) : compare (m : Int) n = compare m n := by
  rw [← cmp_eq_compare, ← cmp_eq_compare]
  exact Nat.strictMono_cast.cmp_map_eq m n

/-- **Numbers compare as their places do.** -/
theorem compare_eq_rank {u v : UnpackedFloat} (hu : u.isNaN = false) (hv : v.isNaN = false) :
    u.compare v = some (compare (rank u) (rank v)) := by
  cases u with
  | notANumber => cases hu
  | infinity s =>
    cases v with
    | notANumber => cases hv
    | finite t => cases s <;> cases t <;> rfl
    | _ t => cases s <;> cases t <;> rfl
  | zero s =>
    cases v with
    | notANumber => cases hv
    | zero t => rfl
    | finite t => cases t <;> rfl
    | infinity t => cases t <;> rfl
  | finite s m e =>
    cases v with
    | notANumber => cases hv
    | finite t n f =>
      -- values with one sign differ in the exponent, or else in the significand
      cases s <;> cases t
      · simp only [rank, compare_triple, compare_neg, compare_natCast]
        simp only [UnpackedFloat.compare, Ordering.swap_then, ← Std.OrientedOrd.eq_swap]
      · rfl
      · rfl
      · simp only [rank, compare_triple, compare_natCast]
        rfl
    | _ t => cases s <;> cases t <;> rfl

section Doubles

variable {x y : Float}

theorem lt_iff_place (hx : x.isNaN = false) (hy : y.isNaN = false) : x < y ↔ place x < place y := by
  show decide ((x.toModel.unpack.compare y.toModel.unpack == some .lt) = true) = true ↔ _
  rw [compare_eq_rank hx hy, decide_eq_true_iff, beq_iff_eq, Option.some_inj]
  exact compare_lt_iff_lt

theorem le_iff_place (hx : x.isNaN = false) (hy : y.isNaN = false) : x ≤ y ↔ place x ≤ place y := by
  show decide (((x.toModel.unpack.compare y.toModel.unpack).any (·.isLE)) = true) = true ↔ _
  rw [compare_eq_rank hx hy, decide_eq_true_iff, Option.any_some, Ordering.isLE_iff_ne_gt]
  exact compare_le_iff_le

/-! ## What a double is unpacked to -/

theorem eq_of_unpack (h : x.toModel.unpack = y.toModel.unpack) : x = y := by
  have hbits := (UnpackedFloat.unpack_inj_of_valid x.toModel.valid y.toModel.valid).1 h
  exact Float.toBits_inj.1 (UInt64.toBitVec_inj.1 hbits)

/-- Only infinity is a number that is not below it. -/
theorem eq_of_not_lt_infinity (hx : x.isNaN = false) (hy : y.toModel.unpack = .infinity .positive)
    (h : ¬ x < y) : x = y := by
  apply eq_of_unpack
  change x.toModel.unpack.isNaN = false at hx
  change ¬ decide ((x.toModel.unpack.compare y.toModel.unpack == some .lt) = true) = true at h
  rw [hy] at h ⊢
  generalize x.toModel.unpack = u at hx h ⊢
  cases u with
  | notANumber => cases hx
  | infinity s =>
    cases s with
    | positive => rfl
    | negative => exact absurd rfl h
  | zero => exact absurd rfl h
  | finite s => cases s <;> exact absurd rfl h

theorem eq_of_not_infinity_lt (hx : x.isNaN = false) (hy : y.toModel.unpack = .infinity .negative)
    (h : ¬ y < x) : x = y := by
  apply eq_of_unpack
  change x.toModel.unpack.isNaN = false at hx
  change ¬ decide ((y.toModel.unpack.compare x.toModel.unpack == some .lt) = true) = true at h
  rw [hy] at h ⊢
  generalize x.toModel.unpack = u at hx h ⊢
  cases u with
  | notANumber => cases hx
  | infinity s =>
    cases s with
    | positive => exact absurd rfl h
    | negative => rfl
  | zero => exact absurd rfl h
  | finite s => cases s <;> exact absurd rfl h

/-- **Adding to the negative zero changes nothing**, not even a zero's sign. -/
theorem neg_zero_add (x : Float) : -0.0 + x = x := by
  apply Float.toBits_inj.1
  apply UInt64.toBitVec_inj.1
  have hadd : UnpackedFloat.add .binary64 (.zero .negative) x.toModel.unpack = x.toModel.unpack := by
    cases x.toModel.unpack with
    | zero s => cases s <;> rfl
    | _ => rfl
  calc UnpackedFloat.pack .binary64 (UnpackedFloat.add .binary64 (.zero .negative) x.toModel.unpack)
      = UnpackedFloat.pack .binary64 x.toModel.unpack := by rw [hadd]
    _ = _ := UnpackedFloat.pack_unpack_of_valid x.toModel.valid

end Doubles

end WindowAlign.Binary64
