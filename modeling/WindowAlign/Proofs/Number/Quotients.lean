import WindowAlign.Number.Signed64
import WindowAlign.Proofs.Number.Positive

/-!
# Quotients of integers

An integer of 64 bits is taken to a double that is zero or finite (`isFinite_ofInt`), as the word of
the nearest one is well below that of infinity (`nearestBits_lt`). Such a double divided by a positive
one is a number (`isNaN_ofInt_div`): it is zero where the divisor has grown to infinity, and what
rounding makes of a finite quotient is zero or finite. Packing a number gives a number
(`isNaN_unpack_pack`).
-/

namespace WindowAlign.Binary64

open Float.Model (Format UnpackedFloat)
open Float.Model.UnpackedFloat hiding add div round normalize

/-! ## Words -/

section Words

variable {spec : Format} {b : BitVec spec.numBits}

/-- A word whose exponent has a bit that is not set is that of a zero or of a finite value. -/
theorem isFinite_unpack (h : unpackExponent b ≠ -1#_) : (unpack spec b).isFinite = true := by
  unfold unpack
  dsimp only
  rw [if_neg h]
  by_cases hzero : unpackExponent b = 0#_
  · rw [if_pos hzero]
    by_cases hm : unpackMantissa b = 0#_
    · rw [dif_pos hm]; rfl
    · rw [dif_neg hm]; rfl
  · rw [if_neg hzero]; rfl

theorem isNaN_of_isFinite {u : UnpackedFloat} (h : u.isFinite = true) : u.isNaN = false := by
  cases u with
  | notANumber => cases h
  | _ => rfl

/-- Of the words whose exponent has all bits set only that of infinity is a number. -/
theorem isNaN_unpack (h : unpackExponent b = -1#_ → unpackMantissa b = 0#_) :
    (unpack spec b).isNaN = false := by
  by_cases hones : unpackExponent b = -1#_
  · unfold unpack
    dsimp only
    rw [if_pos hones, if_pos (h hones)]
    rfl
  · exact isNaN_of_isFinite (isFinite_unpack hones)

end Words

/-! ## Packing -/

theorem ofNat_ne_ones {k : Nat} (h : k + 1 < 2048) : BitVec.ofNat 11 k ≠ -1#11 := by
  intro hones
  have hk := congrArg BitVec.toNat hones
  rw [BitVec.toNat_ofNat, Nat.mod_eq_of_lt (show k < 2048 by omega)] at hk
  change k = 2047 at hk
  omega

/-- A finite value is packed to infinity only where its exponent is beyond that of every double. -/
theorem pack_finite (sign : Sign) (m : Nat) (e : Int) (hm : 0 < m) :
    972 ≤ e ∧ pack Format.binary64 (.finite sign m e hm) = packedInfinity Format.binary64 sign ∨
      unpackExponent (pack Format.binary64 (.finite sign m e hm)) ≠ -1#_ := by
  unfold pack
  dsimp only
  generalize hbias : (e + Format.binary64.exponentBias +
    Format.binary64.mantissaBitsWithoutImplicit).toNat = biased
  have hbiased : biased = (e + 1075).toNat := by
    rw [← hbias]
    show (e + 1023 + 52).toNat = _
    omega
  split
  · rename_i hrange
    have hge : 2048 ≤ biased + 1 := hrange
    exact .inl ⟨by omega, rfl⟩
  · rename_i hrange
    have hlt : biased + 1 < 2048 := Nat.not_le.1 hrange
    refine .inr ?_
    split
    · rw [unpackExponent_packComponents]
      exact ofNat_ne_ones hlt
    · rw [unpackExponent_packComponents]
      exact ofNat_ne_ones (k := 0) (by decide)

/-- **What is a number is one after it is packed.** -/
theorem isNaN_unpack_pack {u : UnpackedFloat} (h : u.isNaN = false) :
    (unpack Format.binary64 (pack Format.binary64 u)).isNaN = false := by
  apply isNaN_unpack
  cases u with
  | notANumber => cases h
  | infinity sign => exact fun _ => unpackMantissa_packComponents
  | zero sign => exact fun _ => unpackMantissa_packComponents
  | finite sign m e hm =>
    intro hones
    rcases pack_finite sign m e hm with ⟨-, hpack⟩ | hne
    · rw [hpack]
      exact unpackMantissa_packComponents
    · exact absurd hones hne

/-- A zero, or a finite value whose exponent is that of a double. -/
inductive Bounded : UnpackedFloat → Prop where
  | zero (sign : Sign) : Bounded (.zero sign)
  | finite (sign : Sign) (m : Nat) (e : Int) (h : 0 < m) (he : e < 972) :
      Bounded (.finite sign m e h)

theorem bounded_unpack {b : BitVec 64} (h : (@unpackExponent Format.binary64 b).toNat < 2047) :
    Bounded (unpack Format.binary64 b) := by
  unfold unpack
  dsimp only
  refine iteInduction (fun hones => ?_) fun _ => ?_
  · rw [hones] at h
    exact absurd h (by decide)
  · refine iteInduction (fun hzero => ?_) fun _ => ?_
    · by_cases hm : @unpackMantissa Format.binary64 b = 0#52
      · rw [dif_pos hm]
        exact .zero _
      · rw [dif_neg hm]
        apply Bounded.finite
        rw [hzero]
        decide
    · apply Bounded.finite
      show ((@unpackExponent Format.binary64 b).toNat : Int) - (1023 + 52) < 972
      omega

/-- **What is bounded is packed to a finite word.** -/
theorem Bounded.isFinite_unpack_pack {u : UnpackedFloat} (h : Bounded u) :
    (unpack Format.binary64 (pack Format.binary64 u)).isFinite = true := by
  apply isFinite_unpack
  cases h with
  | zero sign =>
    show unpackExponent (packComponents Format.binary64 sign 0 0) ≠ -1#11
    rw [unpackExponent_packComponents]
    exact ofNat_ne_ones (k := 0) (by decide)
  | finite sign m e hm he =>
    rcases pack_finite sign m e hm with ⟨hge, -⟩ | hne
    · omega
    · exact hne

/-! ## Integers -/

theorem halfEven_le (num den : Nat) : Rounding.halfEven num den ≤ num / den + 1 := by
  unfold Rounding.halfEven
  dsimp only
  split
  · omega
  · split <;> omega

theorem shifted_lt (num k : Nat) (h : num.log2 + k ≤ 53) :
    num * Nat.pow 2 k < 18014398509481984 := by
  have hnum : num < Nat.pow 2 (num.log2 + 1) := Nat.lt_log2_self
  calc num * Nat.pow 2 k < Nat.pow 2 (num.log2 + 1) * Nat.pow 2 k :=
        Nat.mul_lt_mul_of_pos_right hnum (Nat.two_pow_pos k)
    _ = Nat.pow 2 (num.log2 + 1 + k) := (Nat.pow_add 2 _ _).symm
    _ ≤ Nat.pow 2 54 := Nat.pow_le_pow_right (by decide) (by omega)

theorem quotient_lt (num k : Nat) (h : num.log2 ≤ 53 + k) :
    num / Nat.pow 2 k < 18014398509481984 := by
  have hnum : num < Nat.pow 2 (num.log2 + 1) := Nat.lt_log2_self
  apply Nat.div_lt_of_lt_mul
  calc num < Nat.pow 2 (num.log2 + 1) := hnum
    _ ≤ Nat.pow 2 (k + 54) := Nat.pow_le_pow_right (by decide) (by omega)
    _ = Nat.pow 2 k * 18014398509481984 := Nat.pow_add 2 k 54

/-- The exponent of the double nearest to an integer of 64 bits is far below the greatest one. -/
theorem nearestBits_lt {num : Nat} (h : num < 18446744073709551616) :
    nearestBits num 1 < infinityBits := by
  have hlog : num.log2 < 64 ∨ num = 0 := by
    by_cases hnum : num = 0
    · exact .inr hnum
    · exact .inl ((Nat.log2_lt hnum).2 h)
  have hone : Nat.log2 1 = 0 := by decide
  have hbits : infinityBits = 9218868437227405312 := by decide
  unfold nearestBits
  split
  · omega
  rename_i hnum
  dsimp only
  rw [hone]
  generalize hq : max (-1074 : Int) _ = q
  have hlow : (num.log2 : Int) - 53 ≤ q := by
    rw [← hq]
    split <;> omega
  have hhigh : q ≤ 11 := by
    rw [← hq]
    split <;> omega
  refine Nat.lt_of_le_of_lt (Nat.min_le_right _ _) ?_
  have hexp : (q + 1074).toNat * Nat.pow 2 52 ≤ 1085 * 4503599627370496 :=
    Nat.mul_le_mul (by omega) (Nat.le_refl _)
  clear hq
  cases q with
  | ofNat k =>
    have hlow : (num.log2 : Int) - 53 ≤ k := hlow
    have hquotient := quotient_lt num k (by omega)
    have hround := halfEven_le num (1 * Nat.pow 2 k)
    rw [Nat.one_mul] at hround
    dsimp only
    rw [Nat.one_mul]
    omega
  | negSucc k =>
    have hshifted := shifted_lt num (k + 1) (by omega)
    have hround := halfEven_le (num * Nat.pow 2 (k + 1)) 1
    rw [Nat.div_one] at hround
    dsimp only
    omega

/-- **An integer of 64 bits gives a finite double.** -/
theorem isFinite_ofInt {n : Int} (hn : Signed64.fits n = true) :
    (ofInt n).toModel.unpack.isFinite = true := by
  obtain ⟨hleast, hgreatest⟩ := Signed64.fits_iff.1 hn
  have hnum : n.natAbs < 18446744073709551616 := by
    unfold Signed64.least at hleast
    unfold Signed64.greatest at hgreatest
    omega
  have hlt := nearestBits_lt hnum
  have hbits : infinityBits = 9218868437227405312 := by decide
  apply Bounded.isFinite_unpack_pack
  apply bounded_unpack
  rw [toNat_unpackExponent]
  -- the sign is above the exponent
  show (nearestBits n.natAbs 1 + if decide (n < 0) then Nat.pow 2 63 else 0) % 18446744073709551616 /
    4503599627370496 % 2048 < 2047
  split
  · show (nearestBits n.natAbs 1 + 9223372036854775808) % 18446744073709551616 / 4503599627370496 %
      2048 < 2047
    omega
  · omega

/-! ## Quotients -/

theorem isFinite_roundWithAccuracy (sign : Sign) (m : Nat) (e : Int) (accuracy : Accuracy) :
    (roundWithAccuracy Format.binary64 sign m e accuracy).isFinite = true := by
  unfold roundWithAccuracy
  generalize shiftToTargetExponent Format.binary64 m e accuracy = first
  obtain ⟨em, e'⟩ := first
  dsimp only
  by_cases h : (shiftToTargetExponent Format.binary64 em.roundedMantissa e' .exact).1.mantissa = 0
  · rw [dif_pos h]; rfl
  · rw [dif_neg h]; rfl

/-- **A finite value divided by a positive one is a number.** -/
theorem isNaN_div {u v : UnpackedFloat} (hu : u.isFinite = true) (hv : Positive v) :
    (UnpackedFloat.div Format.binary64 u v).isNaN = false := by
  cases u with
  | notANumber => cases hu
  | infinity sign => cases hu
  | zero sign => cases hv <;> rfl
  | finite sign m e hm =>
    cases hv with
    | infinity => rfl
    | finite m' e' hm' => exact isNaN_of_isFinite (isFinite_roundWithAccuracy ..)

/-- **An integer of 64 bits divided by one above zero is a number**, each of them taken to the nearest
double. -/
theorem isNaN_ofInt_div {n d : Int} (hn : Signed64.fits n = true) (hd : 0 < d) :
    (ofInt n / ofInt d).isNaN = false :=
  isNaN_unpack_pack (isNaN_div (isFinite_ofInt hn) (positive_ofInt hd))

end WindowAlign.Binary64
