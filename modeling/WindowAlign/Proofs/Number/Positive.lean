import WindowAlign.Number.Binary64

/-!
# Positive doubles

A double is positive when it is the positive infinity, or a finite one above zero. The words of
positive doubles are those from one up to that of infinity (`positive_unpack`), so an integer from one
up gives a positive double (`positive_ofInt`). Rounding does not lose what is above zero, as long as
the exponent is in the range of doubles (`positive_round`); so a sum of two positive doubles is
positive, and one of a positive double and a zero (`zero_lt_add_ofInt`). Integers may be of any size:
those beyond the greatest double count as infinity.
-/

namespace WindowAlign.Binary64

open Float.Model (Format UnpackedFloat totalExponent)
open Float.Model.UnpackedFloat hiding add round normalize

/-- A value above zero with a significand of 53 bits at most and an exponent in range. -/
inductive Positive : UnpackedFloat → Prop where
  | infinity : Positive (.infinity .positive)
  | finite (m : Nat) (e : Int) (h : 0 < m) (hm : m.log2 ≤ 52) (he : -1074 ≤ e) :
      Positive (.finite .positive m e h)

/-! ## Words -/

section Words

variable (b : BitVec 64)

theorem toNat_unpackExponent :
    (@unpackExponent Format.binary64 b).toNat = b.toNat / 4503599627370496 % 2048 := by
  change (b.toNat >>> 52) % 2048 = _
  rw [Nat.shiftRight_eq_div_pow]

theorem toNat_unpackMantissa :
    (@unpackMantissa Format.binary64 b).toNat = b.toNat % 4503599627370496 := by
  change (b.toNat >>> 0) % 4503599627370496 = _
  rw [Nat.shiftRight_zero]

theorem toNat_unpackSign :
    (@unpackSign Format.binary64 b).toNat = b.toNat / 9223372036854775808 % 2 := by
  change (b.toNat >>> 63) % 2 = _
  rw [Nat.shiftRight_eq_div_pow]

theorem toNat_packComponents (e : BitVec 11) (m : BitVec 52) :
    (packComponents Format.binary64 .positive e m).toNat =
      e.toNat * 4503599627370496 + m.toNat := by
  change (0#1 ++ e ++ m).toNat = _
  rw [BitVec.toNat_append, BitVec.toNat_append, ← Nat.shiftLeft_add_eq_or_of_lt m.isLt,
    Nat.shiftLeft_eq]
  simp

theorem toNat_implicit_append (m : BitVec 52) : (1#1 ++ m).toNat = 4503599627370496 + m.toNat := by
  rw [BitVec.toNat_append, ← Nat.shiftLeft_add_eq_or_of_lt m.isLt, Nat.shiftLeft_eq]
  rfl

theorem log2_le_52 {m : Nat} (h : m < 9007199254740992) : m.log2 ≤ 52 := by
  by_cases hm : m = 0
  · simp [hm]
  · have : m.log2 < 53 := (Nat.log2_lt hm).2 h
    omega

variable {b}

/-- **The words from one up to that of infinity are those of positive doubles.** -/
theorem positive_unpack (hpos : 0 < b.toNat) (hle : b.toNat ≤ infinityBits) :
    Positive (unpack Format.binary64 b) := by
  have hbound : b.toNat ≤ 9218868437227405312 := hle
  have hexp := toNat_unpackExponent b
  have hman := toNat_unpackMantissa b
  have hsign : Sign.ofBitVec (@unpackSign Format.binary64 b) = .positive := by
    have hzero : @unpackSign Format.binary64 b = 0#1 := by
      apply BitVec.eq_of_toNat_eq
      rw [toNat_unpackSign]
      show b.toNat / 9223372036854775808 % 2 = 0
      omega
    rw [hzero]
    rfl
  have hmlt : (@unpackMantissa Format.binary64 b).toNat < 4503599627370496 :=
    (@unpackMantissa Format.binary64 b).isLt
  unfold unpack
  dsimp only
  rw [hsign]
  refine iteInduction (fun hones => ?_) fun hones => ?_
  · -- a word with this exponent is at least that of infinity
    have hev := congrArg BitVec.toNat hones
    change _ = 2047 at hev
    rw [if_pos]
    · exact .infinity
    · apply BitVec.eq_of_toNat_eq
      change _ = 0
      omega
  · refine iteInduction (fun hzero => ?_) fun hzero => ?_
    · have hev := congrArg BitVec.toNat hzero
      change _ = 0 at hev
      have hnonzero : @unpackMantissa Format.binary64 b ≠ 0#52 := by
        intro h
        have hmv := congrArg BitVec.toNat h
        change _ = 0 at hmv
        omega
      rw [dif_neg hnonzero]
      apply Positive.finite
      · exact log2_le_52 (by omega)
      · rw [hev]
        decide
    · have hev : (@unpackExponent Format.binary64 b).toNat ≠ 0 := fun h =>
        hzero (BitVec.eq_of_toNat_eq h)
      apply Positive.finite
      · have := toNat_implicit_append (@unpackMantissa Format.binary64 b)
        exact log2_le_52 (by omega)
      · show -1074 ≤ ((@unpackExponent Format.binary64 b).toNat : Int) - (1023 + 52)
        omega

end Words

/-! ## Packing -/

theorem toNat_packedInfinity :
    (packedInfinity Format.binary64 .positive).toNat = infinityBits := by
  decide

/-- **What is positive is so after it is packed.** -/
theorem Positive.unpack_pack {u : UnpackedFloat} (h : Positive u) :
    Positive (unpack Format.binary64 (pack Format.binary64 u)) := by
  have hinfinity : Positive (unpack Format.binary64 (packedInfinity Format.binary64 .positive)) := by
    have hword := toNat_packedInfinity
    have hpos : 0 < infinityBits := by decide
    exact positive_unpack (Nat.lt_of_lt_of_eq hpos hword.symm) (Nat.le_of_eq hword)
  cases h with
  | infinity => exact hinfinity
  | finite m e hpos hm he =>
    unfold pack
    dsimp only
    generalize hbias : (e + Format.binary64.exponentBias +
      Format.binary64.mantissaBitsWithoutImplicit).toNat = biased
    have hbiased : biased = (e + 1075).toNat := by
      rw [← hbias]
      show (e + 1023 + 52).toNat = _
      omega
    split
    · exact hinfinity
    · rename_i hrange
      have hlt : biased + 1 < 2048 := Nat.not_le.1 hrange
      have hmant : (BitVec.ofNat 52 m).toNat < 4503599627370496 := (BitVec.ofNat 52 m).isLt
      have hbits : infinityBits = 9218868437227405312 := by decide
      split
      · -- the exponent of a normal double is not that of zero
        have hexp : (BitVec.ofNat 11 biased).toNat = biased := Nat.mod_eq_of_lt (by omega)
        have hword := toNat_packComponents (BitVec.ofNat 11 biased) (BitVec.ofNat 52 m)
        rw [hexp] at hword
        apply positive_unpack
        · show 0 < (packComponents Format.binary64 .positive (BitVec.ofNat 11 biased)
            (BitVec.ofNat 52 m)).toNat
          omega
        · show (packComponents Format.binary64 .positive (BitVec.ofNat 11 biased)
            (BitVec.ofNat 52 m)).toNat ≤ _
          omega
      · -- the significand of a subnormal double is not zero
        rename_i hlog
        have hsmall : m < 4503599627370496 := by
          have hlt : m.log2 < 52 := by
            have : ¬m.log2 + 1 = 53 := hlog
            omega
          exact (Nat.log2_lt (by omega)).1 hlt
        have hm : (BitVec.ofNat 52 m).toNat = m := Nat.mod_eq_of_lt hsmall
        have hword := toNat_packComponents 0#11 (BitVec.ofNat 52 m)
        rw [hm, BitVec.toNat_zero] at hword
        apply positive_unpack
        · show 0 < (packComponents Format.binary64 .positive 0#11 (BitVec.ofNat 52 m)).toNat
          omega
        · show (packComponents Format.binary64 .positive 0#11 (BitVec.ofNat 52 m)).toNat ≤ _
          omega

/-! ## Rounding -/

theorem mantissa_shiftRight (em : ExtendedMantissa) (k : Nat) :
    (em >>> k).mantissa = em.mantissa >>> k := by
  induction k with
  | zero => rfl
  | succ k ih =>
    show (em >>> k).mantissa / 2 = _
    rw [ih, Nat.shiftRight_succ]

theorem mantissa_le_roundedMantissa (em : ExtendedMantissa) :
    em.mantissa ≤ em.roundedMantissa := by
  obtain ⟨m, round, sticky⟩ := em
  cases round <;> cases sticky <;>
    simp [ExtendedMantissa.roundedMantissa, ExtendedMantissa.accuracy,
      Accuracy.roundToNearestEven]

theorem log2_shiftRight {m k : Nat} (hm : 0 < m) (hk : k ≤ m.log2) :
    0 < m >>> k ∧ (m >>> k).log2 + k = m.log2 := by
  induction k with
  | zero => exact ⟨hm, rfl⟩
  | succ k ih =>
    obtain ⟨hpos, hlog⟩ := ih (by omega)
    have hbits := Nat.log2_def (m >>> k)
    rw [Nat.shiftRight_succ]
    split at hbits <;> omega

/-- The shift to the exponent that a double has leaves something of a significand that is not zero. -/
theorem shiftToTargetExponent_pos {m : Nat} {e : Int} (hm : 0 < m) (he : -1074 ≤ e)
    (accuracy : Accuracy) :
    0 < (shiftToTargetExponent Format.binary64 m e accuracy).1.mantissa ∧
      (shiftToTargetExponent Format.binary64 m e accuracy).1.mantissa.log2 ≤ 52 ∧
      -1074 ≤ (shiftToTargetExponent Format.binary64 m e accuracy).2 := by
  have hshift : (Format.binary64.targetExponent (totalExponent m e) - e).toNat = m.log2 - 52 := by
    show (max ((m.log2 : Int) + 1 + e - 53) (-1074) - e).toNat = m.log2 - 52
    omega
  have hmantissa : (ExtendedMantissa.ofMantissaAndAccuracy m accuracy).mantissa = m := by
    cases accuracy with
    | exact => rfl
    | inexact o => cases o <;> rfl
  unfold shiftToTargetExponent shiftToExponent
  dsimp only
  rw [hshift, mantissa_shiftRight, hmantissa]
  obtain ⟨hpos, hlog⟩ := log2_shiftRight hm (show m.log2 - 52 ≤ m.log2 by omega)
  exact ⟨hpos, by omega, by omega⟩

theorem positive_roundWithAccuracy {m : Nat} {e : Int} (hm : 0 < m) (he : -1074 ≤ e)
    (accuracy : Accuracy) :
    Positive (roundWithAccuracy Format.binary64 .positive m e accuracy) := by
  obtain ⟨hpos, -, hexp⟩ := shiftToTargetExponent_pos hm he accuracy
  unfold roundWithAccuracy
  generalize shiftToTargetExponent Format.binary64 m e accuracy = first at hpos hexp
  obtain ⟨em, e'⟩ := first
  have hrounded := Nat.lt_of_lt_of_le hpos (mantissa_le_roundedMantissa em)
  obtain ⟨hpos', hlog, hexp'⟩ := shiftToTargetExponent_pos hrounded hexp .exact
  dsimp only
  rw [dif_neg (Nat.ne_of_gt hpos')]
  exact .finite _ _ _ hlog hexp'

theorem shiftLeft_pos {m : Nat} (hm : 0 < m) (k : Nat) : 0 < m <<< k := by
  rw [Nat.shiftLeft_eq]
  exact Nat.mul_pos hm (Nat.two_pow_pos k)

/-- **Rounding keeps what is positive**, where the exponent is in range. -/
theorem positive_round {m : Nat} {e : Int} (hm : 0 < m) (he : -1074 ≤ e) :
    Positive (UnpackedFloat.round Format.binary64 .positive m e) := by
  unfold UnpackedFloat.round decreaseExponent
  dsimp only
  have htarget : -1074 ≤ Format.binary64.targetExponent (totalExponent m e) :=
    Int.le_max_right _ (-1074)
  apply positive_roundWithAccuracy
  · exact shiftLeft_pos hm _
  · omega

/-! ## Sums -/

theorem positive_normalize {m e : Int} (hm : 0 < m) (he : -1074 ≤ e) (sign : Sign) :
    Positive (UnpackedFloat.normalize Format.binary64 m e sign) := by
  have hcompare : compare m 0 = .gt := Int.compare_eq_gt.2 hm
  unfold UnpackedFloat.normalize
  rw [hcompare]
  exact positive_round (by omega) he

/-- **A sum of positive values is positive.** -/
theorem Positive.add {u v : UnpackedFloat} (hu : Positive u) (hv : Positive v) :
    Positive (u.add Format.binary64 v) := by
  cases hu with
  | infinity => cases hv <;> exact .infinity
  | finite m e hpos hm he =>
    cases hv with
    | infinity => exact .infinity
    | finite m' e' hpos' hm' he' =>
      apply positive_normalize
      · show (0 : Int) < (m <<< (e - min e e').toNat : Nat) + (m' <<< (e' - min e e').toNat : Nat)
        have hleft := shiftLeft_pos hpos (e - min e e').toNat
        have hright := shiftLeft_pos hpos' (e' - min e e').toNat
        generalize m <<< (e - min e e').toNat = a at hleft ⊢
        generalize m' <<< (e' - min e e').toNat = b at hright ⊢
        omega
      · omega

theorem Positive.add_zero {u : UnpackedFloat} (hu : Positive u) (sign : Sign) :
    u.add Format.binary64 (.zero sign) = u ∧ UnpackedFloat.add Format.binary64 (.zero sign) u = u := by
  cases hu <;> exact ⟨rfl, rfl⟩

theorem zero_lt_of_positive {x : Float} (h : Positive x.toModel.unpack) : 0 < x := by
  show decide _ = true
  apply decide_eq_true
  show (UnpackedFloat.zero .positive).lt x.toModel.unpack = true
  generalize x.toModel.unpack = u at h ⊢
  cases h <;> rfl

theorem positive_add {x y : Float} (hx : Positive x.toModel.unpack)
    (hy : Positive y.toModel.unpack) : Positive (x + y).toModel.unpack :=
  (hx.add hy).unpack_pack

theorem positive_add_zero {x y : Float} (hx : Positive x.toModel.unpack)
    (hy : y.toModel.unpack = .zero .positive) :
    Positive (x + y).toModel.unpack ∧ Positive (y + x).toModel.unpack := by
  obtain ⟨hright, hleft⟩ := hx.add_zero .positive
  constructor
  · show Positive (unpack _ (pack _ (UnpackedFloat.add _ x.toModel.unpack y.toModel.unpack)))
    rw [hy, hright]
    exact hx.unpack_pack
  · show Positive (unpack _ (pack _ (UnpackedFloat.add _ y.toModel.unpack x.toModel.unpack)))
    rw [hy, hleft]
    exact hx.unpack_pack

/-! ## Integers -/

theorem unpack_ofInt_zero : (ofInt 0).toModel.unpack = .zero .positive :=
  rfl

theorem nearestBits_pos {n : Nat} (hn : 0 < n) : 0 < nearestBits n 1 := by
  unfold nearestBits
  rw [if_neg (Nat.ne_of_gt hn)]
  dsimp only
  -- the exponent of an integer is far above the least one
  apply Nat.lt_min.2
  constructor
  · decide
  · apply Nat.add_pos_left
    apply Nat.mul_pos _ (by decide)
    have hone : Nat.log2 1 = 0 := by decide
    rw [hone]
    split <;> omega

theorem nearestBits_le (num den : Nat) : nearestBits num den ≤ infinityBits := by
  unfold nearestBits
  split
  · exact Nat.zero_le _
  · exact Nat.min_le_left ..

/-- **An integer from one up gives a positive double.** -/
theorem positive_ofInt {n : Int} (hn : 0 < n) : Positive (ofInt n).toModel.unpack := by
  have hbits : ofInt n = Float.ofBits (UInt64.ofNat (nearestBits n.natAbs 1)) := by
    rw [ofInt, ofRatio, decide_eq_false (by omega)]
    rfl
  have hpos := nearestBits_pos (show 0 < n.natAbs by omega)
  have hle := nearestBits_le n.natAbs 1
  have hsmall : infinityBits < 18446744073709551616 := by decide
  have hword : (UInt64.ofNat (nearestBits n.natAbs 1)).toBitVec.toNat = nearestBits n.natAbs 1 :=
    Nat.mod_eq_of_lt (Nat.lt_of_le_of_lt hle hsmall)
  rw [hbits]
  apply Positive.unpack_pack
  apply positive_unpack
  · rw [hword]; exact hpos
  · rw [hword]; exact hle

/-- **The sum of two integers from zero up, each taken to the nearest double, is above zero** unless
both are zero. -/
theorem zero_lt_add_ofInt {l r : Int} (hl : 0 ≤ l) (hr : 0 ≤ r) (h : 0 < l + r) :
    0 < ofInt l + ofInt r := by
  apply zero_lt_of_positive
  by_cases hl' : l = 0
  · subst hl'
    exact (positive_add_zero (positive_ofInt (by omega)) unpack_ofInt_zero).2
  by_cases hr' : r = 0
  · subst hr'
    exact (positive_add_zero (positive_ofInt (by omega)) unpack_ofInt_zero).1
  · exact positive_add (positive_ofInt (by omega)) (positive_ofInt (by omega))

end WindowAlign.Binary64
