import Criterion.Proofs.Binary64.Pattern

/-!
# Doubles as the arithmetic sees them

The arithmetic of doubles distinguishes zeros, other finite numbers, infinities and what is no
number, each but the last with a sign. These classes are those of the views.
-/

namespace Criterion.Binary64

open Float.Model Float.Model.UnpackedFloat

variable {x : Float}

/-- The sign of a double, as the arithmetic knows it. -/
def signOf (negative : Bool) : Sign := if negative then .negative else .positive

/-- What a view is unpacked to: the class of the double and its sign. -/
inductive View.Unpacked : View → UnpackedFloat → Prop where
  | nan : Unpacked .nan .notANumber
  | infinite (negative : Bool) : Unpacked (.infinite negative) (.infinity (signOf negative))
  | zero (negative : Bool) : Unpacked (.finite negative 0) (.zero (signOf negative))
  | finite (negative : Bool) {units : Nat} (hunits : units ≠ 0) (mantissa : Nat) (exponent : Int)
      (hmantissa : 0 < mantissa) :
      Unpacked (.finite negative units) (.finite (signOf negative) mantissa exponent hmantissa)

/-- The highest bit is unpacked to the sign. -/
theorem ofBitVec_unpackSign (x : Float) :
    Sign.ofBitVec (@unpackSign Format.binary64 x.toBits.toBitVec) = signOf (isNegative x) := by
  have hlt : x.toBits.toNat < 2 ^ 64 := x.toBits.toNat_lt
  have hsign : (@unpackSign Format.binary64 x.toBits.toBitVec).toNat =
      x.toBits.toNat / 2 ^ 63 % 2 := by
    simp [unpackSign, BitVec.extractLsb, Nat.shiftRight_eq_div_pow]
  have hpositive : @unpackSign Format.binary64 x.toBits.toBitVec = 0#1 ↔
      ¬ 2 ^ 63 ≤ x.toBits.toNat := by
    rw [← BitVec.toNat_inj, hsign, BitVec.toNat_ofNat]
    omega
  rw [Sign.ofBitVec, signOf, isNegative, signBit_eq]
  simp only [hpositive, decide_eq_true_eq, ite_not]

/-- The exponent has all its bits set from the infinities on. -/
theorem unpackExponent_eq_ones_iff :
    @unpackExponent Format.binary64 x.toBits.toBitVec = -1#11 ↔ 2047 * 2 ^ 52 ≤ patternOf x := by
  have hones : (-1#11 : BitVec 11).toNat = 2047 := rfl
  have hpattern : patternOf x = x.toBits.toNat % 2 ^ 63 := rfl
  rw [← BitVec.toNat_inj, toNat_unpackExponent, UInt64.toNat_toBitVec, hones, hpattern]
  omega

/-- The exponent has no bit set below the first binade. -/
theorem unpackExponent_eq_zero_iff :
    @unpackExponent Format.binary64 x.toBits.toBitVec = 0#11 ↔ patternOf x < 2 ^ 52 := by
  have hnone : (0#11 : BitVec 11).toNat = 0 := rfl
  have hpattern : patternOf x = x.toBits.toNat % 2 ^ 63 := rfl
  rw [← BitVec.toNat_inj, toNat_unpackExponent, UInt64.toNat_toBitVec, hnone, hpattern]
  omega

/-- The fraction has no bit set at the beginning of a binade. -/
theorem unpackMantissa_eq_zero_iff :
    @unpackMantissa Format.binary64 x.toBits.toBitVec = 0#52 ↔ patternOf x % 2 ^ 52 = 0 := by
  have hnone : (0#52 : BitVec 52).toNat = 0 := rfl
  have hpattern : patternOf x = x.toBits.toNat % 2 ^ 63 := rfl
  rw [← BitVec.toNat_inj, toNat_unpackMantissa, UInt64.toNat_toBitVec, hnone, hpattern]
  omega

/-- A pattern has no units only if it is zero. -/
theorem unitsOfPattern_eq_zero_iff {pattern : Nat} : unitsOfPattern pattern = 0 ↔ pattern = 0 := by
  have hbinade : 0 < binade := by decide
  rw [unitsOfPattern]
  split
  · exact Iff.rfl
  · have hpow : 0 < Nat.pow 2 (pattern / binade - 1) := Nat.two_pow_pos _
    have hunits : 0 < (binade + pattern % binade) * Nat.pow 2 (pattern / binade - 1) :=
      Nat.mul_pos (by omega) hpow
    omega

/-- Every double is unpacked to the class of its view. -/
theorem unpacked_view (x : Float) : (view x).Unpacked x.toModel.unpack := by
  change (view x).Unpacked (UnpackedFloat.unpack Format.binary64 x.toBits.toBitVec)
  rw [UnpackedFloat.unpack, view, infinitePattern_eq]
  simp only [ofBitVec_unpackSign]
  by_cases hfinite : patternOf x < 2047 * 2 ^ 52
  · rw [if_pos hfinite, if_neg (mt unpackExponent_eq_ones_iff.1 (Nat.not_le.2 hfinite))]
    by_cases hzero : patternOf x = 0
    · rw [if_pos (unpackExponent_eq_zero_iff.2 (by omega)),
        dif_pos (unpackMantissa_eq_zero_iff.2 (by omega)), hzero]
      exact .zero _
    · have hunits : unitsOfPattern (patternOf x) ≠ 0 := mt unitsOfPattern_eq_zero_iff.1 hzero
      by_cases hsubnormal : patternOf x < 2 ^ 52
      · rw [if_pos (unpackExponent_eq_zero_iff.2 hsubnormal),
          dif_neg (mt unpackMantissa_eq_zero_iff.1 (by omega))]
        exact .finite _ hunits _ _ _
      · rw [if_neg (mt unpackExponent_eq_zero_iff.1 hsubnormal)]
        exact .finite _ hunits _ _ _
  · have hlt : patternOf x < 2 ^ 63 := Nat.mod_lt _ (by decide)
    rw [if_neg hfinite, if_pos (unpackExponent_eq_ones_iff.2 (Nat.not_lt.1 hfinite))]
    by_cases hinfinite : patternOf x = 2047 * 2 ^ 52
    · rw [if_pos hinfinite, if_pos (unpackMantissa_eq_zero_iff.2 (by omega))]
      exact .infinite _
    · rw [if_neg hinfinite, if_neg (mt unpackMantissa_eq_zero_iff.1 (by omega))]
      exact .nan

/-- What compares equal to zero is a zero of either sign. -/
theorem beq_zero_iff : (x == zero false) = true ↔ ∃ negative, view x = .finite negative 0 := by
  have hzero : (zero false).toModel.unpack = .zero .positive := rfl
  change (x.toModel.unpack.beq (zero false).toModel.unpack) = true ↔ _
  rw [hzero]
  generalize hv : view x = v
  have hx := unpacked_view x
  rw [hv] at hx
  generalize x.toModel.unpack = u at hx
  cases hx with
  | nan => simp [UnpackedFloat.beq, UnpackedFloat.compare]
  | infinite negative => cases negative <;> simp [UnpackedFloat.beq, UnpackedFloat.compare, signOf]
  | zero negative => simp [UnpackedFloat.beq, UnpackedFloat.compare]
  | finite negative hunits mantissa exponent hmantissa =>
    cases negative <;> simp [UnpackedFloat.beq, UnpackedFloat.compare, signOf, hunits]

end Criterion.Binary64
