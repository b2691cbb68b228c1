import Criterion.Proofs.Binary64.Distance
import Criterion.Proofs.Binary64.Unpack

/-!
# The order and the signs of doubles

The arithmetic compares finite doubles by their exponents first and then by their significands. For
patterns this is the order of natural numbers, and so it is the order of the numbers of units. A
double is negated by the other sign, and only by that.
-/

namespace Criterion.Binary64

open Float.Model Float.Model.UnpackedFloat

variable {x y : Float} {s t : Int} {negative : Bool} {pattern : Nat}

/-- A double is neither an infinity nor without a number. -/
def IsFinite (x : Float) : Prop := patternOf x < infinitePattern

/-- The units of a finite double, with its sign. -/
def signedUnits (x : Float) : Int :=
  if isNegative x then -(unitsOfPattern (patternOf x) : Int) else unitsOfPattern (patternOf x)

/-- A finite pattern is made up of a significand and an exponent. The significand has its leading
digit unless the exponent is the least one. -/
structure Composed (pattern significand : Nat) (exponent : Int) : Prop where
  finite : pattern < infinitePattern
  pattern_eq : (pattern : Int) = (exponent + 1074) * 2 ^ 52 + significand
  significand_lt : significand < 2 ^ 53
  le_exponent : -1074 ≤ exponent
  leading : exponent = -1074 ∨ 2 ^ 52 ≤ significand

/-- The finite doubles that the arithmetic distinguishes, with their units. -/
inductive HasUnits : UnpackedFloat → Int → Prop where
  | zero (sign : Sign) : HasUnits (.zero sign) 0
  | positive {pattern m : Nat} {e : Int} (hpos : 0 < m) (h : Composed pattern m e) :
      HasUnits (.finite .positive m e hpos) (unitsOfPattern pattern)
  | negative {pattern m : Nat} {e : Int} (hpos : 0 < m) (h : Composed pattern m e) :
      HasUnits (.finite .negative m e hpos) (-(unitsOfPattern pattern))

/-! ## Exponents and significands -/

theorem toNat_unpackExponent_eq (x : Float) :
    (@unpackExponent Format.binary64 x.toBits.toBitVec).toNat = patternOf x / 2 ^ 52 := by
  rw [toNat_unpackExponent, UInt64.toNat_toBitVec, patternOf, signBit_eq]
  omega

theorem toNat_unpackMantissa_eq (x : Float) :
    (@unpackMantissa Format.binary64 x.toBits.toBitVec).toNat = patternOf x % 2 ^ 52 := by
  rw [toNat_unpackMantissa, UInt64.toNat_toBitVec, patternOf, signBit_eq]
  omega

private theorem unpack_eq_finite (hfinite : IsFinite x) (hne : patternOf x ≠ 0) :
    ∃ e hpos, x.toModel.unpack =
        .finite (signOf (isNegative x)) (significand (patternOf x)) e hpos ∧
      Composed (patternOf x) (significand (patternOf x)) e := by
  have hlt : patternOf x < 2047 * 2 ^ 52 := hfinite
  have hexponent := toNat_unpackExponent_eq x
  have hmantissa := toNat_unpackMantissa_eq x
  have hbias : Format.binary64.exponentBias = 1023 := rfl
  have hunpack : x.toModel.unpack = UnpackedFloat.unpack Format.binary64 x.toBits.toBitVec := rfl
  rw [hunpack, UnpackedFloat.unpack, significand, binade_eq]
  simp only [ofBitVec_unpackSign]
  rw [if_neg (mt unpackExponent_eq_ones_iff.1 (Nat.not_le.2 hlt))]
  by_cases hsubnormal : patternOf x < 2 ^ 52
  · rw [if_pos (unpackExponent_eq_zero_iff.2 hsubnormal),
      dif_neg (mt unpackMantissa_eq_zero_iff.1 (by omega)), if_pos hsubnormal]
    refine ⟨-1074, Nat.pos_of_ne_zero hne, ?_, hfinite, by omega, by omega, by omega, .inl rfl⟩
    simp only [finite.injEq, true_and, hmantissa, hexponent, hbias]
    omega
  · have hleading : (1#1 ++ @unpackMantissa Format.binary64 x.toBits.toBitVec).toNat =
        2 ^ 52 + patternOf x % 2 ^ 52 := by
      rw [BitVec.toNat_append, ← Nat.shiftLeft_add_eq_or_of_lt (BitVec.isLt _), hmantissa]
      rfl
    rw [if_neg (mt unpackExponent_eq_zero_iff.1 hsubnormal), if_neg hsubnormal]
    refine ⟨(patternOf x / 2 ^ 52 : Nat) - 1075, by omega, ?_, hfinite, by omega, by omega,
      by omega, .inr (by omega)⟩
    simp only [finite.injEq, true_and, hexponent, hleading, hbias]
    omega

private theorem unpack_eq_zero (hzero : patternOf x = 0) :
    x.toModel.unpack = .zero (signOf (isNegative x)) := by
  have hfinite : patternOf x < infinitePattern := by
    rw [hzero]
    decide
  have hview : view x = .finite (isNegative x) 0 := by
    rw [view, if_pos hfinite, unitsOfPattern_eq_zero_iff.2 hzero]
  have hunpacked := unpacked_view x
  rw [hview] at hunpacked
  generalize x.toModel.unpack = u at hunpacked
  cases hunpacked with
  | zero => rfl
  | finite _ hunits => exact absurd rfl hunits

/-! ## The order -/

/-- A finite double is unpacked to what has its units. -/
theorem hasUnits_signedUnits (h : IsFinite x) : HasUnits x.toModel.unpack (signedUnits x) := by
  rw [signedUnits]
  by_cases hzero : patternOf x = 0
  · rw [unpack_eq_zero hzero, unitsOfPattern_eq_zero_iff.2 hzero, Int.natCast_zero, Int.neg_zero,
      ite_self]
    exact .zero _
  · obtain ⟨e, hpos, hunpack, hcomposed⟩ := unpack_eq_finite h hzero
    rw [hunpack]
    cases isNegative x with
    | false => exact .positive hpos hcomposed
    | true => exact .negative hpos hcomposed

/-- What has a significand has units. -/
theorem Composed.units_pos {p m : Nat} {e : Int} (h : Composed p m e) (hpos : 0 < m) :
    0 < (unitsOfPattern p : Int) := by
  have hpattern := h.pattern_eq
  have hexponent := h.le_exponent
  have hne : unitsOfPattern p ≠ 0 := mt unitsOfPattern_eq_zero_iff.1 (by omega)
  omega

/-- Exponents and then significands are in the order of the units that they make up. -/
theorem Composed.compare_eq {p q m n : Nat} {e f : Int} (h : Composed p m e)
    (h' : Composed q n f) :
    (compare e f).then (compare m n) = compare (unitsOfPattern p : Int) (unitsOfPattern q) := by
  obtain ⟨hp, hpattern, hm, he, hleading⟩ := h
  obtain ⟨hq, hpattern', hn, hf, hleading'⟩ := h'
  rcases Nat.lt_trichotomy p q with hlt | heq | hgt
  · have hunits := Int.ofNat_lt.2 (unitsOfPattern_lt hlt hq)
    rw [Int.compare_eq_lt.2 hunits, Ordering.then_eq_lt, Int.compare_eq_lt, Int.compare_eq_eq,
      Nat.compare_eq_lt]
    omega
  · rw [heq, Int.compare_eq_eq.2 rfl, Ordering.then_eq_eq, Int.compare_eq_eq, Nat.compare_eq_eq]
    omega
  · have hunits := Int.ofNat_lt.2 (unitsOfPattern_lt hgt hp)
    rw [Int.compare_eq_gt.2 hunits, Ordering.then_eq_gt, Int.compare_eq_gt, Int.compare_eq_eq,
      Nat.compare_eq_gt]
    omega

/-- Finite doubles compare as their units do. -/
theorem HasUnits.compare_eq {u v : UnpackedFloat} (h : HasUnits u s) (h' : HasUnits v t) :
    u.compare v = some (compare s t) := by
  cases h with
  | zero =>
    cases h' with
    | zero => rfl
    | positive hpos h' => exact congrArg some (Int.compare_eq_lt.2 (h'.units_pos hpos)).symm
    | negative hpos h' =>
      exact congrArg some (Int.compare_eq_gt.2 (Int.neg_neg_of_pos (h'.units_pos hpos))).symm
  | positive hpos h =>
    have hunits := h.units_pos hpos
    cases h' with
    | zero => exact congrArg some (Int.compare_eq_gt.2 hunits).symm
    | positive _ h' => exact congrArg some (h.compare_eq h')
    | negative hpos' h' =>
      have hunits' := h'.units_pos hpos'
      exact congrArg some (Int.compare_eq_gt.2 (by omega)).symm
  | negative hpos h =>
    have hunits := h.units_pos hpos
    cases h' with
    | zero => exact congrArg some (Int.compare_eq_lt.2 (Int.neg_neg_of_pos hunits)).symm
    | positive hpos' h' =>
      have hunits' := h'.units_pos hpos'
      exact congrArg some (Int.compare_eq_lt.2 (by omega)).symm
    | negative _ h' =>
      refine congrArg some ?_
      rw [h.compare_eq h', Int.compare_swap, Int.compare_eq_ite_lt, Int.compare_eq_ite_lt]
      simp only [Int.neg_lt_neg_iff]

/-- Finite doubles are in the order of their units. -/
theorem le_iff_signedUnits_le (hx : IsFinite x) (hy : IsFinite y) :
    x ≤ y ↔ signedUnits x ≤ signedUnits y := by
  have hcompare := (hasUnits_signedUnits hx).compare_eq (hasUnits_signedUnits hy)
  have hle : x ≤ y ↔ x.toModel.unpack.le y.toModel.unpack = true := decide_eq_true_iff
  rw [hle, UnpackedFloat.le, hcompare, Option.any_some, Int.isLE_compare]

/-- A double is at most as great as another exactly if it is less or compares equal. What is no
number is none of these. -/
theorem le_iff_lt_or_beq : x ≤ y ↔ x < y ∨ x == y := by
  have hle : x ≤ y ↔ x.toModel.unpack.le y.toModel.unpack = true := decide_eq_true_iff
  have hlt : x < y ↔ x.toModel.unpack.lt y.toModel.unpack = true := decide_eq_true_iff
  have hbeq : (x == y) = x.toModel.unpack.beq y.toModel.unpack := rfl
  rw [hle, hlt, hbeq, UnpackedFloat.le, UnpackedFloat.lt, UnpackedFloat.beq]
  cases x.toModel.unpack.compare y.toModel.unpack with
  | none => decide
  | some order => cases order <;> decide

/-! ## Signs -/

private theorem signOf_not (negative : Bool) : signOf (!negative) = -signOf negative := by
  cases negative <;> rfl

private theorem unpack_of_opposite (hsign : isNegative y = !isNegative x)
    (hpattern : patternOf y = patternOf x) : y.toModel.unpack = x.toModel.unpack.neg := by
  have hexponent : @unpackExponent Format.binary64 y.toBits.toBitVec =
      @unpackExponent Format.binary64 x.toBits.toBitVec := by
    rw [← BitVec.toNat_inj, toNat_unpackExponent_eq, toNat_unpackExponent_eq, hpattern]
  have hmantissa : @unpackMantissa Format.binary64 y.toBits.toBitVec =
      @unpackMantissa Format.binary64 x.toBits.toBitVec := by
    rw [← BitVec.toNat_inj, toNat_unpackMantissa_eq, toNat_unpackMantissa_eq, hpattern]
  change UnpackedFloat.unpack Format.binary64 y.toBits.toBitVec =
    (UnpackedFloat.unpack Format.binary64 x.toBits.toBitVec).neg
  rw [UnpackedFloat.unpack, UnpackedFloat.unpack]
  simp only [ofBitVec_unpackSign, hsign, signOf_not, hexponent, hmantissa]
  split
  · split <;> rfl
  · split
    · split <;> rfl
    · rfl

/-- The double of the other sign is the negated one. -/
theorem neg_ofPattern (negative : Bool) (h : pattern ≤ infinitePattern) :
    -ofPattern negative pattern = ofPattern (!negative) pattern := by
  have hopposite : (ofPattern (!negative) pattern).toModel.unpack =
      (ofPattern negative pattern).toModel.unpack.neg := by
    apply unpack_of_opposite
    · rw [isNegative_ofPattern _ h, isNegative_ofPattern _ h]
    · rw [patternOf_ofPattern _ h, patternOf_ofPattern _ h]
  have hpack : Float.ofModel (.pack (ofPattern (!negative) pattern).toModel.unpack) =
      ofPattern (!negative) pattern := Float.ofBits_toBits _
  change Float.ofModel (.pack (ofPattern negative pattern).toModel.unpack.neg) = _
  rw [← hopposite, hpack]

end Criterion.Binary64
