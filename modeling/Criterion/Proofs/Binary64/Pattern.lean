import Criterion.Binary64.Basic
import Mathlib

/-!
# Patterns and doubles

A double is given by its sign and its pattern, and every pattern up to that of the infinities
belongs to a double of either sign. Only the patterns beyond them, which stand for no number, are
not kept apart.
-/

namespace Criterion.Binary64

open Float.Model

variable {x : Float} {negative : Bool} {pattern units : Nat}

/-! ## Bits -/

/-- The exponent of a double lies between its sign and its fraction. -/
theorem toNat_unpackExponent (b : BitVec 64) :
    (@UnpackedFloat.unpackExponent Format.binary64 b).toNat = b.toNat / 2 ^ 52 % 2 ^ 11 := by
  simp [UnpackedFloat.unpackExponent, BitVec.extractLsb, Nat.shiftRight_eq_div_pow]

/-- The fraction of a double is in its lowest bits. -/
theorem toNat_unpackMantissa (b : BitVec 64) :
    (@UnpackedFloat.unpackMantissa Format.binary64 b).toNat = b.toNat % 2 ^ 52 := by
  simp [UnpackedFloat.unpackMantissa, BitVec.extractLsb]

private theorem isNaNBits_eq_false {b : BitVec 64} (h : b.toNat % 2 ^ 63 ≤ 2047 * 2 ^ 52) :
    @UnpackedFloat.isNaNBits Format.binary64 b = false := by
  rw [UnpackedFloat.isNaNBits, decide_eq_false_iff_not]
  rintro ⟨hexponent, hmantissa⟩
  have hexponent : b.toNat / 2 ^ 52 % 2 ^ 11 = 2047 := by
    rw [← toNat_unpackExponent, hexponent]
    rfl
  have hmantissa : b.toNat % 2 ^ 52 ≠ 0 := by
    intro hzero
    apply hmantissa
    rw [← BitVec.toNat_inj, toNat_unpackMantissa, hzero]
    rfl
  omega

private theorem toBits_ofBits {b : UInt64} (h : b.toNat % 2 ^ 63 ≤ 2047 * 2 ^ 52) :
    (Float.ofBits b).toBits = b := by
  have hpack := @UnpackedFloat.pack_unpack Format.binary64 b.toBitVec (by decide)
  rw [isNaNBits_eq_false h] at hpack
  exact UInt64.toBitVec_inj.1 hpack

/-! ## Signs and patterns -/

theorem signBit_eq : signBit = 2 ^ 63 := rfl

theorem infinitePattern_eq : infinitePattern = 2047 * 2 ^ 52 := rfl

/-- The bits of a double with a given sign and pattern. -/
theorem toNat_toBits_ofPattern (negative : Bool) (h : pattern ≤ infinitePattern) :
    (ofPattern negative pattern).toBits.toNat =
      (if negative then signBit else 0) + pattern := by
  rw [infinitePattern_eq] at h
  rw [signBit_eq]
  have hbits (hlt : (if negative then 2 ^ 63 else 0) + pattern < 2 ^ 64)
      (hnumber : ((if negative then 2 ^ 63 else 0) + pattern) % 2 ^ 63 ≤ 2047 * 2 ^ 52) :
      (Float.ofBits (UInt64.ofNat ((if negative then 2 ^ 63 else 0) + pattern))).toBits.toNat =
        (if negative then 2 ^ 63 else 0) + pattern := by
    have hnat := UInt64.toNat_ofNat_of_lt' hlt
    rw [toBits_ofBits (by rwa [hnat]), hnat]
  rw [ofPattern, signBit_eq]
  cases negative with
  | false =>
      simp only [Bool.false_eq_true, if_false, Nat.zero_add] at hbits ⊢
      exact hbits (by omega) (by omega)
  | true =>
      simp only [if_true] at hbits ⊢
      exact hbits (by omega) (by omega)

/-- A pattern is read back from its double. -/
theorem patternOf_ofPattern (negative : Bool) (h : pattern ≤ infinitePattern) :
    patternOf (ofPattern negative pattern) = pattern := by
  rw [patternOf, toNat_toBits_ofPattern negative h, signBit_eq]
  rw [infinitePattern_eq] at h
  cases negative with
  | false =>
      simp only [Bool.false_eq_true, if_false, Nat.zero_add]
      omega
  | true =>
      simp only [if_true]
      omega

/-- A sign is read back from its double. -/
theorem isNegative_ofPattern (negative : Bool) (h : pattern ≤ infinitePattern) :
    isNegative (ofPattern negative pattern) = negative := by
  rw [isNegative, toNat_toBits_ofPattern negative h, signBit_eq]
  rw [infinitePattern_eq] at h
  cases negative with
  | false =>
      simp only [Bool.false_eq_true, if_false, Nat.zero_add, decide_eq_false_iff_not]
      omega
  | true =>
      simp only [if_true, decide_eq_true_eq]
      omega

/-- A double is the one with its sign and its pattern. -/
theorem ofPattern_patternOf (x : Float) : ofPattern (isNegative x) (patternOf x) = x := by
  have hlt : x.toBits.toNat < 2 ^ 64 := x.toBits.toNat_lt
  have hbits : (if isNegative x then signBit + patternOf x else patternOf x) =
      x.toBits.toNat := by
    rw [isNegative, patternOf, signBit_eq]
    by_cases hsign : 2 ^ 63 ≤ x.toBits.toNat
    · rw [decide_eq_true hsign, if_pos rfl]
      omega
    · rw [decide_eq_false hsign, if_neg (by decide)]
      omega
  rw [ofPattern, hbits, UInt64.ofNat_toNat, Float.ofBits_toBits]

/-- A finite pattern is viewed as its sign and its units. -/
theorem view_ofPattern (negative : Bool) (h : pattern < infinitePattern) :
    view (ofPattern negative pattern) = .finite negative (unitsOfPattern pattern) := by
  rw [view, patternOf_ofPattern negative (Nat.le_of_lt h),
    isNegative_ofPattern negative (Nat.le_of_lt h), if_pos h]

/-- What is viewed as finite has a finite pattern with these units. -/
theorem view_eq_finite (h : view x = .finite negative units) :
    patternOf x < infinitePattern ∧ isNegative x = negative ∧
      unitsOfPattern (patternOf x) = units := by
  by_cases hfinite : patternOf x < infinitePattern
  · rw [view, if_pos hfinite] at h
    cases h
    exact ⟨hfinite, rfl, rfl⟩
  · rw [view, if_neg hfinite] at h
    split at h <;> contradiction

/-- What is viewed as infinite has the pattern of the infinities. -/
theorem view_eq_infinite (h : view x = .infinite negative) :
    patternOf x = infinitePattern ∧ isNegative x = negative := by
  rw [view] at h
  split at h
  · cases h
  · split at h
    · rename_i hpattern
      exact ⟨hpattern, View.infinite.inj h⟩
    · cases h

end Criterion.Binary64
