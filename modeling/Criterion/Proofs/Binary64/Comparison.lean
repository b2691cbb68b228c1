import Criterion.Proofs.Binary64.View

/-!
# When doubles compare equal

Comparison takes a double for the number that it stands for. Every number compares equal to itself,
what is no number compares equal to nothing, and only the two zeros are different doubles that
compare equal.
-/

namespace Criterion.Binary64

open Float.Model

variable {x y : Float}

/-- A double that is a number compares equal to itself. -/
theorem beq_self (h : isNan x = false) : (x == x) = true := by
  change x.toModel.unpack.beq x.toModel.unpack = true
  have hunpacked := unpacked_view x
  have hne := isNan_eq_false_iff.1 h
  generalize view x = v at hunpacked hne
  generalize x.toModel.unpack = u at hunpacked
  cases hunpacked with
  | nan => exact absurd rfl hne
  | infinite negative => cases negative <;> rfl
  | zero negative => rfl
  | finite negative hunits mantissa exponent hmantissa =>
    cases negative <;> simp [UnpackedFloat.beq, UnpackedFloat.compare, signOf]

/-- A zero is a number. -/
theorem isNan_of_beq_zero (h : (x == zero false) = true) : isNan x = false := by
  obtain ⟨negative, hview⟩ := beq_zero_iff.1 h
  rw [isNan_eq_false_iff, hview]
  intro hnan
  cases hnan

/-- Zeros compare equal, whatever their signs. -/
theorem beq_of_zeros (hx : (x == zero false) = true) (hy : (y == zero false) = true) :
    (x == y) = true := by
  obtain ⟨negative, hviewx⟩ := beq_zero_iff.1 hx
  obtain ⟨negative', hviewy⟩ := beq_zero_iff.1 hy
  rw [eq_zero hviewx, eq_zero hviewy]
  cases negative <;> cases negative' <;> rfl

/-- Finite doubles compare equal if they have the same units. -/
theorem beq_iff_signedUnits_eq (hx : IsFinite x) (hy : IsFinite y) :
    (x == y) = true ↔ signedUnits x = signedUnits y := by
  have hcompare := (hasUnits_signedUnits hx).compare_eq (hasUnits_signedUnits hy)
  have hbeq : (x == y) = x.toModel.unpack.beq y.toModel.unpack := rfl
  rw [hbeq, UnpackedFloat.beq, hcompare, beq_iff_eq, Option.some.injEq, Int.compare_eq_eq]

/-- What compares equal is infinite with one sign, or finite. -/
theorem View.Unpacked.class_of_beq {a b : View} {u v : UnpackedFloat} (ha : a.Unpacked u)
    (hb : b.Unpacked v) (h : u.beq v = true) :
    (∃ negative, a = .infinite negative ∧ b = .infinite negative) ∨
      (∃ negative units, a = .finite negative units) ∧
        ∃ negative units, b = .finite negative units := by
  -- Doubles of different classes are ordered by their classes and signs alone.
  cases ha with
  | nan => contradiction
  | infinite negative =>
    cases hb with
    | infinite negative' =>
      have hsign : negative = negative' := by
        revert h
        cases negative <;> cases negative' <;> decide
      exact .inl ⟨negative', by rw [hsign], rfl⟩
    | _ => cases negative <;> contradiction
  | zero negative =>
    cases hb with
    | zero | finite => exact .inr ⟨⟨_, _, rfl⟩, _, _, rfl⟩
    | nan => contradiction
    | infinite negative' => cases negative' <;> contradiction
  | finite negative =>
    cases hb with
    | zero | finite => exact .inr ⟨⟨_, _, rfl⟩, _, _, rfl⟩
    | nan => cases negative <;> contradiction
    | infinite negative' => cases negative <;> cases negative' <;> contradiction

private theorem eq_or_zeros {negative negative' : Bool} {units units' : Nat}
    (hx : view x = .finite negative units) (hy : view y = .finite negative' units')
    (h : signedUnits x = signedUnits y) :
    x = y ∨ (x == zero false) = true ∧ (y == zero false) = true := by
  rw [signedUnits_of_view hx, signedUnits_of_view hy] at h
  obtain rfl : units = units' := by
    split at h <;> split at h <;> omega
  by_cases hsign : negative = negative'
  · rw [← hsign, ← hx] at hy
    exact .inl (view_injective hy.symm)
  · obtain rfl : units = 0 := by
      cases negative <;> cases negative' <;> simp_all
    exact .inr ⟨beq_zero_iff.2 ⟨_, hx⟩, beq_zero_iff.2 ⟨_, hy⟩⟩

/-- Doubles compare equal if they are one number, or if both are zeros. -/
theorem beq_iff : (x == y) = true ↔
    isNan x = false ∧ (x = y ∨ (x == zero false) = true ∧ (y == zero false) = true) := by
  constructor
  · intro h
    rcases (unpacked_view x).class_of_beq (unpacked_view y) h with
      ⟨negative, hx, hy⟩ | ⟨⟨_, _, hx⟩, _, _, hy⟩
    · refine ⟨isNan_eq_false_iff.2 ?_, .inl (view_injective (hx.trans hy.symm))⟩
      rw [hx]
      exact nofun
    · have hunits := (beq_iff_signedUnits_eq (isFinite_of_view hx) (isFinite_of_view hy)).1 h
      refine ⟨isNan_eq_false_iff.2 ?_, eq_or_zeros hx hy hunits⟩
      rw [hx]
      exact nofun
  · rintro ⟨hnumber, rfl | ⟨hx, hy⟩⟩
    · exact beq_self hnumber
    · exact beq_of_zeros hx hy

end Criterion.Binary64
