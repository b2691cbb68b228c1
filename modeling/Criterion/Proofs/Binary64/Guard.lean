import Criterion.Binary64.Basic
import Criterion.Proofs.Binary64.Unpack

/-!
# Division with exceptions

A host may refuse to divide: its quotient has no result for a zero divisor, and its remainder has
none for an infinite dividend or a zero divisor. Guarded by a look at the operands neither is ever
asked for what it refuses, and what they give are the quotient and the remainder of doubles.
-/

namespace Criterion.Binary64

open Float.Model Float.Model.UnpackedFloat

variable {x a b : Float} {negative : Bool}

/-- The double with the magnitude of one double and the sign of another. -/
def copySign (magnitude sign : Float) : Float := ofPattern (isNegative sign) (patternOf magnitude)

/-- Whether a double is one of the two infinities. -/
def isInfinite (x : Float) : Bool :=
  match view x with
  | .infinite _ => true
  | _ => false

/-- A host's quotient. There is none for a zero divisor. -/
def hostQuotient? (a b : Float) : Option Float :=
  if b == zero false then none else some (a / b)

/-- A host's truncated remainder. There is none for an infinite dividend or a zero divisor, unless
the other operand is no number. -/
def hostRemainder? (a b : Float) : Option Float :=
  match view a, view b with
  | .nan, _ => some nan
  | _, .nan => some nan
  | .infinite _, _ => none
  | _, .finite _ 0 => none
  | _, _ => some (remainder a b)

/-- The quotient with zero divisors set apart: only what remains is left to the host. -/
def guardedQuotient? (a b : Float) : Option Float :=
  if b == zero false then
    if a == zero false || isNan a then some nan
    else some (copySign (infinite false) a * copySign one b)
  else hostQuotient? a b

/-- The remainder with its exceptions set apart: only what remains is left to the host. -/
def guardedRemainder? (a b : Float) : Option Float :=
  if b == zero false || isInfinite a || isNan a || isNan b then some nan
  else if isInfinite b then some a
  else hostRemainder? a b

private theorem infinite_mul_one (s t : Bool) :
    infinite s * ofPattern t (patternOf one) = infinite (s != t) := by
  cases s <;> cases t <;> rfl

private theorem div_zero (a : Float) (hb : view b = .finite negative 0) :
    a / b = match view a with
      | .nan => nan
      | .finite _ 0 => nan
      | .finite sign (_ + 1) => infinite (sign != negative)
      | .infinite sign => infinite (sign != negative) := by
  have hdivisor := unpacked_view b
  rw [hb] at hdivisor
  have hdividend := unpacked_view a
  change Float.ofModel (pack (UnpackedFloat.div Format.binary64 a.toModel.unpack
    b.toModel.unpack)) = _
  generalize b.toModel.unpack = d at hdivisor
  generalize a.toModel.unpack = u at hdividend
  generalize view a = v at hdividend
  cases hdivisor with
  | finite _ hunits _ _ _ => contradiction
  | zero =>
    cases hdividend with
    | nan => rfl
    | infinite sign => cases sign <;> cases negative <;> rfl
    | zero sign => cases sign <;> cases negative <;> rfl
    | @finite sign units hunits mantissa exponent hmantissa =>
      obtain ⟨units, rfl⟩ := Nat.exists_eq_succ_of_ne_zero hunits
      cases sign <;> cases negative <;> rfl

private theorem copySign_mul_copySign (a : Float) (hb : view b = .finite negative 0) :
    copySign (infinite false) a * copySign one b = infinite (isNegative a != negative) := by
  have hpattern : patternOf (infinite false) = infinitePattern := rfl
  rw [copySign, copySign, hpattern, (view_eq_finite hb).2.1]
  exact infinite_mul_one (isNegative a) negative

/-- The guarded quotient is never refused, and it is the quotient of doubles. -/
theorem guardedQuotient?_eq (a b : Float) : guardedQuotient? a b = some (a / b) := by
  rw [guardedQuotient?, hostQuotient?]
  by_cases hb : b == zero false
  · obtain ⟨negative, hzero⟩ := beq_zero_iff.1 hb
    rw [if_pos hb, div_zero a hzero, copySign_mul_copySign a hzero, isNan]
    cases ha : view a with
    | nan => rw [if_pos (by simp)]
    | infinite sign =>
      have hne : ¬ (a == zero false) = true := by simp [beq_zero_iff, ha]
      rw [if_neg (by simp [hne]), (view_eq_infinite ha).2]
    | finite sign units =>
      cases units with
      | zero => rw [if_pos (by simp [beq_zero_iff, ha])]
      | succ units =>
        have hne : ¬ (a == zero false) = true := by simp [beq_zero_iff, ha]
        rw [if_neg (by simp [hne]), (view_eq_finite ha).2.1]
  · rw [if_neg hb, if_neg hb]

/-- The guarded remainder is never refused, and it is the remainder of doubles. -/
theorem guardedRemainder?_eq (a b : Float) : guardedRemainder? a b = some (remainder a b) := by
  rw [guardedRemainder?, hostRemainder?, remainder, isNan, isNan, isInfinite, isInfinite]
  by_cases hb : b == zero false
  · obtain ⟨negative, hzero⟩ := beq_zero_iff.1 hb
    rw [if_pos (by simp [hb]), hzero]
    cases view a <;> rfl
  · have hunits : ∀ sign, view b ≠ .finite sign 0 := fun sign h => hb (beq_zero_iff.2 ⟨sign, h⟩)
    have hfalse : (b == zero false) = false := by simpa using hb
    rw [hfalse]
    cases ha : view a with
    | nan => cases view b <;> rfl
    | infinite sign => cases view b <;> rfl
    | finite sign units =>
      cases hv : view b with
      | nan => rfl
      | infinite _ => rfl
      | finite sign' divisor =>
        cases divisor with
        | zero => exact absurd hv (hunits sign')
        | succ divisor => rfl

end Criterion.Binary64
