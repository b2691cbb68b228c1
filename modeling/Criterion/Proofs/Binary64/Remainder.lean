import Criterion.Proofs.Binary64.Guard
import Criterion.Proofs.Binary64.View
import Mathlib.Data.Rat.Floor
import Mathlib.Tactic.Linarith
import Mathlib.Tactic.Positivity

/-!
# The remainder is exact

The remainder of the units of two doubles is again the units of a double: it is below the divisor
and not above the dividend, so that the digits which its significand cannot hold are zero in both of
them. Nothing is rounded away, and in rational numbers the remainder is what the division truncated
toward zero leaves.
-/

namespace Criterion.Binary64

variable {a b r : Float} {negative : Bool} {s t : Nat}

/-- The remainder of what is viewed. -/
def View.remainder : View → View → View
  | .finite negative units, .finite _ divisor =>
    if divisor = 0 then .nan else .finite negative (units % divisor)
  | .finite negative units, .infinite _ => .finite negative units
  | _, _ => .nan

/-- The number that a finite double stands for. -/
def rational (x : Float) : ℚ := signedUnits x / unitsPerOne

/-- The integer part of a number, truncated toward zero. -/
def truncate (q : ℚ) : ℤ := if 0 ≤ q then ⌊q⌋ else ⌈q⌉

/-- A double is what is left of a dividend when it is divided and the quotient is truncated toward
zero, in exact arithmetic. It has the sign of the dividend, also where it is zero. -/
structure IsTruncatedRemainder (a b r : Float) : Prop where
  dividend : IsFinite a
  divisor : IsFinite b
  finite : IsFinite r
  division : rational a = truncate (rational a / rational b) * rational b + rational r
  smaller : |rational r| < |rational b|
  sign : isNegative r = isNegative a

/-! ## Remainders of units -/

/-- The pattern nearest to a remainder is finite. -/
theorem nearestPattern_mod_lt (hs : s < infinitePattern) :
    nearestPattern (unitsOfPattern s % unitsOfPattern t) 1 < infinitePattern :=
  calc nearestPattern (unitsOfPattern s % unitsOfPattern t) 1
      ≤ nearestPattern (unitsOfPattern s) 1 :=
        nearestPattern_mono Nat.one_pos Nat.one_pos
          (Nat.mul_le_mul_right 1 (Nat.mod_le _ _))
    _ = s := nearestPattern_unitsOfPattern hs
    _ < infinitePattern := hs

/-- The remainder of the units of two doubles is the units of a double. -/
theorem unitsOfPattern_mod (hs : s < infinitePattern) (ht : unitsOfPattern t ≠ 0) :
    unitsOfPattern (nearestPattern (unitsOfPattern s % unitsOfPattern t) 1) =
      unitsOfPattern s % unitsOfPattern t := by
  apply unitsOfPattern_nearestPattern _ (nearestPattern_mod_lt hs)
  have hle : unitsOfPattern s % unitsOfPattern t ≤ unitsOfPattern s := Nat.mod_le _ _
  have hlt : unitsOfPattern s % unitsOfPattern t < unitsOfPattern t :=
    Nat.mod_lt _ (Nat.pos_of_ne_zero ht)
  by_cases hdropped : droppedDigits (unitsOfPattern s % unitsOfPattern t) = 0
  · rw [hdropped, Nat.pow_zero]
    exact Nat.one_dvd _
  · -- Neither operand is so small that its significand would hold one of these digits.
    have hleading := two_pow_droppedDigits_le hdropped
    rw [← binade_eq] at hleading
    have hdividend := (dvd_or_unitsOfPattern_lt s
      (droppedDigits (unitsOfPattern s % unitsOfPattern t))).resolve_right (by omega)
    have hdivisor := (dvd_or_unitsOfPattern_lt t
      (droppedDigits (unitsOfPattern s % unitsOfPattern t))).resolve_right (by omega)
    exact (Nat.dvd_mod_iff hdivisor).2 hdividend

/-- The remainder of doubles is viewed as the remainder of their views. -/
theorem view_remainder (a b : Float) :
    view (remainder a b) = (view a).remainder (view b) := by
  have hnan : view nan = .nan := by decide
  rw [remainder]
  cases ha : view a with
  | nan => cases view b <;> exact hnan
  | infinite _ => cases view b <;> exact hnan
  | finite negative units =>
    cases hb : view b with
    | nan => exact hnan
    | infinite _ => exact ha
    | finite _ divisor =>
      obtain ⟨hfinite, _, rfl⟩ := view_eq_finite ha
      obtain ⟨_, _, rfl⟩ := view_eq_finite hb
      simp only [View.remainder]
      split
      · exact hnan
      · rename_i hdivisor
        rw [ofUnits, view_ofPattern negative (nearestPattern_mod_lt hfinite),
          unitsOfPattern_mod hfinite hdivisor]

theorem isInfinite_iff {x : Float} :
    isInfinite x = true ↔ ∃ negative, view x = .infinite negative := by
  rw [isInfinite]
  cases view x <;> simp

/-- A remainder is viewed as no number if an operand is none, or the dividend is infinite, or the
divisor is a zero. -/
theorem View.remainder_eq_nan_iff (v w : View) :
    v.remainder w = .nan ↔ v = .nan ∨ (∃ negative, v = .infinite negative) ∨ w = .nan ∨
      ∃ negative, w = .finite negative 0 := by
  cases v <;> cases w <;> simp [View.remainder]

private theorem exists_eq_zero_iff {x : Float} :
    (∃ negative, x = zero negative) ↔ ∃ negative, view x = .finite negative 0 := by
  constructor
  · rintro ⟨negative, rfl⟩
    exact ⟨negative, view_zero negative⟩
  · rintro ⟨negative, hview⟩
    exact ⟨negative, eq_zero hview⟩

/-! ## Laws -/

/-- A negated dividend has the negated remainder. -/
theorem remainder_neg_left (a b : Float) :
    remainder (-a) b = -remainder a b := by
  apply view_injective
  rw [view_remainder, view_neg, view_neg, view_remainder]
  cases view a with
  | nan => cases view b <;> rfl
  | infinite negative => cases view b <;> rfl
  | finite negative units =>
    cases view b with
    | nan => rfl
    | infinite _ => rfl
    | finite _ divisor =>
      simp only [View.negated, View.remainder]
      split <;> rfl

/-- The sign of a divisor does not matter. -/
theorem remainder_neg_right (a b : Float) :
    remainder a (-b) = remainder a b := by
  apply view_injective
  rw [view_remainder, view_remainder, view_neg]
  cases view a <;> cases view b <;> rfl

/-- A remainder is its own remainder. -/
theorem remainder_remainder (a b : Float) :
    remainder (remainder a b) b = remainder a b := by
  apply view_injective
  rw [view_remainder, view_remainder]
  cases view a with
  | nan => cases view b <;> rfl
  | infinite negative => cases view b <;> rfl
  | finite negative units =>
    cases view b with
    | nan => rfl
    | infinite _ => rfl
    | finite _ divisor =>
      by_cases hdivisor : divisor = 0
      · simp only [View.remainder, if_pos hdivisor]
      · simp only [View.remainder, if_neg hdivisor, Nat.mod_mod]

/-! ## Rational arithmetic -/

/-- Truncation does not look at the sign. -/
theorem truncate_neg (q : ℚ) : truncate (-q) = -truncate q := by
  rcases lt_trichotomy q 0 with hneg | rfl | hpos
  · rw [truncate, truncate, if_pos (by linarith), if_neg (not_le.2 hneg), Int.floor_neg]
  · rw [neg_zero, truncate, if_pos le_rfl, Int.floor_zero, neg_zero]
  · rw [truncate, truncate, if_neg (by linarith), if_pos hpos.le, Int.ceil_neg]

theorem truncate_natCast_div (m n : ℕ) : truncate (m / n) = (m / n : ℕ) := by
  rw [truncate, if_pos (by positivity), Rat.floor_natCast_div_natCast]
  rfl

private theorem truncate_intCast_div (m n : ℤ) : truncate (m / n) = m.tdiv n := by
  obtain ⟨m, rfl | rfl⟩ := m.eq_nat_or_neg <;> obtain ⟨n, rfl | rfl⟩ := n.eq_nat_or_neg
  · rw [Int.cast_natCast, Int.cast_natCast, truncate_natCast_div]
    rfl
  · rw [Int.cast_neg, Int.cast_natCast, Int.cast_natCast, div_neg, truncate_neg,
      truncate_natCast_div, Int.tdiv_neg]
    rfl
  · rw [Int.cast_neg, Int.cast_natCast, Int.cast_natCast, neg_div, truncate_neg,
      truncate_natCast_div, Int.neg_tdiv]
    rfl
  · rw [Int.cast_neg, Int.cast_neg, Int.cast_natCast, Int.cast_natCast, neg_div_neg_eq,
      truncate_natCast_div, Int.neg_tdiv, Int.tdiv_neg, neg_neg]
    rfl

private theorem eq_of_signedUnits {x y : Float} (hx : IsFinite x) (hy : IsFinite y)
    (hsign : isNegative x = isNegative y) (hunits : signedUnits x = signedUnits y) : x = y := by
  rw [signedUnits, signedUnits, hsign] at hunits
  have hsame : unitsOfPattern (patternOf x) = unitsOfPattern (patternOf y) := by
    split at hunits <;> omega
  have hpattern := unitsOfPattern_inj hx hy hsame
  rw [← ofPattern_patternOf x, ← ofPattern_patternOf y, hsign, hpattern]

/-- There are units in one. -/
theorem unitsPerOne_ne_zero : (unitsPerOne : ℚ) ≠ 0 := by
  rw [Nat.cast_ne_zero]
  unfold unitsPerOne
  generalize 1074 = k
  exact Nat.ne_of_gt (Nat.two_pow_pos k)

theorem rational_inj {x y : Float} : rational x = rational y ↔ signedUnits x = signedUnits y := by
  rw [rational, rational, div_left_inj' unitsPerOne_ne_zero, Int.cast_inj]

private theorem rational_div (x y : Float) :
    rational x / rational y = signedUnits x / signedUnits y :=
  div_div_div_cancel_right₀ unitsPerOne_ne_zero _ _

/-- There is no more than one remainder. -/
theorem IsTruncatedRemainder.unique {r' : Float} (h : IsTruncatedRemainder a b r)
    (h' : IsTruncatedRemainder a b r') : r = r' := by
  have hrational : rational r = rational r' := add_left_cancel (h.division.symm.trans h'.division)
  exact eq_of_signedUnits h.finite h'.finite (h.sign.trans h'.sign.symm)
    (rational_inj.1 hrational)

/-- The remainder of finite doubles has the truncated remainder of their signed units. -/
theorem signedUnits_remainder {negative' : Bool} {units divisor : Nat}
    (ha : view a = .finite negative units) (hb : view b = .finite negative' divisor)
    (hdivisor : divisor ≠ 0) :
    signedUnits (remainder a b) = (signedUnits a).tmod (signedUnits b) := by
  have hview : view (remainder a b) = .finite negative (units % divisor) := by
    rw [view_remainder, ha, hb, View.remainder, if_neg hdivisor]
  rw [signedUnits_of_view hview, signedUnits_of_view ha, signedUnits_of_view hb]
  cases negative <;> cases negative' <;>
    simp only [Bool.false_eq_true, if_false, if_true, Int.neg_tmod, Int.tmod_neg, Int.ofNat_tmod]

/-- The remainder of finite doubles is the exact one. -/
theorem isTruncatedRemainder_remainder {negative' : Bool} {units divisor : Nat}
    (ha : view a = .finite negative units) (hb : view b = .finite negative' divisor)
    (hdivisor : divisor ≠ 0) : IsTruncatedRemainder a b (remainder a b) := by
  have hview : view (remainder a b) = .finite negative (units % divisor) := by
    rw [view_remainder, ha, hb, View.remainder, if_neg hdivisor]
  have hunits := signedUnits_remainder ha hb hdivisor
  have hdivisor' : (signedUnits b).natAbs = divisor := by
    rw [signedUnits_of_view hb]
    split <;> omega
  refine ⟨isFinite_of_view ha, isFinite_of_view hb, isFinite_of_view hview, ?_, ?_, ?_⟩
  · have hsplit := Int.tdiv_mul_add_tmod (signedUnits a) (signedUnits b)
    rw [rational_div, truncate_intCast_div, rational, rational, rational, hunits, mul_div_assoc',
      ← add_div, ← Int.cast_mul, ← Int.cast_add, hsplit]
  · have hlt : |(signedUnits a).tmod (signedUnits b)| < |signedUnits b| := by
      rw [Int.abs_eq_natAbs, Int.abs_eq_natAbs, Int.natAbs_tmod]
      exact Int.ofNat_lt.2 (Nat.mod_lt _ (by omega))
    have hpos : (0 : ℚ) < |(unitsPerOne : ℚ)| := abs_pos.2 unitsPerOne_ne_zero
    rw [rational, rational, hunits, abs_div, abs_div, ← Int.cast_abs, ← Int.cast_abs]
    exact div_lt_div_of_pos_right (Int.cast_lt.2 hlt) hpos
  · rw [(view_eq_finite hview).2.1, (view_eq_finite ha).2.1]

/-- The remainder of doubles. It is no number exactly if the dividend is none or infinite, or if
the divisor is none or a zero of either sign. Otherwise an infinite divisor leaves the dividend as
it is, and by a finite one the remainder is the one double that a division truncated toward zero
leaves in rational arithmetic, with the sign of the dividend. Hence the sign of a dividend goes over
to its remainder, that of a divisor does not matter, and a remainder is its own remainder; such
equations are between doubles with all their bits. A host that refuses to divide is never asked for
what it refuses. -/
theorem remainder_truncates (a b : Float) :
    (isNan (remainder a b) ↔
      isNan a ∨ isInfinite a ∨ isNan b ∨ ∃ negative, b = zero negative) ∧
    (isNan (remainder a b) = false →
      (isInfinite b → remainder a b = a) ∧
      (isInfinite b = false → ∀ r, r = remainder a b ↔ IsTruncatedRemainder a b r)) ∧
    remainder (-a) b = -remainder a b ∧
    remainder a (-b) = remainder a b ∧
    remainder (remainder a b) b = remainder a b ∧
    guardedRemainder? a b = some (remainder a b) := by
  refine ⟨?_, ?_, remainder_neg_left a b, remainder_neg_right a b, remainder_remainder a b,
    guardedRemainder?_eq a b⟩
  · rw [isNan_iff, isNan_iff, isNan_iff, isInfinite_iff, exists_eq_zero_iff, view_remainder]
    exact View.remainder_eq_nan_iff _ _
  · rw [isNan_eq_false_iff, view_remainder, Ne, View.remainder_eq_nan_iff]
    intro hnumber
    cases ha : view a with
    | nan => exact absurd (.inl ha) hnumber
    | infinite negative => exact absurd (.inr (.inl ⟨negative, ha⟩)) hnumber
    | finite negative units =>
      cases hb : view b with
      | nan => exact absurd (.inr (.inr (.inl hb))) hnumber
      | infinite negative' =>
        refine ⟨fun _ => ?_, fun hfinite => ?_⟩
        · apply view_injective
          rw [view_remainder, ha, hb, View.remainder]
        · rw [isInfinite, hb] at hfinite
          contradiction
      | finite negative' divisor =>
        have hdivisor : divisor ≠ 0 := by
          rintro rfl
          exact hnumber (.inr (.inr (.inr ⟨negative', hb⟩)))
        have hexact := isTruncatedRemainder_remainder ha hb hdivisor
        refine ⟨fun hinfinite => ?_, fun _ r => ⟨?_, fun hr => hr.unique hexact⟩⟩
        · rw [isInfinite, hb] at hinfinite
          contradiction
        · rintro rfl
          exact hexact

/-- The negative of the greatest double leaves two units when it is divided by three, although there
are two thousand binary digits between them. -/
theorem greatest_remainder :
    isNan (remainder (ofPattern true (infinitePattern - 1)) (ofPattern false 3)) = false ∧
      isInfinite (ofPattern false 3) = false ∧
      IsTruncatedRemainder (ofPattern true (infinitePattern - 1)) (ofPattern false 3)
        (ofPattern true 2) := by
  have hnumber :
      isNan (remainder (ofPattern true (infinitePattern - 1)) (ofPattern false 3)) = false := by
    decide +kernel
  have hfinite : isInfinite (ofPattern false 3) = false := by decide +kernel
  have hremainder : ofPattern true 2 =
      remainder (ofPattern true (infinitePattern - 1)) (ofPattern false 3) := by
    decide +kernel
  obtain ⟨_, hexact, _⟩ :=
    remainder_truncates (ofPattern true (infinitePattern - 1)) (ofPattern false 3)
  exact ⟨hnumber, hfinite, ((hexact hnumber).2 hfinite _).1 hremainder⟩

end Criterion.Binary64
