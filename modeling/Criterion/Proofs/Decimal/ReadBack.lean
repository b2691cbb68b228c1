import Criterion.Binary64.Text
import Criterion.Proofs.Binary64.Nearest

/-!
# Decimals that read back

The exponents that decide the pattern of a decimal alone decide it as its exact quotient would.
Hence the pattern of every decimal is the one nearest to its quotient, and decimals that are equal
as numbers have one pattern.

Whatever decimal is taken for a finite pattern rounds to that pattern: those with few digits are
tried before they are taken, and all digits of a double read back because a double is nearest to
itself.
-/

namespace Criterion.Decimal

open Binary64

variable {d : Decimal} {digits e places target more : Nat}

/-! ## The quotient of a decimal -/

/-- The numerator of a decimal as a quotient of natural numbers. -/
def numerator (d : Decimal) : Nat :=
  match d.exponent with
  | .ofNat e => d.digits * Nat.pow 10 e
  | .negSucc _ => d.digits

/-- The denominator of a decimal as a quotient of natural numbers. -/
def denominator (d : Decimal) : Nat :=
  match d.exponent with
  | .ofNat _ => 1
  | .negSucc e => Nat.pow 10 (e + 1)

theorem pow_ten_pos (k : Nat) : 0 < Nat.pow 10 k := Nat.pow_pos (by decide)

private theorem pow_ten_le {k m : Nat} (h : k ≤ m) : Nat.pow 10 k ≤ Nat.pow 10 m :=
  Nat.pow_le_pow_right (by decide) h

/-- A denominator is not zero. -/
theorem denominator_pos (d : Decimal) : 0 < d.denominator := by
  unfold denominator
  split
  · exact Nat.one_pos
  · exact pow_ten_pos _

private theorem patternOfRatio_zero (q : Nat) (hq : 0 < q) : patternOfRatio 0 q = 0 := by
  rw [patternOfRatio, Nat.zero_mul]
  exact nearestPattern_eq_zero hq

/-- Where the exponent is so small that it decides alone, the quotient is less than half a unit. -/
theorem patternOfRatio_eq_zero (h : digits.log2 + 1076 ≤ 3 * places) :
    patternOfRatio digits (Nat.pow 10 places) = 0 := by
  obtain ⟨k, hk, hone⟩ : ∃ k, 1076 = k + 2 ∧ unitsPerOne = 2 ^ k := ⟨1074, rfl, unitsPerOne_eq⟩
  rw [hk] at h
  refine nearestPattern_eq_zero ?_
  rw [hone]
  calc 2 * (digits * 2 ^ k) = digits * 2 ^ (k + 1) := by ring
    _ < 2 ^ (digits.log2 + 1) * 2 ^ (k + 1) :=
      Nat.mul_lt_mul_of_pos_right Nat.lt_log2_self (Nat.two_pow_pos _)
    _ = 2 ^ (digits.log2 + (k + 2)) := by ring
    _ ≤ 2 ^ (3 * places) := Nat.pow_le_pow_right (by decide) h
    _ = 8 ^ places := Nat.pow_mul ..
    _ ≤ 10 ^ places := Nat.pow_le_pow_left (by decide) places

/-- Where the exponent is so large that it decides alone, the number is beyond all doubles. -/
theorem patternOfRatio_eq_infinitePattern (hdigits : digits ≠ 0) (he : 310 ≤ e) :
    patternOfRatio (digits * Nat.pow 10 e) 1 = infinitePattern := by
  obtain ⟨m, hm, hinfinite⟩ : ∃ m, 310 = m ∧
      patternOfRatio (Nat.pow 10 m) 1 = infinitePattern := ⟨310, rfl, by decide +kernel⟩
  rw [hm] at he
  have hle : Nat.pow 10 m ≤ digits * Nat.pow 10 e :=
    calc Nat.pow 10 m ≤ Nat.pow 10 e := pow_ten_le he
      _ ≤ digits * Nat.pow 10 e := Nat.le_mul_of_pos_left _ (Nat.pos_of_ne_zero hdigits)
  refine Nat.le_antisymm (nearestPattern_le _ _) ?_
  rw [← hinfinite]
  exact nearestPattern_mono Nat.one_pos Nat.one_pos
    (Nat.mul_le_mul_right 1 (Nat.mul_le_mul_right unitsPerOne hle))

/-- The pattern of a decimal is the one nearest to its quotient. -/
theorem pattern_eq (d : Decimal) : d.pattern = patternOfRatio d.numerator d.denominator := by
  obtain ⟨digits, exponent⟩ := d
  cases exponent with
  | ofNat e =>
      simp only [pattern, numerator, denominator]
      by_cases hdigits : digits = 0
      · rw [if_pos hdigits, hdigits, Nat.zero_mul, patternOfRatio_zero 1 Nat.one_pos]
      · rw [if_neg hdigits]
        by_cases he : 310 ≤ e
        · rw [if_pos he, patternOfRatio_eq_infinitePattern hdigits he]
        · rw [if_neg he]
  | negSucc e =>
      simp only [pattern, numerator, denominator]
      by_cases he : digits.log2 + 1076 ≤ 3 * (e + 1)
      · rw [if_pos he, patternOfRatio_eq_zero he]
      · rw [if_neg he]

theorem pattern_le (d : Decimal) : d.pattern ≤ infinitePattern := by
  rw [pattern_eq]
  exact nearestPattern_le _ _

theorem pattern_natural (n : Nat) : pattern ⟨n, 0⟩ = patternOfRatio n 1 := by
  rw [pattern_eq]
  exact congrArg (patternOfRatio · 1) (Nat.mul_one n)

/-- The pattern of a decimal with a fraction is the one nearest to its quotient. -/
theorem pattern_fraction (digits : Nat) (h : 0 < places) :
    pattern ⟨digits, -(places : Int)⟩ = patternOfRatio digits (Nat.pow 10 places) := by
  obtain ⟨e, rfl⟩ := Nat.exists_eq_add_one_of_ne_zero (Nat.ne_of_gt h)
  exact pattern_eq ⟨digits, .negSucc e⟩

/-! ## What is tried before it is taken -/

private theorem pattern_of_neighbour? {exponent : Int} {p q : Nat}
    (h : neighbour? target more exponent p q = some d) : d.pattern = target := by
  simp only [neighbour?] at h
  split at h
  · rename_i hlower
    split at h
    · rename_i hupper
      cases h
      rw [Bool.and_eq_true, decide_eq_true_eq] at hupper
      exact hupper.1
    · cases h
      exact hlower
  · split at h
    · rename_i hupper
      cases h
      exact hupper
    · contradiction

/-- A decimal with few digits is taken only if it reads back. -/
theorem pattern_of_ofLength? (h : ofLength? target more = some d) : d.pattern = target := by
  rw [ofLength?] at h
  exact pattern_of_neighbour? h

/-! ## What is taken without a trial -/

private theorem mul_pow_five_mul_pow_two (units k : Nat) :
    units * Nat.pow 5 k * 2 ^ k = units * Nat.pow 10 k := by
  rw [Nat.pow_eq, Nat.pow_eq, Nat.mul_assoc, ← Nat.mul_pow]

/-- Units are halved as often as the decimal has places, so that nothing is rounded. -/
theorem pattern_all_places (units : Nat) {places : Nat} (hplaces : 0 < places)
    (hone : unitsPerOne = 2 ^ places) :
    pattern ⟨units * Nat.pow 5 places, -(places : Int)⟩ = nearestPattern units 1 := by
  rw [pattern_fraction _ hplaces, patternOfRatio, hone, mul_pow_five_mul_pow_two,
    nearestPattern_mul units (pow_ten_pos places)]

/-- All digits of a double read back. -/
theorem pattern_exact (h : target < infinitePattern) :
    (exact (unitsOfPattern target)).pattern = target := by
  have hplaces : 0 < 1074 := by decide
  have hone := unitsPerOne_eq
  have hexponent : (-1074 : Int) = -((1074 : Nat) : Int) := rfl
  rw [exact, hexponent]
  -- The number of places must not be seen, or the powers would be computed.
  generalize 1074 = places at hplaces hone ⊢
  rw [pattern_all_places _ hplaces hone]
  exact nearestPattern_unitsOfPattern h

/-- The shortest decimal of a finite pattern reads back as that pattern. -/
theorem pattern_shortest (h : target < infinitePattern) : (shortest target).pattern = target := by
  by_cases hzero : target = 0
  · rw [hzero]
    rfl
  · rw [shortest, if_neg hzero]
    cases hfind : (List.range 17).findSome? (ofLength? target) with
    | none => exact pattern_exact h
    | some d =>
      obtain ⟨more, _, hd⟩ := List.exists_of_findSome?_eq_some hfind
      exact pattern_of_ofLength? hd

end Criterion.Decimal
