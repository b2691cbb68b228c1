import Criterion.Binary64.Basic
import Mathlib.Tactic.Ring

/-!
# Rounding keeps the order

The pattern nearest to a quotient grows with the quotient, and it depends on nothing else. A number
that is a double has its own pattern as the nearest one. Together the two say on which side of a
double the nearest pattern of any quotient lies, without looking at the rounding itself.
-/

namespace Criterion.Binary64

variable {p q p' q' n s t : Nat}

/-! ## Rounded quotients -/

private theorem div_le_roundDiv (p q : Nat) : p / q ≤ roundDiv p q := by
  unfold roundDiv
  split
  · exact Nat.le_refl _
  · split <;> omega

private theorem roundDiv_le_succ (p q : Nat) : roundDiv p q ≤ p / q + 1 := by
  unfold roundDiv
  split
  · exact Nat.le_succ _
  · split <;> omega

/-- Quotients in order have their whole parts in order. -/
theorem div_le_div_of_cross (hq : 0 < q) (hq' : 0 < q') (h : p * q' ≤ p' * q) :
    p / q ≤ p' / q' := by
  rw [Nat.le_div_iff_mul_le hq']
  refine Nat.le_of_mul_le_mul_right ?_ hq
  calc p / q * q' * q = p / q * q * q' := Nat.mul_right_comm ..
    _ ≤ p * q' := Nat.mul_le_mul_right q' (Nat.div_mul_le_self p q)
    _ ≤ p' * q := h

/-- Quotients in order with one whole part have their remainders in order. -/
private theorem mod_mul_le_of_cross (h : p * q' ≤ p' * q) (hdiv : p / q = p' / q') :
    p % q * q' ≤ p' % q' * q := by
  have hp := Nat.div_add_mod p q
  have hp' := Nat.div_add_mod p' q'
  have hleft : p * q' = p / q * (q * q') + p % q * q' := by
    calc p * q' = (q * (p / q) + p % q) * q' := by rw [hp]
      _ = p / q * (q * q') + p % q * q' := by ring
  have hright : p' * q = p / q * (q * q') + p' % q' * q := by
    calc p' * q = (q' * (p' / q') + p' % q') * q := by rw [hp']
      _ = p / q * (q * q') + p' % q' * q := by rw [hdiv]; ring
  omega

/-- Rounding keeps the order of quotients. -/
theorem roundDiv_mono (hq : 0 < q) (hq' : 0 < q') (h : p * q' ≤ p' * q) :
    roundDiv p q ≤ roundDiv p' q' := by
  have hle := roundDiv_le_succ p q
  have hle' := div_le_roundDiv p' q'
  rcases Nat.lt_or_eq_of_le (div_le_div_of_cross hq hq' h) with hlt | heq
  · omega
  · have hdouble : 2 * (p % q) * q' ≤ 2 * (p' % q') * q := by
      rw [Nat.mul_assoc, Nat.mul_assoc]
      exact Nat.mul_le_mul_left 2 (mod_mul_le_of_cross h heq)
    have hbelow (hhalf : 2 * (p' % q') < q') : 2 * (p % q) < q := by
      refine Nat.lt_of_mul_lt_mul_right (Nat.lt_of_le_of_lt hdouble ?_)
      rw [Nat.mul_comm q q']
      exact Nat.mul_lt_mul_of_pos_right hhalf hq
    have hnot (hhalf : 2 * (p' % q') ≤ q') : 2 * (p % q) ≤ q := by
      refine Nat.le_of_mul_le_mul_right (Nat.le_trans hdouble ?_) hq'
      rw [Nat.mul_comm q q']
      exact Nat.mul_le_mul_right q hhalf
    -- The remainders decide, and a tie of both quotients goes to the same neighbour.
    by_cases hhalf : 2 * (p' % q') < q'
    · rw [roundDiv, if_pos (hbelow hhalf)]
      omega
    · by_cases hup : q' < 2 * (p' % q')
      · have hnext : roundDiv p' q' = p' / q' + 1 := by
          rw [roundDiv, if_neg hhalf, if_pos hup]
        omega
      · have htie : roundDiv p' q' = p' / q' + p' / q' % 2 := by
          rw [roundDiv, if_neg hhalf, if_neg hup]
        have hdown : roundDiv p q ≤ p / q + p / q % 2 := by
          rw [roundDiv, if_neg (Nat.not_lt.2 (hnot (by omega)))]
          split <;> omega
        rw [htie, ← heq]
        exact hdown

/-- A whole number is not rounded. -/
theorem roundDiv_mul (n : Nat) (hq : 0 < q) : roundDiv (n * q) q = n := by
  have hhalf : 2 * (n * q % q) < q := by rwa [Nat.mul_mod_left]
  rw [roundDiv, if_pos hhalf, Nat.mul_div_cancel n hq]

private theorem roundDiv_le (hq : 0 < q) (h : p ≤ n * q) : roundDiv p q ≤ n := by
  have hmono := roundDiv_mono hq hq (Nat.mul_le_mul_right q h)
  rwa [roundDiv_mul n hq] at hmono

private theorem le_roundDiv (hq : 0 < q) (h : n * q ≤ p) : n ≤ roundDiv p q := by
  have hmono := roundDiv_mono hq hq (Nat.mul_le_mul_right q h)
  rwa [roundDiv_mul n hq] at hmono

/-! ## The significand -/

/-- There are as many patterns to an exponent as a significand has choices. -/
theorem binade_eq : binade = 2 ^ 52 := rfl

/-- A unit is one halved as often as the finest doubles ask for. -/
theorem unitsPerOne_eq : unitsPerOne = 2 ^ 1074 := by
  unfold unitsPerOne
  generalize 1074 = k
  rfl

private theorem lt_two_pow_droppedDigits (units : Nat) :
    units < 2 ^ 53 * 2 ^ droppedDigits units := by
  have hle : units.log2 + 1 ≤ 53 + droppedDigits units := by
    unfold droppedDigits
    omega
  rw [← Nat.pow_add]
  exact Nat.lt_of_lt_of_le Nat.lt_log2_self (Nat.pow_le_pow_right (by decide) hle)

/-- Where digits are dropped the significand keeps as many as it can. -/
theorem two_pow_droppedDigits_le {units : Nat} (h : droppedDigits units ≠ 0) :
    2 ^ 52 * 2 ^ droppedDigits units ≤ units := by
  have hlog : 52 + droppedDigits units = units.log2 := by
    unfold droppedDigits at h ⊢
    omega
  have hne : units ≠ 0 := by
    rintro rfl
    rw [droppedDigits, Nat.log2_zero] at h
    exact h rfl
  rw [← Nat.pow_add, hlog]
  exact Nat.log2_self_le hne

private theorem droppedDigits_mono (h : s ≤ t) : droppedDigits s ≤ droppedDigits t := by
  by_cases hs : s = 0
  · rw [hs, droppedDigits, Nat.log2_zero]
    exact Nat.zero_le _
  · have hlog : s.log2 ≤ t.log2 := by
      rw [Nat.le_log2 (by omega)]
      exact Nat.le_trans (Nat.log2_self_le hs) h
    unfold droppedDigits
    omega

/-- The rounded significand is at most the next power of two. -/
theorem roundDiv_le_two_pow (hq : 0 < q) :
    roundDiv p (q * 2 ^ droppedDigits (p / q)) ≤ 2 ^ 53 := by
  refine roundDiv_le (Nat.mul_pos hq (Nat.two_pow_pos _)) (Nat.le_of_lt ?_)
  have hlt := (Nat.div_lt_iff_lt_mul hq).1 (lt_two_pow_droppedDigits (p / q))
  calc p < 2 ^ 53 * 2 ^ droppedDigits (p / q) * q := hlt
    _ = 2 ^ 53 * (q * 2 ^ droppedDigits (p / q)) := by ring

/-- Where digits are dropped the rounded significand has its leading digit. -/
theorem two_pow_le_roundDiv (hq : 0 < q) (h : droppedDigits (p / q) ≠ 0) :
    2 ^ 52 ≤ roundDiv p (q * 2 ^ droppedDigits (p / q)) := by
  refine le_roundDiv (Nat.mul_pos hq (Nat.two_pow_pos _)) ?_
  have hle := (Nat.le_div_iff_mul_le hq).1 (two_pow_droppedDigits_le h)
  calc 2 ^ 52 * (q * 2 ^ droppedDigits (p / q))
      = 2 ^ 52 * 2 ^ droppedDigits (p / q) * q := by ring
    _ ≤ p := hle

/-! ## The nearest pattern -/

/-- The nearest pattern keeps the order of quotients. -/
theorem nearestPattern_mono (hq : 0 < q) (hq' : 0 < q') (h : p * q' ≤ p' * q) :
    nearestPattern p q ≤ nearestPattern p' q' := by
  have hdropped := droppedDigits_mono (div_le_div_of_cross hq hq' h)
  have hpattern : droppedDigits (p / q) * binade + roundDiv p (q * 2 ^ droppedDigits (p / q)) ≤
      droppedDigits (p' / q') * binade + roundDiv p' (q' * 2 ^ droppedDigits (p' / q')) := by
    have hle := roundDiv_le_two_pow (p := p) hq
    have hle' := two_pow_le_roundDiv (p := p') hq'
    rcases Nat.lt_or_eq_of_le hdropped with hlt | heq
    · -- A carry reaches the next exponent and no further.
      have hnext := Nat.mul_le_mul_right binade hlt
      have hone := hle' (by omega)
      rw [Nat.succ_mul] at hnext
      rw [binade_eq] at hnext ⊢
      omega
    · rw [heq]
      refine Nat.add_le_add_left ?_ _
      refine roundDiv_mono (Nat.mul_pos hq (Nat.two_pow_pos _))
        (Nat.mul_pos hq' (Nat.two_pow_pos _)) ?_
      rw [← Nat.mul_assoc, ← Nat.mul_assoc]
      exact Nat.mul_le_mul_right _ h
  unfold nearestPattern
  exact min_le_min_left infinitePattern hpattern

/-- The nearest pattern depends on the quotient alone. -/
theorem nearestPattern_congr (hq : 0 < q) (hq' : 0 < q') (h : p * q' = p' * q) :
    nearestPattern p q = nearestPattern p' q' :=
  Nat.le_antisymm (nearestPattern_mono hq hq' (Nat.le_of_eq h))
    (nearestPattern_mono hq' hq (Nat.le_of_eq h.symm))

theorem nearestPattern_mul (n : Nat) (hq : 0 < q) : nearestPattern (n * q) q = nearestPattern n 1 :=
  nearestPattern_congr hq Nat.one_pos (Nat.mul_one _)

theorem nearestPattern_le (p q : Nat) : nearestPattern p q ≤ infinitePattern :=
  Nat.min_le_left _ _

/-- A subnormal magnitude or one of the first normal ones is its own pattern. -/
theorem nearestPattern_of_lt (h : t < binade) : nearestPattern t 1 = t := by
  have hdropped : droppedDigits (t / 1) = 0 := by
    rw [Nat.div_one]
    by_cases ht : t = 0
    · rw [ht, droppedDigits, Nat.log2_zero]
    · have hlog : t.log2 < 52 := by
        rw [Nat.log2_lt ht]
        exact h
      unfold droppedDigits
      omega
  have hround : roundDiv t (1 * Nat.pow 2 0) = t := by
    have hone := roundDiv_mul t Nat.one_pos
    rwa [Nat.mul_one] at hone
  simp only [nearestPattern, hdropped, hround]
  have hfinite : binade ≤ infinitePattern := by decide
  omega

/-- Less than half a unit is nearest to zero. -/
theorem nearestPattern_eq_zero (h : 2 * p < q) : nearestPattern p q = 0 := by
  have hdiv : p / q = 0 := Nat.div_eq_of_lt (by omega)
  have hdropped : droppedDigits (p / q) = 0 := by rw [hdiv, droppedDigits, Nat.log2_zero]
  have hround : roundDiv p (q * Nat.pow 2 0) = 0 := by
    refine Nat.le_zero.1 ?_
    rw [roundDiv, Nat.pow_eq, Nat.pow_zero, Nat.mul_one, Nat.mod_eq_of_lt (by omega), if_pos h,
      hdiv]
  simp only [nearestPattern, hdropped, hround]
  omega

/-- A significand with its leading digit, scaled by a power of two, has the pattern made of both. -/
theorem nearestPattern_of_le (hlow : binade ≤ n) (hhigh : n < 2 * binade) (k : Nat) :
    nearestPattern (n * 2 ^ k) 1 = min infinitePattern (k * binade + n) := by
  have hpos := Nat.two_pow_pos k
  rw [binade_eq] at hlow hhigh
  have hdropped : droppedDigits (n * 2 ^ k / 1) = k := by
    have hlog : (n * 2 ^ k).log2 = 52 + k := by
      rw [Nat.log2_eq_iff (Nat.mul_ne_zero (by omega) (by omega))]
      constructor
      · rw [Nat.pow_add]
        exact Nat.mul_le_mul_right _ hlow
      · have hsum : 2 ^ (52 + k + 1) = 2 * 2 ^ 52 * 2 ^ k := by ring
        rw [hsum]
        exact Nat.mul_lt_mul_of_pos_right hhigh hpos
    rw [droppedDigits, Nat.div_one, hlog]
    omega
  have hround : roundDiv (n * 2 ^ k) (1 * Nat.pow 2 k) = n := by
    rw [Nat.one_mul]
    exact roundDiv_mul n hpos
  simp only [nearestPattern, hdropped, hround]

/-- A double is nearest to itself. -/
theorem nearestPattern_unitsOfPattern (h : t < infinitePattern) :
    nearestPattern (unitsOfPattern t) 1 = t := by
  by_cases hsmall : t < binade
  · rw [unitsOfPattern, if_pos hsmall]
    exact nearestPattern_of_lt hsmall
  · have hbinade : 0 < binade := Nat.two_pow_pos 52
    have hmod := Nat.mod_lt t hbinade
    have hone : 1 ≤ t / binade := (Nat.one_le_div_iff hbinade).2 (by omega)
    have hsplit : (t / binade - 1) * binade + binade = t / binade * binade := by
      rw [← Nat.succ_mul, Nat.succ_eq_add_one, Nat.sub_add_cancel hone]
    have hwhole := Nat.div_add_mod' t binade
    rw [unitsOfPattern, if_neg hsmall, Nat.pow_eq,
      nearestPattern_of_le (by omega) (by omega)]
    omega

/-- Greater patterns belong to greater magnitudes. -/
theorem unitsOfPattern_lt (hst : s < t) (ht : t < infinitePattern) :
    unitsOfPattern s < unitsOfPattern t := by
  refine Nat.lt_of_not_le fun hle => ?_
  have hmono := nearestPattern_mono Nat.one_pos Nat.one_pos (Nat.mul_le_mul_right 1 hle)
  rw [nearestPattern_unitsOfPattern ht,
    nearestPattern_unitsOfPattern (Nat.lt_trans hst ht)] at hmono
  omega

theorem patternOfRatio_congr (hq : 0 < q) (hq' : 0 < q') (h : p * q' = p' * q) :
    patternOfRatio p q = patternOfRatio p' q' := by
  refine nearestPattern_congr hq hq' ?_
  rw [Nat.mul_right_comm, h, Nat.mul_right_comm]

end Criterion.Binary64
