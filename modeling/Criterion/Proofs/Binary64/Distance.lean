import Criterion.Proofs.Binary64.Nearest
import Mathlib.Data.Nat.Dist
import Mathlib.Tactic.Ring

/-!
# No double is closer than the nearest one

A quotient is rounded on the grid of the doubles with its exponent. A double is on that grid, or it
lies below all of those with the exponent, and so farther away than the least of them, which is on
the grid. A tie on the grid goes to the even neighbour, and a pattern is even exactly if its
significand is.
-/

namespace Criterion.Binary64

variable {p q m n r k s t : Nat}

/-- The significand of a finite pattern, with its leading digit. -/
def significand (pattern : Nat) : Nat :=
  if pattern < binade then pattern else binade + pattern % binade

/-- A pattern is nearest to a quotient of units: no finite pattern is closer to it, and of two that
are equally close it is the one with an even significand. -/
structure IsNearestPattern (p q s : Nat) : Prop where
  closest : ∀ t < infinitePattern,
    Nat.dist p (unitsOfPattern s * q) ≤ Nat.dist p (unitsOfPattern t * q)
  even : ∀ t < infinitePattern, t ≠ s →
    Nat.dist p (unitsOfPattern s * q) = Nat.dist p (unitsOfPattern t * q) → Even (significand s)

private theorem even_significand_iff : Even (significand s) ↔ Even s := by
  rw [significand, binade_eq, Nat.even_iff, Nat.even_iff]
  split <;> omega

/-! ## Rounded quotients -/

/-- Two multiples of a number are together at least that number away from everything. -/
theorem le_dist_add_dist (h : m ≠ n) (p q : Nat) :
    q ≤ Nat.dist p (m * q) + Nat.dist p (n * q) :=
  calc q ≤ Nat.dist m n * q := Nat.le_mul_of_pos_left q (Nat.dist_pos_of_ne h)
    _ = Nat.dist (m * q) (n * q) := (Nat.dist_mul_right m q n).symm
    _ ≤ Nat.dist (m * q) p + Nat.dist p (n * q) := Nat.dist.triangle_inequality ..
    _ = Nat.dist p (m * q) + Nat.dist p (n * q) := by rw [Nat.dist_comm]

/-- A rounded quotient is off by no more than a half, and where it is off by a half it is even. -/
theorem two_mul_dist_roundDiv (hq : 0 < q) :
    2 * Nat.dist p (roundDiv p q * q) < q ∨
      2 * Nat.dist p (roundDiv p q * q) = q ∧ Even (roundDiv p q) := by
  have hsplit := Nat.div_add_mod' p q
  have hmod := Nat.mod_lt p hq
  have hdown : Nat.dist p (p / q * q) = p % q := by
    rw [Nat.dist_eq_sub_of_le_right (Nat.div_mul_le_self p q)]
    omega
  have hup : Nat.dist p ((p / q + 1) * q) = q - p % q := by
    rw [Nat.succ_mul, Nat.dist_eq_sub_of_le (by omega)]
    omega
  rw [Nat.even_iff]
  unfold roundDiv
  split
  · rw [hdown]
    omega
  · split
    · rw [hup]
      omega
    · rcases Nat.mod_two_eq_zero_or_one (p / q) with heven | hodd
      · rw [heven, Nat.add_zero, hdown]
        omega
      · rw [hodd, hup]
        omega

/-- No multiple is closer than the rounded quotient. -/
theorem dist_roundDiv_le (hq : 0 < q) (m : Nat) :
    Nat.dist p (roundDiv p q * q) ≤ Nat.dist p (m * q) := by
  by_cases hm : m = roundDiv p q
  · rw [hm]
  · have happart := le_dist_add_dist hm p q
    have hhalf := two_mul_dist_roundDiv (p := p) hq
    omega

private theorem even_roundDiv (hq : 0 < q) (hm : m ≠ roundDiv p q)
    (h : Nat.dist p (roundDiv p q * q) = Nat.dist p (m * q)) : Even (roundDiv p q) := by
  have happart := le_dist_add_dist hm p q
  rcases two_mul_dist_roundDiv (p := p) hq with hless | ⟨_, heven⟩
  · omega
  · exact heven

/-! ## The grid of an exponent -/

/-- A normal pattern is its exponent and what its significand has below the leading digit. -/
theorem unitsOfPattern_normal (hr : r < binade) (k : Nat) :
    unitsOfPattern ((k + 1) * binade + r) = (binade + r) * 2 ^ k := by
  have hbinade : 0 < binade := Nat.two_pow_pos 52
  have hge : ¬ (k + 1) * binade + r < binade := by
    rw [Nat.succ_mul]
    omega
  have hdiv : ((k + 1) * binade + r) / binade = k + 1 := by
    rw [Nat.mul_comm, Nat.mul_add_div hbinade, Nat.div_eq_of_lt hr, Nat.add_zero]
  have hmod : ((k + 1) * binade + r) % binade = r := by
    rw [Nat.mul_comm, Nat.mul_add_mod, Nat.mod_eq_of_lt hr]
  rw [unitsOfPattern, if_neg hge, hdiv, hmod, Nat.add_sub_cancel, Nat.pow_eq]

private theorem unitsOfPattern_add (hlow : k = 0 ∨ binade ≤ r) (hhigh : r ≤ 2 * binade) :
    unitsOfPattern (k * binade + r) = r * 2 ^ k := by
  by_cases hr : r < binade
  · obtain rfl : k = 0 := hlow.resolve_right (Nat.not_le.2 hr)
    rw [Nat.zero_mul, Nat.zero_add, unitsOfPattern, if_pos hr, Nat.pow_zero, Nat.mul_one]
  · obtain ⟨r, rfl⟩ := Nat.exists_eq_add_of_le (Nat.not_lt.1 hr)
    rcases Nat.lt_or_eq_of_le (by omega : r ≤ binade) with hlt | rfl
    · rw [← Nat.add_assoc, ← Nat.succ_mul, unitsOfPattern_normal hlt]
    · have hbinade : 0 < binade := Nat.two_pow_pos 52
      calc unitsOfPattern (k * binade + (binade + binade))
          = unitsOfPattern ((k + 1 + 1) * binade + 0) := by
            rw [Nat.succ_mul, Nat.succ_mul, Nat.add_zero, Nat.add_assoc]
        _ = (binade + 0) * 2 ^ (k + 1) := unitsOfPattern_normal hbinade (k + 1)
        _ = (binade + binade) * 2 ^ k := by ring

/-- A double is on the grid of an exponent, or it lies below all the doubles with the exponent. -/
theorem dvd_or_unitsOfPattern_lt (t k : Nat) :
    2 ^ k ∣ unitsOfPattern t ∨ k ≠ 0 ∧ unitsOfPattern t < binade * 2 ^ k := by
  by_cases hk : k = 0
  · rw [hk, Nat.pow_zero]
    exact .inl (Nat.one_dvd _)
  rw [unitsOfPattern]
  split
  · rename_i ht
    exact .inr ⟨hk, Nat.lt_of_lt_of_le ht (Nat.le_mul_of_pos_right binade (Nat.two_pow_pos k))⟩
  · generalize t / binade - 1 = e
    have hmod : t % binade < binade := Nat.mod_lt t (Nat.two_pow_pos 52)
    rw [Nat.pow_eq]
    rcases Nat.lt_or_ge e k with hlt | hle
    · refine .inr ⟨hk, ?_⟩
      calc (binade + t % binade) * 2 ^ e < (binade + binade) * 2 ^ e :=
            Nat.mul_lt_mul_of_pos_right (Nat.add_lt_add_left hmod binade) (Nat.two_pow_pos e)
        _ = binade * 2 ^ (e + 1) := by ring
        _ ≤ binade * 2 ^ k := Nat.mul_le_mul_left binade (Nat.pow_le_pow_right (by decide) hlt)
    · exact .inl (Nat.dvd_mul_left_of_dvd (Nat.pow_dvd_pow 2 hle) _)

/-! ## The nearest pattern -/

/-- Below the infinities the nearest pattern has the units of the quotient that is rounded on the
grid of its exponent, and the two are even together. -/
theorem nearestPattern_on_grid (hq : 0 < q) (hfinite : nearestPattern p q < infinitePattern) :
    unitsOfPattern (nearestPattern p q) =
        roundDiv p (q * 2 ^ droppedDigits (p / q)) * 2 ^ droppedDigits (p / q) ∧
      (Even (roundDiv p (q * 2 ^ droppedDigits (p / q))) → Even (nearestPattern p q)) := by
  have hlow : droppedDigits (p / q) = 0 ∨ binade ≤ roundDiv p (q * 2 ^ droppedDigits (p / q)) :=
    or_iff_not_imp_left.2 (two_pow_le_roundDiv hq)
  have hhigh : roundDiv p (q * 2 ^ droppedDigits (p / q)) ≤ 2 * binade := roundDiv_le_two_pow hq
  have hpattern : nearestPattern p q = droppedDigits (p / q) * binade +
      roundDiv p (q * 2 ^ droppedDigits (p / q)) := by
    unfold nearestPattern at hfinite ⊢
    exact Nat.min_eq_right (by simp only [Nat.pow_eq] at hfinite ⊢; omega)
  rw [hpattern]
  refine ⟨unitsOfPattern_add hlow hhigh, fun heven => ?_⟩
  have hbinade : Even binade := ⟨2 ^ 51, rfl⟩
  exact (hbinade.mul_left _).add heven

/-- What lies below the doubles with the exponent of a quotient is farther from it than one on their
grid. -/
theorem dist_lt_of_below_grid (hq : 0 < q) (hdropped : droppedDigits (p / q) ≠ 0)
    (h : s < binade * 2 ^ droppedDigits (p / q)) :
    Nat.dist p (roundDiv p (q * 2 ^ droppedDigits (p / q)) * (q * 2 ^ droppedDigits (p / q))) <
      Nat.dist p (s * q) := by
  have hpos : 0 < q * 2 ^ droppedDigits (p / q) := Nat.mul_pos hq (Nat.two_pow_pos _)
  have hle : binade * (q * 2 ^ droppedDigits (p / q)) ≤ p :=
    calc binade * (q * 2 ^ droppedDigits (p / q))
        = binade * 2 ^ droppedDigits (p / q) * q := by ring
      _ ≤ p := (Nat.le_div_iff_mul_le hq).1 (two_pow_droppedDigits_le hdropped)
  have hlt : s * q < binade * (q * 2 ^ droppedDigits (p / q)) :=
    calc s * q < binade * 2 ^ droppedDigits (p / q) * q := Nat.mul_lt_mul_of_pos_right h hq
      _ = binade * (q * 2 ^ droppedDigits (p / q)) := by ring
  refine Nat.lt_of_le_of_lt (dist_roundDiv_le hpos binade) ?_
  rw [Nat.dist_eq_sub_of_le_right hle, Nat.dist_eq_sub_of_le_right (by omega)]
  omega

/-- Finite patterns with the same units are the same. -/
theorem unitsOfPattern_inj (hs : s < infinitePattern) (ht : t < infinitePattern)
    (h : unitsOfPattern s = unitsOfPattern t) : s = t := by
  rw [← nearestPattern_unitsOfPattern hs, h, nearestPattern_unitsOfPattern ht]

/-- The nearest pattern is nearest. -/
theorem isNearestPattern_nearestPattern (hq : 0 < q)
    (hfinite : nearestPattern p q < infinitePattern) :
    IsNearestPattern p q (nearestPattern p q) := by
  obtain ⟨hunits, heven⟩ := nearestPattern_on_grid hq hfinite
  have hpos : 0 < q * 2 ^ droppedDigits (p / q) := Nat.mul_pos hq (Nat.two_pow_pos _)
  have hscaled (m : Nat) : m * 2 ^ droppedDigits (p / q) * q =
      m * (q * 2 ^ droppedDigits (p / q)) := by ring
  constructor
  · intro t ht
    rw [hunits, hscaled]
    rcases dvd_or_unitsOfPattern_lt t (droppedDigits (p / q)) with ⟨m, hm⟩ | ⟨hdropped, hlt⟩
    · rw [hm, Nat.mul_comm _ m, hscaled]
      exact dist_roundDiv_le hpos m
    · exact Nat.le_of_lt (dist_lt_of_below_grid hq hdropped hlt)
  · intro t ht hne htie
    rw [hunits, hscaled] at htie
    rcases dvd_or_unitsOfPattern_lt t (droppedDigits (p / q)) with ⟨m, hm⟩ | ⟨hdropped, hlt⟩
    · rw [hm, Nat.mul_comm _ m, hscaled] at htie
      refine even_significand_iff.2 (heven (even_roundDiv hpos ?_ htie))
      rintro rfl
      exact hne (unitsOfPattern_inj ht hfinite (by rw [hm, hunits, Nat.mul_comm]))
    · exact absurd htie (Nat.ne_of_lt (dist_lt_of_below_grid hq hdropped hlt))

/-! ## Magnitudes that are doubles -/

/-- Nothing is rounded away where the dropped digits are all zero. -/
theorem unitsOfPattern_nearestPattern (h : 2 ^ droppedDigits m ∣ m)
    (hfinite : nearestPattern m 1 < infinitePattern) :
    unitsOfPattern (nearestPattern m 1) = m := by
  obtain ⟨hunits, _⟩ := nearestPattern_on_grid Nat.one_pos hfinite
  rw [Nat.div_one, Nat.one_mul] at hunits
  have hround (n k : Nat) (hm : m = 2 ^ k * n) : roundDiv m (2 ^ k) * 2 ^ k = m := by
    rw [hm, Nat.mul_comm _ n, roundDiv_mul n (Nat.two_pow_pos k)]
  obtain ⟨n, hn⟩ := h
  exact hunits.trans (hround n _ hn)

/-- The digits that are dropped of a scaled significand are all zero. -/
theorem two_pow_droppedDigits_dvd (hn : n ≤ 2 ^ 53) (k : Nat) :
    2 ^ droppedDigits (n * 2 ^ k) ∣ n * 2 ^ k := by
  rcases Nat.lt_or_eq_of_le hn with hlt | rfl
  · refine Nat.dvd_mul_left_of_dvd (Nat.pow_dvd_pow 2 ?_) n
    by_cases hzero : n * 2 ^ k = 0
    · rw [hzero, droppedDigits, Nat.log2_zero]
      exact Nat.zero_le k
    · have hlog : (n * 2 ^ k).log2 < 53 + k := by
        rw [Nat.log2_lt hzero, Nat.pow_add]
        exact Nat.mul_lt_mul_of_pos_right hlt (Nat.two_pow_pos k)
      unfold droppedDigits
      omega
  · rw [← Nat.pow_add, droppedDigits, Nat.log2_two_pow]
    exact Nat.pow_dvd_pow 2 (Nat.sub_le _ _)

end Criterion.Binary64
