import Criterion.Proofs.Binary64.Order
import Criterion.Proofs.Expr.UniqueText
import Criterion.Proofs.Value.Supply

/-!
# Integers as doubles

An integer that is supplied for a variable becomes the double nearest to it. From halfway between
the greatest finite double and the next power of two on there is none. A literal is read on another
way, through its decimal digits; an integer has the same double on both.
-/

namespace Criterion.Binary64

/-- The least magnitude of an integer without a double: it lies halfway between the greatest finite
double and the next power of two. -/
def overflowBound : Nat := Nat.pow 2 1024 - Nat.pow 2 970

/-- A finite double is nearest to an integer: none is closer, and where another number is as close,
the significand of the double is the even one. -/
structure IsNearest (n : Int) (x : Float) : Prop where
  finite : IsFinite x
  closest : ∀ y, IsFinite y →
    |n * unitsPerOne - signedUnits x| ≤ |n * unitsPerOne - signedUnits y|
  even : ∀ y, IsFinite y → signedUnits y ≠ signedUnits x →
    |n * unitsPerOne - signedUnits x| = |n * unitsPerOne - signedUnits y| →
      Even (significand (patternOf x))

/-- The double that an integer below the bound is rounded to. -/
def ofInt (n : Int) : Float := ofPattern (n < 0) (patternOfRatio n.natAbs 1)

variable {m n : Int} {j k : Nat}

/-! ## The range -/

/-- Rounding keeps the order of magnitudes. -/
theorem patternOfRatio_mono (h : j ≤ k) : patternOfRatio j 1 ≤ patternOfRatio k 1 :=
  nearestPattern_mono Nat.one_pos Nat.one_pos
    (Nat.mul_le_mul_right 1 (Nat.mul_le_mul_right unitsPerOne h))

/-- A magnitude is rounded to a finite double exactly if it is below the bound. -/
theorem patternOfRatio_lt_iff : patternOfRatio k 1 < infinitePattern ↔ k < overflowBound := by
  have hbound : patternOfRatio overflowBound 1 = infinitePattern := by decide +kernel
  have hbelow : patternOfRatio (overflowBound - 1) 1 < infinitePattern := by decide +kernel
  constructor
  · intro h
    refine Nat.lt_of_not_le fun hle => ?_
    exact absurd (hbound ▸ patternOfRatio_mono hle) (Nat.not_le.2 h)
  · intro h
    exact Nat.lt_of_le_of_lt (patternOfRatio_mono (Nat.le_sub_one_of_lt h)) hbelow

theorem ofInt?_of_lt (h : n.natAbs < overflowBound) : ofInt? n = some (ofInt n) :=
  if_pos (patternOfRatio_lt_iff.2 h)

theorem ofInt?_of_le (h : overflowBound ≤ n.natAbs) : ofInt? n = none :=
  if_neg (mt patternOfRatio_lt_iff.1 (Nat.not_lt.2 h))

theorem patternOf_ofInt (n : Int) : patternOf (ofInt n) = patternOfRatio n.natAbs 1 :=
  patternOf_ofPattern _ (nearestPattern_le _ _)

/-- The units of an integer's double. -/
theorem signedUnits_ofInt (n : Int) : signedUnits (ofInt n) =
    if n < 0 then -(unitsOfPattern (patternOfRatio n.natAbs 1) : Int)
      else unitsOfPattern (patternOfRatio n.natAbs 1) := by
  have hsign : isNegative (ofInt n) = decide (n < 0) :=
    isNegative_ofPattern _ (nearestPattern_le _ _)
  simp only [signedUnits, patternOf_ofInt, hsign, decide_eq_true_eq]

theorem isFinite_ofInt (h : n.natAbs < overflowBound) : IsFinite (ofInt n) := by
  rw [IsFinite, patternOf_ofInt]
  exact patternOfRatio_lt_iff.2 h

/-- The units of a double have either sign. -/
theorem signedUnits_eq_or (x : Float) : signedUnits x = unitsOfPattern (patternOf x) ∨
    signedUnits x = -(unitsOfPattern (patternOf x)) := by
  rw [signedUnits]
  split
  · exact .inr rfl
  · exact .inl rfl

/-! ## Rounding -/

private theorem dist_natAbs_le (s t : Int) : Nat.dist s.natAbs t.natAbs ≤ (s - t).natAbs := by
  unfold Nat.dist
  omega

/-- A multiple of an integer has its sign and a multiple of its magnitude. -/
theorem mul_natCast_eq (n : Int) (k : Nat) :
    n * k = if n < 0 then -((n.natAbs * k : Nat) : Int) else (n.natAbs * k : Nat) := by
  rw [Int.natCast_mul]
  split
  · rename_i hneg
    rw [Int.ofNat_natAbs_of_nonpos (Int.le_of_lt hneg), Int.neg_mul, Int.neg_neg]
  · rename_i hnonneg
    rw [Int.natAbs_of_nonneg (Int.not_lt.1 hnonneg)]

/-- The units of an integer and those of its double are as far apart as their magnitudes. -/
theorem natAbs_sub_signedUnits_ofInt (n : Int) (k : Nat) :
    (n * k - signedUnits (ofInt n)).natAbs =
      Nat.dist (n.natAbs * k) (unitsOfPattern (patternOfRatio n.natAbs 1)) := by
  rw [signedUnits_ofInt, mul_natCast_eq]
  unfold Nat.dist
  split <;> omega

/-- The double of an integer is nearest to it. -/
theorem isNearest_ofInt (h : n.natAbs < overflowBound) : IsNearest n (ofInt n) := by
  have hnearest : IsNearestPattern (n.natAbs * unitsPerOne) 1 (patternOfRatio n.natAbs 1) :=
    isNearestPattern_nearestPattern Nat.one_pos (patternOfRatio_lt_iff.2 h)
  have hclosest (t : Nat) (ht : t < infinitePattern) :
      Nat.dist (n.natAbs * unitsPerOne) (unitsOfPattern (patternOfRatio n.natAbs 1)) ≤
        Nat.dist (n.natAbs * unitsPerOne) (unitsOfPattern t) := by
    have hle := hnearest.closest t ht
    rwa [Nat.mul_one, Nat.mul_one] at hle
  have hother (y : Float) : Nat.dist (n.natAbs * unitsPerOne) (unitsOfPattern (patternOf y)) ≤
      (n * unitsPerOne - signedUnits y).natAbs := by
    have hmagnitude : (signedUnits y).natAbs = unitsOfPattern (patternOf y) := by
      have hsign := signedUnits_eq_or y
      omega
    have hle := dist_natAbs_le (n * unitsPerOne) (signedUnits y)
    rwa [Int.natAbs_mul, Int.natAbs_natCast, hmagnitude] at hle
  refine ⟨isFinite_ofInt h, fun y hy => ?_, fun y hy hne htie => ?_⟩
  · rw [Int.abs_eq_natAbs, Int.abs_eq_natAbs, natAbs_sub_signedUnits_ofInt]
    exact Int.ofNat_le.2 (Nat.le_trans (hclosest (patternOf y) hy) (hother y))
  · rw [Int.abs_eq_natAbs, Int.abs_eq_natAbs, natAbs_sub_signedUnits_ofInt, Int.ofNat_inj] at htie
    rw [patternOf_ofInt]
    by_cases hpattern : patternOf y = patternOfRatio n.natAbs 1
    · -- Two doubles with one magnitude are as close to zero alone, and zero is a double itself.
      have hzero := hclosest 0 (by decide)
      rw [unitsOfPattern_eq_zero_iff.2 rfl] at hzero
      have hsign := signedUnits_eq_or y
      rw [signedUnits_ofInt] at hne
      rw [mul_natCast_eq] at htie
      rw [hpattern] at hsign
      generalize n.natAbs * unitsPerOne = units at htie hzero
      unfold Nat.dist at htie hzero
      omega
    · have heven := hnearest.even _ hy hpattern
      have hle := hother y
      rw [Nat.mul_one, Nat.mul_one] at heven
      rw [← htie] at hle
      exact heven (Nat.le_antisymm (hclosest (patternOf y) hy) hle)

/-- Integers up to the fifty-third power of two are doubles. -/
theorem signedUnits_ofInt_eq (h : n.natAbs ≤ Nat.pow 2 53) :
    signedUnits (ofInt n) = n * unitsPerOne := by
  have hbound : Nat.pow 2 53 < overflowBound := by decide +kernel
  have hfinite : patternOfRatio n.natAbs 1 < infinitePattern :=
    patternOfRatio_lt_iff.2 (Nat.lt_of_le_of_lt h hbound)
  have hunits : unitsOfPattern (patternOfRatio n.natAbs 1) = n.natAbs * unitsPerOne := by
    apply unitsOfPattern_nearestPattern _ hfinite
    rw [unitsPerOne_eq]
    exact two_pow_droppedDigits_dvd h _
  rw [signedUnits_ofInt, hunits, mul_natCast_eq]

/-- Rounding keeps the order of integers. -/
theorem ofInt_le_ofInt (hn : n.natAbs < overflowBound) (hm : m.natAbs < overflowBound)
    (h : n ≤ m) : ofInt n ≤ ofInt m := by
  have hmono {j k : Nat} (hk : k < overflowBound) (hle : j ≤ k) :
      unitsOfPattern (patternOfRatio j 1) ≤ unitsOfPattern (patternOfRatio k 1) := by
    rcases Nat.lt_or_eq_of_le (patternOfRatio_mono hle) with hlt | heq
    · exact Nat.le_of_lt (unitsOfPattern_lt hlt (patternOfRatio_lt_iff.2 hk))
    · rw [heq]
  rw [le_iff_signedUnits_le (isFinite_ofInt hn) (isFinite_ofInt hm), signedUnits_ofInt,
    signedUnits_ofInt]
  rcases Int.lt_or_le n 0 with hnegative | hnonneg
  · rw [if_pos hnegative]
    rcases Int.lt_or_le m 0 with hm0 | hm0
    · rw [if_pos hm0]
      have hle := hmono hn (by omega : m.natAbs ≤ n.natAbs)
      omega
    · rw [if_neg (Int.not_lt.2 hm0)]
      omega
  · rw [if_neg (Int.not_lt.2 hnonneg), if_neg (by omega)]
    exact Int.ofNat_le.2 (hmono hm (by omega))

/-- The double of a negated integer is the negated double. -/
theorem ofInt_neg (h : n ≠ 0) : ofInt (-n) = -ofInt n := by
  have hsign : decide (-n < 0) = !decide (n < 0) := by
    rw [Bool.eq_iff_iff, Bool.not_eq_true', decide_eq_true_iff, decide_eq_false_iff_not]
    omega
  have hle : patternOfRatio n.natAbs 1 ≤ infinitePattern := nearestPattern_le _ _
  rw [ofInt, ofInt, neg_ofPattern _ hle, hsign, Int.natAbs_neg]

end Criterion.Binary64

namespace Criterion

open Binary64 Decimal

/-! ## Literals -/

/-- The digits of a natural number are evaluated to the double of the number. -/
theorem evaluate_digits {k : Nat} {limits : Limits} {supplied : Datum} {env : Environment}
    (hlength : (toString k).length ≤ limits.maxLength)
    (henv : Environment.ofDatum supplied = .ok env) :
    (evaluate limits (toString k) supplied).outcome = .ok (.number (ofInt k)) := by
  have hdigits : toString k = String.ofList (digitChars k) := rfl
  have hrun : IsRun (digitChars k) :=
    isRun_of_digits (digitChars_ne_nil k) isDigit_of_mem_digitChars
  have hfloat : (ofRun (digitChars k)).toFloat false = ofInt k := by
    rw [ofRun_digitChars, Decimal.toFloat, pattern_natural]
    rfl
  have hparse : Expr.parse limits (toString k) = .ok (.number (ofInt k)) := by
    rw [hdigits, String.length_ofList] at hlength
    obtain ⟨hpos, hle⟩ := limits.maxDepth_inRange
    rw [hdigits, ← hfloat]
    exact Expr.ofSource_of_isRun hrun (Int.ofNat_le.2 hlength) hpos hle
  rw [evaluate, henv, hparse]
  change (Expr.number (ofInt k)).evaluate env = _
  rw [Expr.evaluate, Expr.run_start]
  rfl

/-! ## Variables -/

theorem Value.ofDatum_integer (name : Datum) {n : Int} (h : n.natAbs < overflowBound) :
    Value.ofDatum name (.integer n) = .ok (.number (ofInt n)) := by
  rw [Value.ofDatum, ofInt?_of_lt h]
  rfl

/-- Integers are converted with correct rounding. Whatever is supplied for a variable, an integer is
refused exactly if its magnitude reaches the bound: it is rejected as unsupported if the name of the
variable can be written, as every text can. Any other integer becomes the double nearest to
it, of two equally near ones the one with an even significand. Up to the fifty-third power of two
it becomes a double of its own value. The conversion keeps the order and the sign, and the literal
of a natural number is evaluated to the double that a variable gets. -/
theorem integers_rounded (name : Datum) (n : Int) :
    (Value.ofDatum name (.integer n) = rejectVariable name "int (out of float range)" ↔
      overflowBound ≤ n.natAbs) ∧
    (name.literal? ≠ none → (Value.ofDatum name (.integer n) =
        reject (.unsupportedVariable name "int (out of float range)") none ↔
      overflowBound ≤ n.natAbs)) ∧
    (n.natAbs < overflowBound →
      ∃ x, Value.ofDatum name (.integer n) = .ok (.number x) ∧ IsNearest n x ∧
        (n.natAbs ≤ Nat.pow 2 53 → signedUnits x = n * unitsPerOne) ∧
        (∀ m y, n ≤ m → Value.ofDatum name (.integer m) = .ok (.number y) → x ≤ y) ∧
        (n ≠ 0 → Value.ofDatum name (.integer (-n)) = .ok (.number (-x))) ∧
        ∀ (k : Nat) (limits : Limits) supplied env, n = k →
          (toString k).length ≤ limits.maxLength → Environment.ofDatum supplied = .ok env →
            (evaluate limits (toString k) supplied).outcome = .ok (.number x)) := by
  have hrefused : Value.ofDatum name (.integer n) =
      rejectVariable name "int (out of float range)" ↔ overflowBound ≤ n.natAbs := by
    constructor
    · intro hrejected
      refine Nat.le_of_not_lt fun hlt => ?_
      rw [Value.ofDatum_integer name hlt] at hrejected
      exact absurd hrejected.symm (rejectVariable_ne_ok name _ _)
    · intro hle
      rw [Value.ofDatum, ofInt?_of_le hle]
      rfl
  refine ⟨hrefused, fun hwritten => ?_, ?_⟩
  · obtain ⟨literal, hliteral⟩ := Option.ne_none_iff_exists'.1 hwritten
    rwa [rejectVariable_of_some hliteral] at hrefused
  · intro hlt
    refine ⟨ofInt n, Value.ofDatum_integer name hlt, isNearest_ofInt hlt, signedUnits_ofInt_eq,
      ?_, ?_, ?_⟩
    · intro m y hle hy
      rcases Nat.lt_or_ge m.natAbs overflowBound with hm | hm
      · rw [Value.ofDatum_integer name hm] at hy
        cases hy
        exact ofInt_le_ofInt hlt hm hle
      · rw [Value.ofDatum, ofInt?_of_le hm] at hy
        exact absurd hy (rejectVariable_ne_ok name _ _)
    · intro hne
      rw [← ofInt_neg hne]
      apply Value.ofDatum_integer
      rwa [Int.natAbs_neg]
    · rintro k limits supplied env rfl hlength henv
      exact evaluate_digits hlength henv

/-- The least natural number that is no double is halfway between two of them and becomes the one
with the even significand, also where it is read as a literal. -/
theorem halfway_rounded :
    (9007199254740993 : Int).natAbs < overflowBound ∧
      (toString 9007199254740993).length ≤ Limits.default.maxLength ∧
      Environment.ofDatum .null = .ok .empty ∧ (Datum.text "n").literal? ≠ none ∧
      Value.ofDatum (.text "n") (.integer 9007199254740993) ≠
        reject (.unsupportedVariable (.text "n") "int (out of float range)") none ∧
      ∃ x, signedUnits x = 9007199254740992 * unitsPerOne ∧
        IsNearest 9007199254740993 x ∧
        Value.ofDatum (.text "n") (.integer 9007199254740993) = .ok (.number x) ∧
        (evaluate Limits.default "9007199254740993" .null).outcome = .ok (.number x) := by
  have hlt : (9007199254740993 : Int).natAbs < overflowBound := by decide +kernel
  have htext : toString 9007199254740993 = "9007199254740993" := by decide +kernel
  have hlength : (toString 9007199254740993).length ≤ Limits.default.maxLength := by
    rw [htext]
    decide
  obtain ⟨_, hrejected, hrounded⟩ := integers_rounded (.text "n") 9007199254740993
  obtain ⟨x, hx, hnearest, _, _, _, hliteral⟩ := hrounded hlt
  have hevaluated := hliteral 9007199254740993 Limits.default .null .empty rfl hlength rfl
  have hunits : signedUnits (ofInt 9007199254740993) = 9007199254740992 * unitsPerOne := by
    rw [signedUnits_ofInt]
    decide +kernel
  have hown : ofInt 9007199254740993 = x :=
    Value.number.inj (Except.ok.inj ((Value.ofDatum_integer _ hlt).symm.trans hx))
  rw [htext] at hevaluated
  rw [hown] at hunits
  exact ⟨hlt, hlength, rfl, nofun, mt (hrejected nofun).1 (Nat.not_le_of_lt hlt), x, hunits,
    hnearest, hx, hevaluated⟩

end Criterion
