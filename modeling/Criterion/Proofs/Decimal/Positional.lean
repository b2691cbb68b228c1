import Criterion.Binary64.Text
import Criterion.Proofs.Decimal.ReadBack
import Criterion.Proofs.Decimal.Run

/-!
# Decimals with all their places

A decimal that is written with all its places is a run of digits with at most one point, and the
run writes the same number. Which decimals are written so depends on the place of their first digit,
which is known from the number between powers of ten that the decimal lies in.
-/

namespace Criterion.Decimal

open Binary64 Numeral

variable {d : Decimal} {n k : Nat} {text whole part : List Char} {layout : Layout}

/-! ## Digits -/

/-- The value of plain digits. -/
theorem valueOf_eq_ofDigitChars (text : List Char) :
    valueOf (text.map fun c => c.toNat - 48) = Nat.ofDigitChars 10 text 0 := by
  rw [valueOf, List.foldl_map]
  rfl

theorem ofDigitChars_digitChars (n : Nat) : Nat.ofDigitChars 10 (digitChars n) 0 = n :=
  Nat.ofDigitChars_ten_toDigits

theorem isDigit_of_mem_digitChars : ∀ c ∈ digitChars n, c.isDigit := by
  intro c hc
  exact Nat.isDigit_of_mem_toDigits (by decide) (by decide) hc

theorem digitChars_ne_nil (n : Nat) : digitChars n ≠ [] := Nat.toDigits_ne_nil

theorem isDigit_of_mem_zeros : ∀ c ∈ List.replicate n '0', c.isDigit := by
  intro c hc
  rw [(List.mem_replicate.1 hc).2]
  decide

/-- A number with that many digits lies below the power of ten. -/
theorem lt_pow_length_digitChars (n : Nat) : n < 10 ^ (digitChars n).length :=
  (Nat.length_toDigits_le_iff (by decide) Nat.length_toDigits_pos).1 (Nat.le_refl _)

/-- A number that is not zero has no leading zeros. -/
theorem pow_length_digitChars_le (h : n ≠ 0) : 10 ^ ((digitChars n).length - 1) ≤ n := by
  by_cases hone : (digitChars n).length = 1
  · rw [hone]
    omega
  · have hlength : 0 < (digitChars n).length := Nat.length_toDigits_pos
    refine Nat.le_of_not_lt fun hlt => ?_
    have hle := (Nat.length_toDigits_le_iff (n := n) (by decide) (by omega)).2 hlt
    change (digitChars n).length ≤ _ at hle
    omega

/-! ## Runs -/

/-- A text that the lexer takes for a number: digits and points that begin with a digit, with at
most one point among them. -/
structure IsRun (text : List Char) : Prop where
  chars : ∀ c ∈ text, c.isDigit ∨ c = '.'
  points : text.count '.' ≤ 1
  starts : ∃ c rest, text = c :: rest ∧ c.isDigit

/-- Digits are a run. -/
theorem isRun_of_digits (hne : whole ≠ []) (hwhole : ∀ c ∈ whole, c.isDigit) : IsRun whole where
  chars c hc := .inl (hwhole c hc)
  points := by rw [count_point_of_digits hwhole]; exact Nat.zero_le 1
  starts := by
    obtain ⟨c, rest, rfl⟩ := List.exists_cons_of_ne_nil hne
    exact ⟨c, rest, rfl, hwhole c List.mem_cons_self⟩

/-- Digits with a point behind the first of them are a run. -/
theorem isRun_of_point (hne : whole ≠ []) (hwhole : ∀ c ∈ whole, c.isDigit)
    (hpart : ∀ c ∈ part, c.isDigit) : IsRun (whole ++ '.' :: part) where
  chars c hc := by
    rcases List.mem_append.1 hc with hc | hc
    · exact .inl (hwhole c hc)
    · rcases List.mem_cons.1 hc with rfl | hc
      · exact .inr rfl
      · exact .inl (hpart c hc)
  points := by
    rw [List.count_append, List.count_cons_self, count_point_of_digits hwhole,
      count_point_of_digits hpart]
  starts := by
    obtain ⟨c, rest, rfl⟩ := List.exists_cons_of_ne_nil hne
    exact ⟨c, rest ++ '.' :: part, rfl, hwhole c List.mem_cons_self⟩

/-! ## Whole numbers -/

theorem ofRun_digitChars (n : Nat) : ofRun (digitChars n) = ⟨n, 0⟩ := by
  rw [ofRun_of_digits isDigit_of_mem_digitChars, valueOf_eq_ofDigitChars, ofDigitChars_digitChars]

/-! ## Places -/

/-- A decimal with all its places has a digit before its point, and its digits in front of the
point and behind it write the same number. -/
theorem positional_eq (d : Decimal) : ∃ whole part, positional .standard d = whole ++ '.' :: part ∧
    whole ≠ [] ∧ part ≠ [] ∧ (∀ c ∈ whole, c.isDigit) ∧ (∀ c ∈ part, c.isDigit) ∧
    Nat.ofDigitChars 10 (whole ++ part) 0 * d.denominator =
      d.numerator * Nat.pow 10 part.length := by
  obtain ⟨n, exponent⟩ := d
  have hdigits := isDigit_of_mem_digitChars (n := n)
  cases exponent with
  | ofNat e =>
      refine ⟨digitChars n ++ List.replicate e '0', ['0'], ?_, ?_, List.cons_ne_nil _ _, ?_, ?_, ?_⟩
      · rfl
      · intro h
        exact digitChars_ne_nil n (List.append_eq_nil_iff.1 h).1
      · rw [List.forall_mem_append]
        exact ⟨hdigits, isDigit_of_mem_zeros⟩
      · rw [List.forall_mem_singleton]
        decide
      · simp only [numerator, denominator, Nat.ofDigitChars_append, ofDigitChars_digitChars,
          Nat.ofDigitChars_replicate_zero, Nat.mul_one, List.length_singleton]
        rw [Nat.mul_comm n]
        exact Nat.mul_comm 10 _
  | negSucc e =>
      -- Zeros in front make room for a digit before the point.
      obtain ⟨padded, hpadded⟩ : ∃ padded,
          padded = List.replicate (e + 2 - (digitChars n).length) '0' ++ digitChars n := ⟨_, rfl⟩
      have hlength : e + 2 ≤ padded.length := by
        rw [hpadded, List.length_append, List.length_replicate]
        omega
      have hall : ∀ c ∈ padded, c.isDigit := by
        rw [hpadded, List.forall_mem_append]
        exact ⟨isDigit_of_mem_zeros, hdigits⟩
      have hvalue : Nat.ofDigitChars 10 padded 0 = n := by
        rw [hpadded, Nat.ofDigitChars_append, Nat.ofDigitChars_replicate_zero, Nat.mul_zero,
          ofDigitChars_digitChars]
      have hpart : (padded.drop (padded.length - (e + 1))).length = e + 1 := by
        rw [List.length_drop]
        omega
      refine ⟨padded.take (padded.length - (e + 1)), padded.drop (padded.length - (e + 1)),
        ?_, ?_, ?_, fun c hc => hall c (List.mem_of_mem_take hc),
        fun c hc => hall c (List.mem_of_mem_drop hc), ?_⟩
      · rw [hpadded]
        rfl
      · rw [← List.length_pos_iff, List.length_take]
        omega
      · rw [← List.length_pos_iff, hpart]
        exact Nat.succ_pos e
      · rw [List.take_append_drop, hvalue, hpart]
        rfl

theorem isRun_positional (d : Decimal) : IsRun (positional .standard d) := by
  obtain ⟨whole, part, htext, hne, _, hwhole, hpart, _⟩ := positional_eq d
  rw [htext]
  exact isRun_of_point hne hwhole hpart

/-- A decimal with all its places reads back. -/
theorem pattern_ofRun_positional (d : Decimal) :
    (ofRun (positional .standard d)).pattern = d.pattern := by
  obtain ⟨whole, part, htext, _, hne, hwhole, hpart, hvalue⟩ := positional_eq d
  rw [htext, ofRun_of_point hwhole hpart, valueOf_eq_ofDigitChars,
    pattern_fraction _ (List.length_pos_iff.2 hne), pattern_eq d]
  exact patternOfRatio_congr (pow_ten_pos _) d.denominator_pos hvalue

/-! ## The first digit -/

/-- The place of the first digit of a decimal, counted from that before the point. -/
def lead (d : Decimal) : Int := d.exponent + (digitChars d.digits).length - 1

private theorem lead_lt (h : d.digits ≠ 0) (hlt : d.numerator < Nat.pow 10 k * d.denominator) :
    d.lead < k := by
  obtain ⟨n, exponent⟩ := d
  have hlow := pow_length_digitChars_le h
  have hlength : 0 < (digitChars n).length := Nat.length_toDigits_pos
  cases exponent with
  | ofNat e =>
      have hpow : 10 ^ ((digitChars n).length - 1 + e) < 10 ^ k := by
        calc 10 ^ ((digitChars n).length - 1 + e)
            = 10 ^ ((digitChars n).length - 1) * 10 ^ e := Nat.pow_add ..
          _ ≤ n * 10 ^ e := Nat.mul_le_mul_right _ hlow
          _ < 10 ^ k * 1 := hlt
          _ = 10 ^ k := Nat.mul_one _
      rw [Nat.pow_lt_pow_iff_right (by decide)] at hpow
      simp only [lead, Int.ofNat_eq_natCast]
      omega
  | negSucc e =>
      have hpow : 10 ^ ((digitChars n).length - 1) < 10 ^ (k + (e + 1)) := by
        calc 10 ^ ((digitChars n).length - 1) ≤ n := hlow
          _ < 10 ^ k * 10 ^ (e + 1) := hlt
          _ = 10 ^ (k + (e + 1)) := (Nat.pow_add ..).symm
      rw [Nat.pow_lt_pow_iff_right (by decide)] at hpow
      simp only [lead, Int.negSucc_eq]
      omega

private theorem neg_le_lead (hle : d.denominator ≤ d.numerator * Nat.pow 10 k) :
    -(k : Int) ≤ d.lead := by
  obtain ⟨n, exponent⟩ := d
  have hlength : 0 < (digitChars n).length := Nat.length_toDigits_pos
  cases exponent with
  | ofNat e =>
      simp only [lead, Int.ofNat_eq_natCast]
      omega
  | negSucc e =>
      have hpow : 10 ^ (e + 1) < 10 ^ ((digitChars n).length + k) := by
        calc 10 ^ (e + 1) ≤ n * 10 ^ k := hle
          _ < 10 ^ (digitChars n).length * 10 ^ k :=
            Nat.mul_lt_mul_of_pos_right (lt_pow_length_digitChars n) (pow_ten_pos k)
          _ = 10 ^ ((digitChars n).length + k) := (Nat.pow_add ..).symm
      rw [Nat.pow_lt_pow_iff_right (by decide)] at hpow
      simp only [lead, Int.negSucc_eq]
      omega

/-- From a ten-thousandth on and below ten to the sixteenth, decimals are written with all their
places. -/
theorem write_eq_positional (h : d.digits ≠ 0)
    (hlow : d.denominator ≤ d.numerator * Nat.pow 10 4)
    (hhigh : d.numerator < Nat.pow 10 16 * d.denominator) :
    write .standard d = positional .standard d := by
  have hlead := neg_le_lead hlow
  have hlead' := lead_lt h hhigh
  have hstandard : (decide (Layout.standard.lowest ≤ d.lead) &&
      decide (d.lead ≤ Layout.standard.highest)) = true := by
    rw [Bool.and_eq_true, decide_eq_true_eq, decide_eq_true_eq]
    constructor
    · exact hlead
    · change d.lead ≤ 15
      omega
  exact if_pos hstandard

end Criterion.Decimal
