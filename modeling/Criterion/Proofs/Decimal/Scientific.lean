import Criterion.Proofs.Decimal.Positional

/-!
# Decimals with a power of ten

A decimal that is written with a power of ten is not a run of digits, but it is still a numeral: its
digits are read up to the exponent, whose sign and digits end it. Hence all decimals, in whichever
way they are written, are read back as the same double.
-/

namespace Criterion.Decimal

open Numeral

variable {text whole part : List Char} {pattern : Nat}

/-! ## Exponents -/

/-- Digits end at a power of ten. -/
theorem endsDigits_powerOfTen (exponent : Int) :
    EndsDigits Text.decimalDigit? (powerOfTen .standard exponent) := by
  rintro _ ⟨⟩
  exact ⟨by decide, by decide⟩

/-- A power of ten has a sign behind its letter and then digits that write its exponent. -/
theorem powerOfTen_eq (exponent : Int) : ∃ padded, powerOfTen .standard exponent =
      'e' :: (if exponent < 0 then '-' else '+') :: padded ∧ padded ≠ [] ∧
    (∀ c ∈ padded, c.isDigit) ∧ Nat.ofDigitChars 10 padded 0 = exponent.natAbs := by
  refine ⟨List.replicate (2 - (digitChars exponent.natAbs).length) '0' ++
    digitChars exponent.natAbs, rfl, ?_, ?_, ?_⟩
  · intro h
    exact digitChars_ne_nil _ (List.append_eq_nil_iff.1 h).2
  · rw [List.forall_mem_append]
    exact ⟨isDigit_of_mem_zeros, isDigit_of_mem_digitChars⟩
  · rw [Nat.ofDigitChars_append, Nat.ofDigitChars_replicate_zero, Nat.mul_zero,
      ofDigitChars_digitChars]

/-- A power of ten is read as its exponent. -/
theorem exponent?_powerOfTen (exponent : Int) :
    exponent? Text.decimalDigit? (powerOfTen .standard exponent) = some exponent := by
  obtain ⟨padded, htext, hne, hdigits, hvalue⟩ := powerOfTen_eq exponent
  obtain ⟨c, padded, rfl⟩ := List.exists_cons_of_ne_nil hne
  have hread : Numeral.digits Text.decimalDigit? (c :: padded ++ []) =
      ((c :: padded).map fun c => c.toNat - 48, []) :=
    digits_append extendsPlain_decimalDigit? hdigits endsDigits_nil
  rw [List.append_nil] at hread
  have hlower : 'e'.toLower = 'e' := by decide
  have hexponent {mark : Char} {negative : Bool}
      (hmark : sign (mark :: c :: padded) = (negative, c :: padded)) :
      exponent? Text.decimalDigit? ('e' :: mark :: c :: padded) =
        some (if negative then -(exponent.natAbs : Int) else exponent.natAbs) := by
    rw [← hvalue, ← valueOf_eq_ofDigitChars, List.map_cons]
    simp only [exponent?, hmark, hread, List.map_cons, hlower, if_true]
  rw [htext]
  by_cases hnegative : exponent < 0
  · rw [if_pos hnegative, hexponent (rfl : sign ('-' :: c :: padded) = (true, c :: padded)),
      if_pos rfl, Int.ofNat_natAbs_of_nonpos (Int.le_of_lt hnegative), Int.neg_neg]
  · rw [if_neg hnegative, hexponent (rfl : sign ('+' :: c :: padded) = (false, c :: padded)),
      if_neg Bool.false_ne_true, Int.natAbs_of_nonneg (Int.not_lt.1 hnegative)]

/-! ## Digits with a power of ten -/

/-- Digits without a point are read together with the power of ten behind them. -/
theorem decimal?_of_digits_power (hne : whole ≠ []) (hwhole : ∀ c ∈ whole, c.isDigit)
    (exponent : Int) :
    decimal? Text.decimalDigit? (whole ++ powerOfTen .standard exponent) =
      some ⟨valueOf (whole.map fun c => c.toNat - 48), exponent⟩ := by
  have hread := digits_append extendsPlain_decimalDigit? hwhole (endsDigits_powerOfTen exponent)
  have hpart : fraction Text.decimalDigit? (powerOfTen .standard exponent) =
      ([], powerOfTen .standard exponent) := rfl
  simp [decimal?, hread, hpart, exponent?_powerOfTen, hne]

/-- Digits with a point are read together with the power of ten behind them. -/
theorem decimal?_of_point_power (hne : whole ≠ []) (hwhole : ∀ c ∈ whole, c.isDigit)
    (hpart : ∀ c ∈ part, c.isDigit) (exponent : Int) :
    decimal? Text.decimalDigit? (whole ++ '.' :: (part ++ powerOfTen .standard exponent)) =
      some ⟨valueOf ((whole ++ part).map fun c => c.toNat - 48), exponent - part.length⟩ := by
  have hread := digits_append extendsPlain_decimalDigit? hwhole
    (endsDigits_point extendsPlain_decimalDigit? (part ++ powerOfTen .standard exponent))
  have hfraction :=
    digits_append extendsPlain_decimalDigit? hpart (endsDigits_powerOfTen exponent)
  simp [decimal?, hread, fraction, hfraction, exponent?_powerOfTen, hne]

/-- A decimal with a power of ten has its first digit in front, and a point before the others if
there are any. -/
theorem scientific_eq (d : Decimal) : ∃ first rest middle, digitChars d.digits = first :: rest ∧
    scientific .standard d d.lead = first :: (middle ++ powerOfTen .standard d.lead) ∧
      (rest = [] ∧ middle = [] ∨ middle = '.' :: rest) := by
  rw [scientific]
  cases hchars : digitChars d.digits with
  | nil => exact absurd hchars (digitChars_ne_nil d.digits)
  | cons first rest =>
    cases rest with
    | nil => exact ⟨first, [], [], rfl, rfl, .inl ⟨rfl, rfl⟩⟩
    | cons second rest => exact ⟨first, second :: rest, _, rfl, rfl, .inr rfl⟩

/-- What holds of digits, of the point, of the letter of an exponent and of signs holds of all
characters of a decimal with a power of ten. -/
theorem forall_mem_scientific {P : Char → Prop} (hdigit : ∀ c, c.isDigit → P c)
    (hmarks : P '.' ∧ P 'e' ∧ P '-' ∧ P '+') (d : Decimal) :
    ∀ c ∈ scientific .standard d d.lead, P c := by
  obtain ⟨hpoint, hletter, hminus, hplus⟩ := hmarks
  obtain ⟨first, rest, middle, hchars, htext, hmiddle⟩ := scientific_eq d
  obtain ⟨padded, hpower, _, hpadded, _⟩ := powerOfTen_eq d.lead
  have hdigits := isDigit_of_mem_digitChars (n := d.digits)
  rw [hchars] at hdigits
  obtain ⟨hfirst, hrest⟩ := List.forall_mem_cons.1 hdigits
  have hmiddle : ∀ c ∈ middle, P c := by
    rcases hmiddle with ⟨_, rfl⟩ | rfl
    · exact List.forall_mem_nil _
    · exact List.forall_mem_cons.2 ⟨hpoint, fun c hc => hdigit c (hrest c hc)⟩
  have hpower : ∀ c ∈ powerOfTen .standard d.lead, P c := by
    rw [hpower, List.forall_mem_cons, List.forall_mem_cons]
    refine ⟨hletter, ?_, fun c hc => hdigit c (hpadded c hc)⟩
    split
    · exact hminus
    · exact hplus
  rw [htext, List.forall_mem_cons, List.forall_mem_append]
  exact ⟨hdigit first hfirst, hmiddle, hpower⟩

/-- A decimal that is written with a power of ten reads back. -/
theorem decimal?_scientific (d : Decimal) :
    decimal? Text.decimalDigit? (scientific .standard d d.lead) = some d := by
  obtain ⟨first, rest, middle, hchars, htext, hmiddle⟩ := scientific_eq d
  have hdigits := isDigit_of_mem_digitChars (n := d.digits)
  have hvalue := ofDigitChars_digitChars d.digits
  have hlead : d.lead = d.exponent + rest.length := by
    rw [lead, hchars, List.length_cons]
    omega
  rw [hchars] at hdigits hvalue
  obtain ⟨hfirst, hrest⟩ := List.forall_mem_cons.1 hdigits
  have hone : ∀ c ∈ [first], c.isDigit := List.forall_mem_singleton.2 hfirst
  rw [htext, hlead]
  rcases hmiddle with ⟨rfl, rfl⟩ | rfl
  · have hread := decimal?_of_digits_power (List.cons_ne_nil first []) hone d.exponent
    rw [valueOf_eq_ofDigitChars, hvalue] at hread
    rwa [List.nil_append, List.length_nil, Int.natCast_zero, Int.add_zero]
  · have hread := decimal?_of_point_power (List.cons_ne_nil first []) hone hrest
      (d.exponent + rest.length)
    have hall : Nat.ofDigitChars 10 ([first] ++ rest) 0 = d.digits := hvalue
    rwa [valueOf_eq_ofDigitChars, hall, Int.add_sub_cancel] at hread

/-! ## All decimals -/

/-- A text writes a pattern: it is read as a decimal that rounds to the pattern, it begins with a
digit, and neither a blank nor a closing parenthesis is in it. -/
structure Writes (text : List Char) (pattern : Nat) : Prop where
  reads : ∃ d, decimal? Text.decimalDigit? text = some d ∧ d.pattern = pattern
  starts : ∃ c rest, text = c :: rest ∧ c.isDigit
  closed : ∀ c ∈ text, c ≠ ' ' ∧ c ≠ ')'

/-- A digit is neither a blank nor a parenthesis. -/
theorem closed_of_isDigit {c : Char} (h : c.isDigit) : c ≠ ' ' ∧ c ≠ ')' := by
  refine ⟨?_, ?_⟩ <;> (rintro rfl; contradiction)

/-- A run writes the pattern of its decimal. -/
theorem IsRun.writes (h : IsRun text) : Writes text (ofRun text).pattern := by
  obtain ⟨c, run, rfl, hc⟩ := h.starts
  refine ⟨⟨_, ?_, rfl⟩, ⟨c, run, rfl, hc⟩, fun d hd => ?_⟩
  · have hchars : ∀ d ∈ run, d.isDigit ∨ d = '.' := (List.forall_mem_cons.1 h.chars).2
    rw [decimal?_run extendsPlain_decimalDigit? hc hchars, if_pos h.points]
  · rcases h.chars d hd with hdigit | rfl
    · exact closed_of_isDigit hdigit
    · decide

/-- A decimal that is written with a power of ten writes its pattern. -/
theorem writes_scientific (d : Decimal) : Writes (scientific .standard d d.lead) d.pattern := by
  obtain ⟨first, rest, middle, hchars, htext, _⟩ := scientific_eq d
  have hfirst : first.isDigit := by
    apply isDigit_of_mem_digitChars (n := d.digits)
    rw [hchars]
    exact List.mem_cons_self
  refine ⟨⟨d, decimal?_scientific d, rfl⟩, ⟨first, _, htext, hfirst⟩, ?_⟩
  exact forall_mem_scientific (fun c => closed_of_isDigit) (by decide) d

/-- Every decimal writes its pattern. -/
theorem writes_write (d : Decimal) : Writes (write .standard d) d.pattern := by
  rw [write]
  split
  · have hwrites := (isRun_positional d).writes
    rwa [pattern_ofRun_positional] at hwrites
  · exact writes_scientific d

end Criterion.Decimal
