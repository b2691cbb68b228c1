import Criterion.Decimal
import Mathlib.Data.List.TakeWhile

/-!
# Runs of digits and points

A run of digits and points that begins with a digit is a numeral exactly if it has at most one
point. All its digits together are then the digits of its decimal, and those after the point say
how far it is scaled down.
-/

namespace Criterion

/-- The decimal that a run of digits with at most one point writes. -/
def Decimal.ofRun (run : List Char) : Decimal :=
  ⟨Numeral.valueOf ((run.filter Char.isDigit).map fun c => c.toNat - 48),
    -(((run.dropWhile fun c => c != '.').length - 1 : Nat) : Int)⟩

namespace Numeral

/-- A class of digits has the plain digits with their values, but neither the point nor the
underscore. -/
structure ExtendsPlain (digit? : Char → Option Nat) : Prop where
  digit : ∀ c : Char, c.isDigit → digit? c = some (c.toNat - 48)
  point : digit? '.' = none

variable {digit? : Char → Option Nat} {c : Char} {run text whole part rest : List Char}

/-- The digits of all scripts extend the plain ones. -/
theorem extendsPlain_decimalDigit? : ExtendsPlain Text.decimalDigit? where
  digit c h := by
    have hrange : 48 ≤ c.toNat ∧ c.toNat ≤ 57 := Char.isDigit_iff_toNat.1 h
    obtain ⟨zeros, hzeros⟩ : ∃ zeros, Text.digitZeros = 48 :: zeros := ⟨_, rfl⟩
    have hfirst : (decide (48 ≤ c.toNat) && decide (c.toNat < 48 + 10)) = true := by
      rw [Bool.and_eq_true, decide_eq_true_eq, decide_eq_true_eq]
      omega
    simp only [Text.decimalDigit?, hzeros, List.find?_cons, hfirst, Option.map_some]
  point := by decide

/-! ## Digits -/

/-- A digit is none of the characters that mean something else in a numeral. -/
theorem ne_of_isDigit (h : c.isDigit) : c ≠ '_' ∧ c ≠ '.' ∧ c ≠ '-' ∧ c ≠ '+' := by
  refine ⟨?_, ?_, ?_, ?_⟩ <;> (rintro rfl; contradiction)

/-- A text at which a run of digits ends: it is empty or begins with a character that is neither a
digit nor an underscore. -/
def EndsDigits (digit? : Char → Option Nat) (rest : List Char) : Prop :=
  ∀ c ∈ rest.head?, c ≠ '_' ∧ digit? c = none

/-- The digits end with the text. -/
theorem endsDigits_nil : EndsDigits digit? [] := fun _ hc => by contradiction

/-- The digits end at a point. -/
theorem endsDigits_point (h : ExtendsPlain digit?) (rest : List Char) :
    EndsDigits digit? ('.' :: rest) := by
  rintro _ ⟨⟩
  exact ⟨by decide, h.point⟩

private theorem moreDigits_append (h : ExtendsPlain digit?) (hwhole : ∀ c ∈ whole, c.isDigit)
    (hrest : EndsDigits digit? rest) :
    moreDigits digit? (whole ++ rest) = (whole.map fun c => c.toNat - 48, rest) := by
  induction whole with
  | nil =>
      cases rest with
      | nil => rfl
      | cons c rest =>
        obtain ⟨hne, hc⟩ := hrest c rfl
        rw [List.nil_append, moreDigits.eq_3 digit? c rest fun _ _ he _ => hne he, hc]
        rfl
  | cons c whole ih =>
      obtain ⟨hc, hwhole⟩ := List.forall_mem_cons.1 hwhole
      have hne : ∀ d more, c = '_' → whole ++ rest = d :: more → False :=
        fun _ _ he _ => (ne_of_isDigit hc).1 he
      rw [List.cons_append, moreDigits.eq_3 digit? c _ hne, h.digit c hc, ih hwhole]
      rfl

private theorem digits_eq_moreDigits (h : ∀ c ∈ text.head?, c ≠ '_') :
    digits digit? text = moreDigits digit? text := by
  unfold digits
  split
  · exact absurd rfl (h '_' rfl)
  · rfl

/-- Digits at the front are read up to where they end. -/
theorem digits_append (h : ExtendsPlain digit?) (hwhole : ∀ c ∈ whole, c.isDigit)
    (hrest : EndsDigits digit? rest) :
    digits digit? (whole ++ rest) = (whole.map fun c => c.toNat - 48, rest) := by
  rw [← moreDigits_append h hwhole hrest]
  apply digits_eq_moreDigits
  intro c hc
  cases whole with
  | nil => exact (hrest c hc).1
  | cons d whole =>
      obtain rfl : d = c := Option.some.inj hc
      exact (ne_of_isDigit (hwhole d List.mem_cons_self)).1

/-! ## Unsigned numerals -/

/-- A run of digits without a point is its decimal. -/
theorem decimal?_of_digits (h : ExtendsPlain digit?) (hne : whole ≠ [])
    (hwhole : ∀ c ∈ whole, c.isDigit) :
    decimal? digit? whole = some ⟨valueOf (whole.map fun c => c.toNat - 48), 0⟩ := by
  have hdigits : digits digit? (whole ++ []) = (whole.map fun c => c.toNat - 48, []) :=
    digits_append h hwhole endsDigits_nil
  rw [List.append_nil] at hdigits
  simp [decimal?, hdigits, fraction, exponent?, hne]

/-- Digits with one point among or after them are its decimal. -/
theorem decimal?_of_point (h : ExtendsPlain digit?) (hne : whole ≠ [])
    (hwhole : ∀ c ∈ whole, c.isDigit) (hpart : ∀ c ∈ part, c.isDigit) :
    decimal? digit? (whole ++ '.' :: part) =
      some ⟨valueOf ((whole ++ part).map fun c => c.toNat - 48), -(part.length : Int)⟩ := by
  have hdigits : digits digit? (whole ++ '.' :: part) =
      (whole.map fun c => c.toNat - 48, '.' :: part) :=
    digits_append h hwhole (endsDigits_point h _)
  have hfraction : digits digit? (part ++ []) = (part.map fun c => c.toNat - 48, []) :=
    digits_append h hpart endsDigits_nil
  rw [List.append_nil] at hfraction
  simp [decimal?, hdigits, fraction, hfraction, exponent?, hne]

private theorem decimal?_of_points (h : ExtendsPlain digit?) (hwhole : ∀ c ∈ whole, c.isDigit)
    (hpart : ∀ c ∈ part, c.isDigit) :
    decimal? digit? (whole ++ '.' :: (part ++ '.' :: rest)) = none := by
  have hdigits : digits digit? (whole ++ '.' :: (part ++ '.' :: rest)) =
      (whole.map fun c => c.toNat - 48, '.' :: (part ++ '.' :: rest)) :=
    digits_append h hwhole (endsDigits_point h _)
  have hfraction : digits digit? (part ++ '.' :: rest) =
      (part.map fun c => c.toNat - 48, '.' :: rest) :=
    digits_append h hpart (endsDigits_point h _)
  have hexponent : exponent? digit? ('.' :: rest) = none := by
    have hpoint : '.'.toLower ≠ 'e' := by decide
    simp only [exponent?, if_neg hpoint]
    split <;> rfl
  simp [decimal?, hdigits, fraction, hfraction, hexponent]

/-! ## Whole runs -/

/-- Digits alone are their own decimal. -/
theorem ofRun_of_digits (hwhole : ∀ c ∈ whole, c.isDigit) :
    Decimal.ofRun whole = ⟨valueOf (whole.map fun c => c.toNat - 48), 0⟩ := by
  have hdrop : whole.dropWhile (fun c => c != '.') = [] := by
    rw [List.dropWhile_eq_nil_iff]
    intro c hc
    exact bne_iff_ne.2 (ne_of_isDigit (hwhole c hc)).2.1
  rw [Decimal.ofRun, List.filter_eq_self.2 hwhole, hdrop]
  rfl

/-- A point scales a decimal down by the digits after it. -/
theorem ofRun_of_point (hwhole : ∀ c ∈ whole, c.isDigit) (hpart : ∀ c ∈ part, c.isDigit) :
    Decimal.ofRun (whole ++ '.' :: part) =
      ⟨valueOf ((whole ++ part).map fun c => c.toNat - 48), -(part.length : Int)⟩ := by
  have hfilter : (whole ++ '.' :: part).filter Char.isDigit = whole ++ part := by
    rw [List.filter_append, List.filter_cons_of_neg (by decide), List.filter_eq_self.2 hwhole,
      List.filter_eq_self.2 hpart]
  have hdrop : (whole ++ '.' :: part).dropWhile (fun c => c != '.') = '.' :: part := by
    have hbefore : ∀ c ∈ whole, (c != '.') = true := by
      intro c hc
      exact bne_iff_ne.2 (ne_of_isDigit (hwhole c hc)).2.1
    rw [List.dropWhile_append_of_pos hbefore, List.dropWhile_cons_of_neg (by decide)]
  rw [Decimal.ofRun, hfilter, hdrop, List.length_cons, Nat.add_sub_cancel]

/-- Digits hold no point. -/
theorem count_point_of_digits (hwhole : ∀ c ∈ whole, c.isDigit) : whole.count '.' = 0 := by
  rw [List.count_eq_zero]
  intro hmem
  exact (ne_of_isDigit (hwhole '.' hmem)).2.1 rfl

/-- Digits and points are digits alone, or digits before a first point. -/
theorem digits_or_point (h : ∀ c ∈ text, c.isDigit ∨ c = '.') :
    (∀ c ∈ text, c.isDigit) ∨
      ∃ whole rest, text = whole ++ '.' :: rest ∧ ∀ c ∈ whole, c.isDigit := by
  by_cases hpoint : '.' ∈ text
  · obtain ⟨whole, rest, rfl, hwhole⟩ := List.eq_append_cons_of_mem hpoint
    refine .inr ⟨whole, rest, rfl, ?_⟩
    intro c hc
    rcases h c (List.mem_append_left _ hc) with hdigit | rfl
    · exact hdigit
    · contradiction
  · refine .inl ?_
    intro c hc
    rcases h c hc with hdigit | rfl
    · exact hdigit
    · contradiction

/-- A run that begins with a digit is an unsigned numeral exactly if it has at most one point. -/
theorem decimal?_run (h : ExtendsPlain digit?) (hc : c.isDigit)
    (hrun : ∀ d ∈ run, d.isDigit ∨ d = '.') :
    decimal? digit? (c :: run) =
      if (c :: run).count '.' ≤ 1 then some (Decimal.ofRun (c :: run)) else none := by
  have htext : ∀ d ∈ c :: run, d.isDigit ∨ d = '.' :=
    List.forall_mem_cons.2 ⟨.inl hc, hrun⟩
  rcases digits_or_point htext with hwhole | ⟨whole, rest, hsplit, hwhole⟩
  · rw [decimal?_of_digits h (List.cons_ne_nil c run) hwhole, ofRun_of_digits hwhole,
      count_point_of_digits hwhole, if_pos (Nat.zero_le 1)]
  -- The run begins with a digit, so there is one before the point.
  have hne : whole ≠ [] := by
    rintro rfl
    obtain ⟨rfl, _⟩ := List.cons.inj hsplit
    exact (ne_of_isDigit hc).2.1 rfl
  rw [hsplit] at htext ⊢
  have hrest : ∀ d ∈ rest, d.isDigit ∨ d = '.' := fun d hd =>
    htext d (List.mem_append_right _ (List.mem_cons_of_mem _ hd))
  rcases digits_or_point hrest with hpart | ⟨part, more, rfl, hpart⟩
  · have hcount : (whole ++ '.' :: rest).count '.' = 1 := by
      simp [count_point_of_digits hwhole, count_point_of_digits hpart]
    rw [decimal?_of_point h hne hwhole hpart, ofRun_of_point hwhole hpart, hcount,
      if_pos (Nat.le_refl 1)]
  · have hcount : ¬ (whole ++ '.' :: (part ++ '.' :: more)).count '.' ≤ 1 := by
      simp [count_point_of_digits hwhole, count_point_of_digits hpart]
    rw [decimal?_of_points h hwhole hpart, if_neg hcount]

/-! ## The double of a run -/

/-- A text without characters of a class is not trimmed. -/
theorem trim_eq_self {drops : Char → Bool} (h : ∀ c ∈ text, drops c = false) :
    Text.trim drops text = text := by
  have hfront : text.dropWhile drops = text := by
    rw [List.dropWhile_eq_self_iff]
    intro hl
    rw [h _ (List.getElem_mem hl)]
    decide
  have hback : text.reverse.dropWhile drops = text.reverse := by
    rw [List.dropWhile_eq_self_iff]
    intro hl
    rw [h _ (List.mem_reverse.1 (List.getElem_mem hl))]
    decide
  rw [Text.trim, hfront, hback, List.reverse_reverse]

private theorem isBlank_eq_false (h : c.isDigit ∨ c = '.') : Text.isBlank c = false := by
  have hrange : 46 ≤ c.toNat ∧ c.toNat ≤ 57 := by
    rcases h with hdigit | rfl
    · have hdigit : 48 ≤ c.toNat ∧ c.toNat ≤ 57 := Char.isDigit_iff_toNat.1 hdigit
      omega
    · decide
  simp only [Text.isBlank, Bool.or_eq_false_iff, Bool.and_eq_false_iff, decide_eq_false_iff_not,
    beq_eq_false_iff_ne]
  omega

private theorem toLower_of_isDigit (h : c.isDigit) : c.toLower = c := by
  have hrange : 48 ≤ c.toNat ∧ c.toNat ≤ 57 := Char.isDigit_iff_toNat.1 h
  have hupper : ¬ (c.val ≥ 'A'.val ∧ c.val ≤ 'Z'.val) := by
    rintro ⟨hle, _⟩
    have hle : 65 ≤ c.toNat := hle
    omega
  exact dif_neg hupper

/-- What begins with a digit is no word for a special value, in any case. -/
theorem lowered_ne {d : Char} {tail : List Char} (hc : c.isDigit) (hd : d.isDigit = false) :
    String.ofList ((c :: run).map Char.toLower) ≠ String.ofList (d :: tail) := by
  intro he
  have hlist := String.ofList_inj.1 he
  rw [List.map_cons, toLower_of_isDigit hc] at hlist
  obtain ⟨rfl, _⟩ := List.cons.inj hlist
  rw [hc] at hd
  contradiction

/-- What begins with a digit has no sign. -/
theorem sign_of_isDigit (hc : c.isDigit) : sign (c :: run) = (false, c :: run) := by
  obtain ⟨_, _, hminus, hplus⟩ := ne_of_isDigit hc
  simp [sign, hminus, hplus]

/-- What begins with a digit behind its sign is no word. -/
theorem parse?_of_sign {negative : Bool} (hsign : sign text = (negative, c :: run))
    (hc : c.isDigit) :
    parse? digit? text = (decimal? digit? (c :: run)).map (finite negative) := by
  have hnan : String.ofList ((c :: run).map Char.toLower) ≠ "nan" := lowered_ne hc rfl
  have hinf : String.ofList ((c :: run).map Char.toLower) ≠ "inf" := lowered_ne hc rfl
  have hinfinity : String.ofList ((c :: run).map Char.toLower) ≠ "infinity" := lowered_ne hc rfl
  simp only [parse?, hsign, hnan, hinf, hinfinity, decide_false, Bool.or_self,
    Bool.false_eq_true, ite_false]

private theorem parse?_of_isDigit (hc : c.isDigit) :
    parse? digit? (c :: run) = (decimal? digit? (c :: run)).map (finite false) :=
  parse?_of_sign (sign_of_isDigit hc) hc

/-- A run that begins with a digit is read exactly if it has at most one point, as the double
nearest to its decimal. -/
theorem readFloat?_run (hc : c.isDigit) (hrun : ∀ d ∈ run, d.isDigit ∨ d = '.') :
    readFloat? (c :: run) =
      if (c :: run).count '.' ≤ 1 then some ((Decimal.ofRun (c :: run)).toFloat false)
      else none := by
  have htrim : Text.trim Text.isBlank (c :: run) = c :: run := by
    apply trim_eq_self
    intro d hd
    exact isBlank_eq_false (List.forall_mem_cons.2 ⟨.inl hc, hrun⟩ d hd)
  rw [readFloat?, htrim, parse?_of_isDigit hc, decimal?_run extendsPlain_decimalDigit? hc hrun]
  split <;> rfl

end Numeral

end Criterion
