import Criterion.Proofs.Expr.DepthLimit
import Criterion.Proofs.Rule.Evaluation
import Criterion.Proofs.Value.Supply

/-!
# Limits only cut off

A limit that is raised admits more sources and changes nothing else: what does not fail for its
length or its depth has the same tree, value or failure, at the same position, and leaves the same
records under all higher limits.
-/

namespace Criterion

/-- A failure for which a limit is responsible. -/
inductive Limits.CutOff (limits : Limits) (source : String) : Failure → Prop where
  | length : CutOff limits source (.rejected ⟨.tooLong source.length limits.maxLength, none⟩)
  | depth (pos : Int) : CutOff limits source (.rejected ⟨.tooDeep limits.maxDepth, some pos⟩)

variable {limits limits' : Limits}

/-- Under raised limits a source has the same tree or the same failure, unless it was cut off. -/
theorem Expr.parse_raised (hlength : limits.maxLength ≤ limits'.maxLength)
    (hdepth : limits.maxDepth ≤ limits'.maxDepth) (source : String) :
    (∃ failure, Expr.parse limits source = .error failure ∧ limits.CutOff source failure) ∨
      Expr.parse limits source = Expr.parse limits' source := by
  rw [Expr.parse, Expr.parse, Expr.ofSource, Expr.ofSource]
  by_cases hlong : limits.maxLength < source.length
  · rw [Token.ofSource, if_pos (by omega)]
    exact .inl ⟨_, rfl, .length⟩
  · have hlexed : Token.ofSource source limits.maxLength =
        Token.ofSource source limits'.maxLength := by
      rw [Token.ofSource, Token.ofSource, if_neg (by omega), if_neg (by omega)]
    rw [hlexed]
    cases Token.ofSource source limits'.maxLength with
    | error failure => exact .inr rfl
    | ok tokens =>
      rcases Expr.ofTokens_agrees limits.maxDepth_inRange.1 (Int.ofNat_le.2 hdepth)
        limits'.maxDepth_inRange.2 tokens with ⟨pos, hdeep⟩ | hsame
      · exact .inl ⟨_, hdeep, .depth pos⟩
      · exact .inr hsame

/-- Raising limits only admits more. Every outcome of a source, compiled or evaluated, is a failure
for which the lower limits are responsible or is the outcome under the higher ones; and every stream
of tokens is refused for the lower depth or has the same outcome under every higher one. -/
theorem raised_limits_admit (hlength : limits.maxLength ≤ limits'.maxLength)
    (hdepth : limits.maxDepth ≤ limits'.maxDepth) (source : String) :
    ((∃ failure, (Rule.compile limits source).outcome = .error failure ∧
        limits.CutOff source failure) ∨
      Rule.compile limits source = Rule.compile limits' source) ∧
    (∀ supplied, (∃ failure, (evaluate limits source supplied).outcome = .error failure ∧
        limits.CutOff source failure) ∨
      evaluate limits source supplied = evaluate limits' source supplied) ∧
    ∀ tokens (maxDepth maxDepth' : Int), 1 ≤ maxDepth → maxDepth ≤ maxDepth' →
      maxDepth' ≤ deepestLimit →
      (∃ pos, Expr.ofTokens tokens maxDepth = reject (.tooDeep maxDepth) (some pos)) ∨
        Expr.ofTokens tokens maxDepth = Expr.ofTokens tokens maxDepth' := by
  refine ⟨?_, fun supplied => ?_, fun tokens maxDepth maxDepth' hpos hraised hle =>
    Expr.ofTokens_agrees hpos hraised hle tokens⟩
  · rcases Expr.parse_raised hlength hdepth source with ⟨failure, hparse, hcut⟩ | hsame
    · exact .inl ⟨failure, Rule.compile_eq_error_iff.2 hparse, hcut⟩
    · exact .inr (by rw [Rule.compile, Rule.compile, hsame])
  · rcases Expr.parse_raised hlength hdepth source with ⟨failure, hparse, hcut⟩ | hsame
    · rw [evaluate_of_not_compiled (Rule.compile_eq_error_iff.2 hparse)]
      cases henv : Environment.ofDatum supplied with
      | ok env => exact .inl ⟨failure, rfl, hcut⟩
      | error unsupported =>
        -- The variables are rejected under all limits.
        refine .inr ?_
        rw [evaluate, henv]
        rfl
    · exact .inr (by rw [evaluate, evaluate, hsame])

/-- A depth of a single level. -/
def Limits.shallowDepth : Nat := 1

private theorem Limits.one_le_shallowDepth : 1 ≤ shallowDepth := by decide

private theorem Limits.shallowDepth_le : shallowDepth ≤ deepestLimit := by decide

/-- Limits that leave room for a single level of nesting. -/
def Limits.shallow : Limits where
  maxLength := Limits.defaultLength
  maxDepth := Limits.shallowDepth
  one_le_maxLength := Limits.one_le_defaultLength
  one_le_maxDepth := Limits.one_le_shallowDepth
  maxDepth_le := Limits.shallowDepth_le

/-- A second negation is cut off at a single level and compiled at more. A variable too many is the
same fault under both limits, and so is, for the parser by itself, an operand that is missing. -/
theorem shallow_limits_admit :
    Limits.shallow.maxLength ≤ Limits.default.maxLength ∧
      Limits.shallow.maxDepth ≤ Limits.default.maxDepth ∧
      (∃ failure, (Rule.compile Limits.shallow "!!a").outcome = .error failure ∧
        Limits.shallow.CutOff "!!a" failure) ∧
      (∀ supplied, evaluate Limits.shallow "!a b" supplied =
        evaluate Limits.default "!a b" supplied) ∧
      (1 : Int) ≤ 1 ∧ (1 : Int) ≤ 2 ∧ (2 : Int) ≤ deepestLimit ∧
      Expr.ofTokens [⟨.operator, .text "!", 0⟩, ⟨.eof, .text "", 1⟩] 1 =
        Expr.ofTokens [⟨.operator, .text "!", 0⟩, ⟨.eof, .text "", 1⟩] 2 := by
  have hlength : Limits.shallow.maxLength ≤ Limits.default.maxLength := by decide
  have hdepth : Limits.shallow.maxDepth ≤ Limits.default.maxDepth := by decide
  obtain ⟨hnegations, _, htokens⟩ := raised_limits_admit hlength hdepth "!!a"
  obtain ⟨_, htrailing, _⟩ := raised_limits_admit hlength hdepth "!a b"
  refine ⟨hlength, hdepth, hnegations.resolve_right fun hsame => ?_, fun supplied => ?_,
    Int.le_refl 1, by decide, by decide, ?_⟩
  · have hcompiled : (Rule.compile Limits.default "!!a").outcome =
        .ok ⟨"!!a", .unary .not (.unary .not (.ident "a"))⟩ := rfl
    rw [← hsame] at hcompiled
    contradiction
  · refine (htrailing supplied).resolve_left ?_
    rintro ⟨failure, hfails, hcut⟩
    have hparse : (Rule.compile Limits.shallow "!a b").outcome =
        reject (.trailingTokens (Token.mk .ident (.text "b") 3).describe) (some 3) := rfl
    rw [evaluate_of_not_compiled hparse] at hfails
    cases henv : Environment.ofDatum supplied with
    | ok env =>
      rw [henv] at hfails
      cases hfails
      contradiction
    | error unsupported =>
      rw [henv] at hfails
      cases hfails
      obtain ⟨key, typeName, rfl⟩ | rfl := Environment.ofDatum_eq_error_cases henv
      · contradiction
      · contradiction
  · refine (htokens [⟨.operator, .text "!", 0⟩, ⟨.eof, .text "", 1⟩] 1 2 (Int.le_refl 1) (by decide)
      (by decide)).resolve_left ?_
    rintro ⟨pos, hdeep⟩
    have hfault : Expr.ofTokens [⟨.operator, .text "!", 0⟩, ⟨.eof, .text "", 1⟩] 1 =
        reject (.unexpectedToken "number, boolean, identifier or '('"
          (Token.mk .eof (.text "") 1).describe) (some 1) := rfl
    rw [hfault] at hdeep
    cases hdeep

end Criterion
