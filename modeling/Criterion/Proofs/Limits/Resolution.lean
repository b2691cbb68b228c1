import Criterion.Proofs.CommandLine.Failing

/-!
# The resolution of limits

Limits are resolved in a chain of steps: the default ones or those of a file are overridden from one
environment after another. Every chain comes to what one file and one environment come to, and
however limits are resolved, the parser accepts the depth that they set.
-/

namespace Criterion.Limits

/-- Limits that a chain of steps comes to. -/
inductive Resolved : Limits → Prop where
  | default : Resolved .default
  | file {file : Option String} {limits : Limits} (h : ofFile file = .ok limits) : Resolved limits
  | override {base limits : Limits} {environ : String → Option String} (hbase : Resolved base)
      (h : base.override environ = .ok limits) : Resolved limits

/-- No depth out of range is given to the parser on the way to an outcome. -/
def DepthAccepted {α : Type} (outcome : Except Failure α) : Prop :=
  ∀ given, outcome ≠ .error (.misuse (.depthOutOfRange given))

variable {limits : Limits}

/-- Every chain of steps comes to the limits of the command line for one file and one
environment. -/
theorem Resolved.exists_limitsFor (h : Resolved limits) :
    ∃ file environ, CommandLine.limitsFor (some file) environ = .ok limits := by
  suffices hfile : ∃ file base environ, ofFile file = .ok base ∧
      base.override environ = .ok limits by
    obtain ⟨file, base, environ, hbase, hlimits⟩ := hfile
    exact ⟨file, environ, (CommandLine.limitsFor_eq_override hbase environ).trans hlimits⟩
  induction h with
  | default => exact ⟨none, .default, emptyEnviron, rfl, rfl⟩
  | @file file limits h => exact ⟨file, limits, emptyEnviron, h, rfl⟩
  | @override base limits later _ h ih =>
    obtain ⟨file, first, earlier, hfile, hbase⟩ := ih
    exact ⟨file, first, overlaid earlier later, hfile, override_overlaid hbase h⟩

/-- What an expression and its variables fail with does not come of a depth out of range. -/
theorem depthAccepted_of_concernsExpression {α : Type} {outcome : Except Failure α}
    (h : ∀ {failure}, outcome = .error failure → failure.ConcernsExpression) :
    DepthAccepted outcome := by
  intro given houtcome
  nomatch h houtcome

/-- Limits are resolved one by one and stay valid. To override them fails by validation, exactly if
there is a text for the length or the depth that spells no integer in its range; otherwise each
limit becomes the integer that the text in its variable spells, or stays as it is where there is no
text. What a chain of steps comes to is in range, and one file and one environment come to it as
well; no evaluation, session or run of the program gives the parser a depth out of range. No other
entry of the environment has an effect, to override twice is to override once, and two environments
one after the other do what the later one on top of the other does. -/
theorem resolution_one_by_one (base : Limits) (environ : String → Option String) :
    ((∃ limits, base.override environ = .ok limits) ∨
      ∃ problems, base.override environ = .error (.invalid problems)) ∧
    ((∃ problems, base.override environ = .error (.invalid problems)) ↔
      (∃ text, environ lengthVariable = some text ∧ ¬Spells IsLength text) ∨
        ∃ text, environ depthVariable = some text ∧ ¬Spells IsDepth text) ∧
    (∀ limits, base.override environ = .ok limits ↔
      updated base.maxLength (environ lengthVariable) = some (limits.maxLength : Int) ∧
        updated base.maxDepth (environ depthVariable) = some (limits.maxDepth : Int)) ∧
    (∀ limits, Resolved limits → IsLength limits.maxLength ∧ IsDepth limits.maxDepth ∧
      ∃ file environ', CommandLine.limitsFor (some file) environ' = .ok limits) ∧
    (∀ limits source supplied, DepthAccepted (Expr.parse limits source) ∧
      DepthAccepted (Rule.compile limits source).outcome ∧
        DepthAccepted (evaluate limits source supplied).outcome ∧
          DepthAccepted (holds limits source supplied).outcome) ∧
    (∀ commands, ∀ logged ∈ Session.initial.answers commands, DepthAccepted logged.outcome) ∧
    (∀ textOfFile args screen given, CommandLine.run textOfFile environ args screen ≠
      .failed (.misuse (.depthOutOfRange given))) ∧
    (∀ environ', environ' lengthVariable = environ lengthVariable →
      environ' depthVariable = environ depthVariable →
        base.override environ' = base.override environ) ∧
    (base.override environ >>= fun limits => limits.override environ) = base.override environ ∧
    ∀ later limits final, base.override environ = .ok limits → limits.override later = .ok final →
      base.override (overlaid environ later) = .ok final := by
  refine ⟨?_, override_invalid_iff, fun limits => override_eq_ok_iff,
    fun limits hlimits => ⟨Int.ofNat_le.2 limits.one_le_maxLength, limits.maxDepth_inRange,
      hlimits.exists_limitsFor⟩,
    fun limits source supplied => ⟨?_, ?_, ?_, ?_⟩, fun commands logged hlogged given hfailed => ?_,
    fun textOfFile args screen given hfailed => ?_, fun environ' => override_congr,
    override_bind_override base environ, fun later limits final => override_overlaid⟩
  · cases h : base.override environ with
    | ok limits => exact .inl ⟨limits, rfl⟩
    | error failure =>
      obtain ⟨problems, rfl⟩ := invalid_of_override h
      exact .inr ⟨problems, rfl⟩
  · exact depthAccepted_of_concernsExpression fun h =>
      Rule.concernsExpression_of_compile (Rule.compile_eq_error_iff.2 h)
  · exact depthAccepted_of_concernsExpression Rule.concernsExpression_of_compile
  · exact depthAccepted_of_concernsExpression concernsExpression_of_evaluate
  · exact depthAccepted_of_concernsExpression concernsExpression_of_holds
  · nomatch Session.failsWith_of_mem hlogged hfailed
  · nomatch CommandLine.concernsFile_of_run hfailed

/-- An environment that holds a text for one variable. -/
def single (key text : String) : String → Option String :=
  fun name => if name = key then some text else none

/-- One environment sets the length and the next one the depth, as both on top of each other do. An
entry for neither of them changes nothing, and a rule that is not kept is not shown because of a
depth. -/
theorem lengthThenDepth_resolved :
    ∃ limits final : Limits, final.maxLength = 50 ∧ final.maxDepth = 7 ∧
      Limits.default.override (single lengthVariable " 5_0 ") = .ok limits ∧
      limits.override (single depthVariable "7") = .ok final ∧
      Limits.default.override
        (overlaid (single lengthVariable " 5_0 ") (single depthVariable "7")) = .ok final ∧
      Limits.default.override
        (overlaid (single lengthVariable " 5_0 ") (single "PATH" "7")) = .ok limits ∧
      (Resolved limits ∧ ∃ file environ, CommandLine.limitsFor (some file) environ = .ok limits) ∧
      ∃ logged, Session.initial.answers [.show "r"] = [logged] ∧ DepthAccepted logged.outcome := by
  obtain ⟨_, _, _, hresolved, _, hsession, _, hothers, _, htwo⟩ :=
    resolution_one_by_one .default (single lengthVariable " 5_0 ")
  have hfirst : Limits.default.override (single lengthVariable " 5_0 ") =
      .ok ⟨50, 100, by decide, by decide, by decide⟩ := rfl
  have hsecond : Limits.override ⟨50, 100, by decide, by decide, by decide⟩
      (single depthVariable "7") = .ok ⟨50, 7, by decide, by decide, by decide⟩ := rfl
  have hchain : Resolved ⟨50, 100, by decide, by decide, by decide⟩ :=
    .override .default hfirst
  exact ⟨_, _, rfl, rfl, hfirst, hsecond, htwo _ _ _ hfirst hsecond,
    (hothers _ rfl rfl).trans hfirst, ⟨hchain, (hresolved _ hchain).2.2⟩,
    _, rfl, hsession [.show "r"] _ List.mem_cons_self⟩

end Criterion.Limits
