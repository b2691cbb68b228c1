import Criterion.CommandLine.Basic
import Criterion.Proofs.CommandLine.LastBinding
import Criterion.Proofs.Limits.File
import Criterion.Proofs.Limits.Override
import Criterion.Proofs.Rule.Outcome
import Criterion.Session

/-!
# What escapes to the user

Limits in hand, expressions are only ever rejected, unless a key among their variables cannot be
written. Whatever else a session answers with comes of settings or of a name that is not kept, and
what the program does not report itself comes of its limits file, since the keys of its variables
are names.
-/

namespace Criterion

variable {source : String} {failure : Failure}

/-- To change what succeeds makes no other failure. -/
theorem Logged.outcome_map_eq_error_iff {α β : Type} {f : α → β} {logged : Logged α} :
    (logged.map f).outcome = .error failure ↔ logged.outcome = .error failure := by
  obtain ⟨outcome, records⟩ := logged
  cases outcome with
  | ok a => exact iff_of_false nofun nofun
  | error failure' =>
    change (Except.error failure' : Except Failure β) = _ ↔ _
    rw [Except.error.injEq, Except.error.injEq]

/-! ## Sessions -/

namespace Session

variable {session : Session} {command : Command} {commands : List Command}

/-- The failures that a session answers with. -/
inductive FailsWith : Failure → Prop where
  | rejected {e : Rejection} (he : e.cause.IsSpecific) : FailsWith (.rejected e)
  | invalid (problems : List Problem) : FailsWith (.invalid problems)
  | unknownName (name : String) : FailsWith (.misuse (.unknownName name))
  | unwritten : FailsWith (.misuse (.longInteger none))

theorem failsWith_of_concernsExpression (h : failure.ConcernsExpression) : FailsWith failure := by
  cases h with
  | rejected he => exact .rejected he
  | unwritten => exact .unwritten

/-- What is done with something that is kept fails as it does, or for want of it. -/
theorem failsWith_of_onFound {α β : Type} {kept : List (String × α)} {name : String}
    {action : α → Logged β} (h : (onFound (find kept name) action).outcome = .error failure)
    (haction : ∀ a, (action a).outcome = .error failure → failure.ConcernsExpression) :
    FailsWith failure := by
  rw [find] at h
  cases hkept : kept.lookup name with
  | none =>
    rw [hkept] at h
    cases h
    exact .unknownName name
  | some a =>
    rw [hkept] at h
    exact failsWith_of_concernsExpression (haction a h)

/-- The failures of one answer. -/
theorem failsWith_of_answer (h : (session.answer command).outcome = .error failure) :
    FailsWith failure := by
  cases command with
  | evaluator name settings =>
    have h := Logged.outcome_map_eq_error_iff.1 h
    cases settings with
    | none => contradiction
    | some settings =>
      obtain ⟨problems, rfl⟩ := Limits.invalid_of_ofSettings h
      exact .invalid problems
  | parse name evaluator source =>
    exact failsWith_of_onFound h fun limits hcompile =>
      Rule.concernsExpression_of_compile (Logged.outcome_map_eq_error_iff.1 hcompile)
  | run rule supplied =>
    exact failsWith_of_onFound h fun rule hrun =>
      Rule.concernsExpression_of_run (Logged.outcome_map_eq_error_iff.1 hrun)
  | «show» rule => exact failsWith_of_onFound h fun rule => nofun
  | evaluate evaluator source supplied =>
    exact failsWith_of_onFound h fun limits hevaluate =>
      concernsExpression_of_evaluate (Logged.outcome_map_eq_error_iff.1 hevaluate)
  | condition evaluator source supplied =>
    exact failsWith_of_onFound h fun limits hcondition =>
      concernsExpression_of_holds (Logged.outcome_map_eq_error_iff.1 hcondition)

/-- Every answer is given by the session as it is at the time. -/
theorem exists_answer_of_mem {logged : Logged Answer} (h : logged ∈ session.answers commands) :
    ∃ (session' : Session) (command : Command), logged = session'.answer command := by
  induction commands generalizing session with
  | nil => contradiction
  | cons command commands ih =>
    rcases List.mem_cons.1 h with rfl | h
    · exact ⟨session, command, rfl⟩
    · exact ih h

/-- The failures of a session, whatever it keeps and is asked. -/
theorem failsWith_of_mem {logged : Logged Answer} (h : logged ∈ session.answers commands)
    (hfailed : logged.outcome = .error failure) : FailsWith failure := by
  obtain ⟨session', command, rfl⟩ := exists_answer_of_mem h
  exact failsWith_of_answer hfailed

end Session

/-! ## The program -/

namespace CommandLine

variable {screen : String → String}

/-- A command that is only rejected comes to an end. -/
theorem conclude_ne_failed {α : Type} {logged : Logged α} {render : α → String}
    (h : ∀ {failure}, logged.outcome = .error failure →
      ∃ e, failure = .rejected e ∧ e.cause.IsSpecific) :
    conclude screen source logged render ≠ .failed failure := by
  rw [conclude]
  cases houtcome : logged.outcome with
  | ok a => exact nofun
  | error failure' =>
    obtain ⟨e, rfl, _⟩ := h houtcome
    exact nofun

/-- Limits in hand, no failure escapes a command. -/
theorem Command.run_ne_failed (cmd : Command) (limits : Limits) (args : List String)
    (failure : Failure) : cmd.run screen limits args ≠ .failed failure := by
  unfold run
  split
  · exact nofun
  · cases cmd with
    | eval =>
      change runEval .. ≠ _
      unfold runEval
      split
      · exact nofun
      · exact conclude_ne_failed (exists_rejection_of_evaluate (not_unreportable_toDatum _))
    | check => exact conclude_ne_failed Rule.exists_rejection_of_compile
    | tokens =>
      exact conclude_ne_failed fun h => (Token.reportedAt_of_ofSource h).exists_rejection
  · exact nofun
  · exact nofun

/-- The limits of a file are overridden from the environment. -/
theorem limitsFor_eq_override {file : Option String} {base : Limits}
    (h : Limits.ofFile file = .ok base) (environ : String → Option String) :
    limitsFor (some file) environ = base.override environ := by
  simp only [limitsFor, h, bind, Except.bind]

theorem limitsFor_eq_error {file : Option String} (h : Limits.ofFile file = .error failure)
    (environ : String → Option String) : limitsFor (some file) environ = .error failure := by
  simp only [limitsFor, h, bind, Except.bind]

/-- Limits fail as their file does, or by the validation of the overrides. -/
theorem concernsFile_of_limitsFor {config : Option (Option String)}
    {environ : String → Option String} (h : limitsFor config environ = .error failure) :
    failure.ConcernsFile := by
  have hoverride {base : Limits} (h : base.override environ = .error failure) :
      failure.ConcernsFile := by
    obtain ⟨problems, rfl⟩ := Limits.invalid_of_override h
    exact .invalid problems
  cases config with
  | none => exact hoverride h
  | some file =>
    cases hfile : Limits.ofFile file with
    | ok base =>
      rw [limitsFor_eq_override hfile] at h
      exact hoverride h
    | error failure' =>
      rw [limitsFor_eq_error hfile] at h
      cases h
      exact Limits.concernsFile_of_ofFile hfile

variable {textOfFile environ : String → Option String} {args rest : List String}
  {config : Option String} {verbose : Bool} {cmd : Command} {limits : Limits}

/-- Limits in hand, the command is run. -/
theorem run_of_limitsFor (hargs : Invocation.ofArguments args = .command config verbose cmd rest)
    (hlimits : limitsFor (config.map textOfFile) environ = .ok limits) :
    run textOfFile environ args screen = cmd.run screen limits rest := by
  simp only [run, hargs, hlimits]

/-- Limits that are not valid, and a file that is no document, are reported as a wrong call is. -/
theorem exists_usage_of_isReported
    (hargs : Invocation.ofArguments args = .command config verbose cmd rest)
    (hlimits : limitsFor (config.map textOfFile) environ = .error failure)
    (hreported : failure.IsReported) :
    ∃ message, run textOfFile environ args screen = .usage message := by
  simp only [run, hargs, hlimits]
  cases hreported with
  | invalid problems => exact ⟨_, rfl⟩
  | malformed => exact ⟨_, rfl⟩

/-- Any other failure to get limits escapes. -/
theorem run_eq_failed (hargs : Invocation.ofArguments args = .command config verbose cmd rest)
    (hlimits : limitsFor (config.map textOfFile) environ = .error failure)
    (hescapes : ¬failure.IsReported) : run textOfFile environ args screen = .failed failure := by
  cases failure with
  | invalid problems => exact absurd (.invalid problems) hescapes
  | malformedDocument => exact absurd .malformed hescapes
  | _ => simp only [run, hargs, hlimits]

/-- What escapes the program concerns its limits file. -/
theorem concernsFile_of_run (h : run textOfFile environ args screen = .failed failure) :
    failure.ConcernsFile := by
  unfold run at h
  split at h
  · contradiction
  · contradiction
  · split at h
    · exact absurd h (Command.run_ne_failed _ _ _ _)
    · contradiction
    · contradiction
    · rename_i hlimits
      cases h
      exact concernsFile_of_limitsFor hlimits

end CommandLine

end Criterion
