import Criterion.Proofs.Rule.Evaluation
import Criterion.Proofs.Value.Supply
import Criterion.Session

/-!
# What a session remembers

A session is known from the commands that it has answered. The limits of an evaluator are those of
the latest command that made one of its name, and a rule comes from the latest command that compiled
a source to it, under the limits that its evaluator had then. What a session keeps is found again in
this way, so that every answer can be given from the past alone: a rule is run as its source is
evaluated, and a command that failed has left no trace.
-/

namespace Criterion.Session

/-- Where a rule comes from: a source, and the limits that it was compiled under. -/
structure Origin where
  limits : Limits
  source : String

/-- A rule is what its origin is compiled to. -/
def Origin.Yields (rule : Rule) (origin : Origin) : Prop :=
  (Rule.compile origin.limits origin.source).outcome = .ok rule

/-- The limits of an evaluator after some commands, the latest of which comes first. -/
def limitsIn (name : String) : (past : List Command) → Option Limits
  | [] => if name = "" then some .default else none
  | .evaluator other settings :: past =>
    match limitsOf settings with
    | .ok limits => if name = other then some limits else limitsIn name past
    | .error _ => limitsIn name past
  | _ :: past => limitsIn name past

/-- The origin of a rule after some commands, the latest of which comes first. -/
def originIn (name : String) : (past : List Command) → Option Origin
  | [] => none
  | .parse other evaluator source :: past =>
    match limitsIn evaluator past with
    | some limits =>
      match (Rule.compile limits source).outcome with
      | .ok _ => if name = other then some ⟨limits, source⟩ else originIn name past
      | .error _ => originIn name past
    | none => originIn name past
  | _ :: past => originIn name past

/-- Do what needs something that is remembered under a name. -/
def onRemembered {α β : Type} (name : String) (remembered : Option α) (action : α → Logged β) :
    Logged β :=
  match remembered with
  | some a => action a
  | none => .of (.error (.misuse (.unknownName name)))

/-- The answer to a command that is given from the past alone. A rule is not kept but compiled
again from its origin, and to run it is to evaluate its source. -/
def answerFrom (past : List Command) : Command → Logged Answer
  | .evaluator _ settings => (Logged.of (limitsOf settings)).map .limits
  | .parse _ evaluator source =>
    onRemembered evaluator (limitsIn evaluator past) fun limits =>
      (Rule.compile limits source).map .rule
  | .run rule supplied =>
    onRemembered rule (originIn rule past) fun origin =>
      (Criterion.evaluate origin.limits origin.source supplied).map .value
  | .show rule =>
    onRemembered rule (originIn rule past) fun origin =>
      (Logged.of (Rule.compile origin.limits origin.source).outcome).map .rule
  | .evaluate evaluator source supplied =>
    onRemembered evaluator (limitsIn evaluator past) fun limits =>
      (Criterion.evaluate limits source supplied).map .value
  | .condition evaluator source supplied =>
    onRemembered evaluator (limitsIn evaluator past) fun limits =>
      (holds limits source supplied).map .truth

/-- What a session keeps is what can be found in the past. -/
structure Remembers (past : List Command) (session : Session) : Prop where
  evaluators : ∀ name, session.evaluators.lookup name = limitsIn name past
  rules : ∀ name, Option.Rel Origin.Yields (session.rules.lookup name) (originIn name past)

variable {session : Session} {past commands : List Command} {command : Command} {failure : Failure}

/-! ## One command -/

/-- The latest of a name is found first. -/
theorem lookup_cons_eq {α : Type} (name other : String) (a : α) (kept : List (String × α)) :
    ((other, a) :: kept).lookup name = if name = other then some a else kept.lookup name := by
  rw [List.lookup_cons]
  by_cases h : name = other
  · rw [beq_iff_eq.2 h, if_pos h]
  · rw [beq_false_of_ne h, if_neg h]

/-- At the start there is nothing but the default evaluator. -/
theorem remembers_initial : Remembers [] initial where
  evaluators name := by
    rw [initial, lookup_cons_eq, limitsIn]
    rfl
  rules name := .none

/-- What is kept under a name is done as it is remembered. -/
theorem onFound_find {α β : Type} {kept : List (String × α)} {name : String} {remembered : Option α}
    (h : kept.lookup name = remembered) (action : α → Logged β) :
    onFound (find kept name) action = onRemembered name remembered action := by
  rw [find, h]
  cases remembered <;> rfl

/-- What is done with a rule is done with its origin. -/
theorem onFound_rule {β : Type} {name : String} {action : Rule → Logged β}
    {again : Origin → Logged β} (h : Remembers past session)
    (hagain : ∀ rule origin, Origin.Yields rule origin → action rule = again origin) :
    onFound (find session.rules name) action = onRemembered name (originIn name past) again := by
  have hrule := h.rules name
  rw [find]
  generalize session.rules.lookup name = kept at hrule
  generalize originIn name past = remembered at hrule
  cases hrule with
  | none => rfl
  | some hyields => exact hagain _ _ hyields

/-- A session answers from what it keeps as it would from its past. -/
theorem Remembers.answer_eq (h : Remembers past session) (command : Command) :
    session.answer command = answerFrom past command := by
  cases command with
  | evaluator name settings => rfl
  | parse name evaluator source => exact onFound_find (h.evaluators evaluator) _
  | run name supplied =>
    refine onFound_rule h fun rule origin hyields => ?_
    rw [evaluate_of_compile hyields]
  | «show» name =>
    refine onFound_rule h fun rule origin hyields => ?_
    rw [show (Rule.compile origin.limits origin.source).outcome = .ok rule from hyields]
    rfl
  | evaluate evaluator source supplied => exact onFound_find (h.evaluators evaluator) _
  | condition evaluator source supplied => exact onFound_find (h.evaluators evaluator) _

/-- A command that fails leaves the session as it is. -/
theorem after_of_failed (session : Session) (command : Command) (failure : Failure) :
    session.after command (.error failure) = session := by
  cases command <;> rfl

/-- A command adds itself to what is remembered. -/
theorem Remembers.step (h : Remembers past session) (command : Command) :
    Remembers (command :: past) (session.step command).1 := by
  change Remembers (command :: past) (session.after command (session.answer command).outcome)
  rw [h.answer_eq]
  cases command with
  | evaluator name settings =>
    refine ⟨fun other => ?_, ?_⟩
    · change (session.after (.evaluator name settings)
        ((limitsOf settings).map .limits)).evaluators.lookup other = _
      rw [limitsIn]
      cases limitsOf settings with
      | error failure => exact h.evaluators other
      | ok limits =>
        change ((name, limits) :: session.evaluators).lookup other = _
        rw [lookup_cons_eq, h.evaluators]
    · change ∀ other, Option.Rel _ ((session.after (.evaluator name settings)
        ((limitsOf settings).map .limits)).rules.lookup other) _
      cases limitsOf settings <;> exact h.rules
  | parse name evaluator source =>
    cases hlimits : limitsIn evaluator past with
    | none =>
      refine ⟨?_, fun other => ?_⟩
      · rw [answerFrom, hlimits]
        exact h.evaluators
      · rw [answerFrom, hlimits, originIn, hlimits]
        exact h.rules other
    | some limits =>
      have houtcome : (answerFrom past (.parse name evaluator source)).outcome =
          (Rule.compile limits source).outcome.map .rule := by
        rw [answerFrom, hlimits]
        rfl
      rw [houtcome]
      cases hcompile : (Rule.compile limits source).outcome with
      | error failure =>
        refine ⟨h.evaluators, fun other => ?_⟩
        simp only [originIn, hlimits, hcompile]
        exact h.rules other
      | ok rule =>
        refine ⟨h.evaluators, fun other => ?_⟩
        change Option.Rel _ (((name, rule) :: session.rules).lookup other) _
        simp only [originIn, hlimits, hcompile, lookup_cons_eq]
        split
        · exact .some hcompile
        · exact h.rules other
  | _ => exact ⟨h.evaluators, h.rules⟩

/-! ## All commands -/

/-- Every answer of a session is the one that its past calls for. -/
theorem Remembers.answers_getElem? (h : Remembers past session) (commands : List Command)
    (i : Nat) :
    (session.answers commands)[i]? =
      commands[i]?.map (answerFrom ((commands.take i).reverse ++ past)) := by
  induction commands generalizing session past i with
  | nil => rfl
  | cons command commands ih =>
    cases i with
    | zero => exact congrArg some (h.answer_eq command)
    | succ i =>
      rw [List.getElem?_cons_succ, List.take_succ_cons, List.reverse_cons, List.append_assoc]
      exact ih (h.step command) i

/-- Without a command that fails all other answers are the same. -/
theorem answers_eraseIdx_of_failed {i : Nat} {logged : Logged Answer}
    (h : (session.answers commands)[i]? = some logged) (hfailed : logged.outcome = .error failure) :
    session.answers (commands.eraseIdx i) = (session.answers commands).eraseIdx i := by
  induction commands generalizing session i with
  | nil => contradiction
  | cons command commands ih =>
    cases i with
    | zero =>
      cases h
      change session.answers commands =
        (session.after command (session.answer command).outcome).answers commands
      rw [show (session.answer command).outcome = .error failure from hfailed, after_of_failed]
    | succ i => exact congrArg (session.answer command :: ·) (ih h)

/-- To run a rule is to evaluate its source, in every history. A source that is compiled is
evaluated as its rule is run; one that is not compiled is not evaluated either, for the same cause
unless the variables are refused first. These are rejected as unsupported if the key to be reported
can be written, and fail for an integer of too many digits if not. Every answer of a session is the
one that its past calls for, where a rule is run as its source is evaluated under the limits that it
was compiled under; and a command that fails can be left out without a change to the other
answers. -/
theorem run_agrees_with_evaluate (limits : Limits) (source : String) (supplied : Datum)
    (commands : List Command) :
    (∀ rule, (Rule.compile limits source).outcome = .ok rule →
      Criterion.evaluate limits source supplied = .of (rule.run supplied)) ∧
    (∀ failure, (Rule.compile limits source).outcome = .error failure →
      (∀ env, Environment.ofDatum supplied = .ok env →
        Criterion.evaluate limits source supplied = .of (.error failure)) ∧
      ∀ unsupported, Environment.ofDatum supplied = .error unsupported →
        Criterion.evaluate limits source supplied = .of (.error unsupported) ∧
          (¬Environment.Unreportable supplied →
            ∃ key typeName, unsupported = .rejected ⟨.unsupportedVariable key typeName, none⟩) ∧
          (Environment.Unreportable supplied → unsupported = .misuse (.longInteger none))) ∧
    (∀ i, (initial.answers commands)[i]? =
      commands[i]?.map (answerFrom (commands.take i).reverse)) ∧
    ∀ i logged failure, (initial.answers commands)[i]? = some logged →
      logged.outcome = .error failure →
      initial.answers (commands.eraseIdx i) = (initial.answers commands).eraseIdx i := by
  refine ⟨fun rule hcompile => evaluate_of_compile hcompile supplied,
    fun failure hcompile => ⟨fun env henv => ?_, fun unsupported henv =>
      ⟨?_, Environment.rejected_of_ofDatum henv, fun hreport => ?_⟩⟩,
    fun i => ?_, fun i logged failure h hfailed => ?_⟩
  · rw [evaluate_of_not_compiled hcompile, henv]
  · rw [evaluate_of_not_compiled hcompile, henv]
  · rw [Environment.unreportable_iff.1 hreport] at henv
    cases henv
    rfl
  · rw [remembers_initial.answers_getElem?, List.append_nil]
  · exact answers_eraseIdx_of_failed h hfailed

/-- Limits of one level of nesting, as settings. -/
def flatSettings : Datum := .dictionary [(.text "max_depth", .integer 1)]

/-- An evaluator is replaced after it has compiled a rule, and fails to compile another one before
the rule is run. -/
def replacedEvaluator : List Command :=
  [.evaluator "e" (some flatSettings), .parse "r" "e" "!a", .evaluator "e" none,
    .parse "r" "e" "!", .run "r" (.dictionary [(.text "a", .boolean true)])]

/-- Variables of which one has a number for a name. -/
def numberedVariables : Datum := .dictionary [(.integer 7, .boolean true)]

/-- The rule is run as under the limits that are replaced by then, and the failure before that makes
no difference. The source that is not compiled fails in the same way when it is evaluated, and for a
key that is no name if there is one. -/
theorem replacedEvaluator_run :
    (∃ limits : Limits, limits.maxDepth = 1 ∧
      (initial.answers replacedEvaluator)[4]? = some ((Criterion.evaluate limits "!a"
        (.dictionary [(.text "a", .boolean true)])).map .value)) ∧
    (∃ logged failure, (initial.answers replacedEvaluator)[3]? = some logged ∧
      logged.outcome = .error failure ∧
      initial.answers (replacedEvaluator.eraseIdx 3) =
        (initial.answers replacedEvaluator).eraseIdx 3) ∧
    (∃ rule, (Rule.compile Limits.default "!a").outcome = .ok rule ∧
      Criterion.evaluate Limits.default "!a" .null = .of (rule.run .null)) ∧
    (∃ failure, (Rule.compile Limits.default "!").outcome = .error failure ∧
      Criterion.evaluate Limits.default "!" .null = .of (.error failure)) ∧
    ¬Environment.Unreportable numberedVariables ∧
    ∃ key typeName, Criterion.evaluate Limits.default "!" numberedVariables =
      .of (reject (.unsupportedVariable key typeName) none) := by
  obtain ⟨hrun, _, hanswers, herase⟩ :=
    run_agrees_with_evaluate .default "!a" .null replacedEvaluator
  obtain ⟨_, hfails, _, _⟩ := run_agrees_with_evaluate .default "!" .null []
  obtain ⟨_, hrefused, _, _⟩ := run_agrees_with_evaluate .default "!" numberedVariables []
  obtain ⟨hunsupported, hrejected, _⟩ := (hrefused _ rfl).2 _ rfl
  have hreport : ¬Environment.Unreportable numberedVariables := by
    rw [Environment.unreportable_iff]
    exact nofun
  refine ⟨⟨⟨1000, 1, by decide, by decide, by decide⟩, rfl, hanswers 4⟩, ?_,
    ⟨_, rfl, hrun _ rfl⟩, ⟨_, rfl, (hfails _ rfl).1 _ rfl⟩, hreport, ?_⟩
  · exact ⟨_, _, rfl, rfl, herase 3 _ _ rfl rfl⟩
  · obtain ⟨key, typeName, heq⟩ := hrejected hreport
    exact ⟨key, typeName, by rw [hunsupported, heq]; rfl⟩

/-- With an integer of too many digits for a key, a source that is not compiled fails neither for
its own cause nor as unsupported. -/
theorem unwrittenKey_unsupported :
    (∃ failure, (Rule.compile Limits.default "!").outcome = .error failure) ∧
      (∀ env, Environment.ofDatum (.dictionary [(.leastUnwritten, .integer 1)]) ≠ .ok env) ∧
      ¬∃ key typeName, (Criterion.evaluate Limits.default "!"
        (.dictionary [(.leastUnwritten, .integer 1)])).outcome =
          reject (.unsupportedVariable key typeName) none := by
  have henv := Environment.unreportable_iff.1
    (Environment.unreportable_leastUnwritten (.integer 1) [])
  rw [evaluate_of_refused henv, henv]
  refine ⟨⟨_, rfl⟩, fun env => nofun, ?_⟩
  rintro ⟨key, typeName, h⟩
  cases h

end Criterion.Session
