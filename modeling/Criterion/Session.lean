import Criterion.Limits.Basic
import Criterion.Rule

/-!
# Sessions

A session keeps evaluators, each bound to its limits, and rules under names. The evaluator without
a name has the default limits. A command that fails leaves the session as it is.
-/

namespace Criterion

/-- Named evaluators and named rules. The latest of a name comes first. -/
structure Session where
  evaluators : List (String × Limits)
  rules : List (String × Rule)

namespace Session

/-- The session at the start. -/
def initial : Session := ⟨[("", .default)], []⟩

/-- What can be asked of a session. -/
inductive Command where
  /-- Make an evaluator with the limits of some settings, or with the default ones. -/
  | evaluator (name : String) (settings : Option Datum)
  /-- Compile a source to a rule. -/
  | parse (name evaluator source : String)
  /-- Run a rule. -/
  | run (rule : String) (supplied : Datum)
  /-- Show a rule. -/
  | show (rule : String)
  /-- Evaluate a source. -/
  | evaluate (evaluator source : String) (supplied : Datum)
  /-- Test a condition. -/
  | condition (evaluator source : String) (supplied : Datum)

/-- What a session answers. -/
inductive Answer where
  | limits (limits : Limits)
  | rule (rule : Rule)
  | value (v : Value)
  | truth (b : Bool)

/-- What is kept under a name. -/
def find {α : Type} (kept : List (String × α)) (name : String) : Except Failure α :=
  match kept.lookup name with
  | some a => .ok a
  | none => .error (.misuse (.unknownName name))

/-- Limits from optional settings. -/
def limitsOf : Option Datum → Except Failure Limits
  | none => .ok .default
  | some settings => Limits.ofSettings settings

/-- Do what needs something that is kept. -/
def onFound {α β : Type} (found : Except Failure α) (action : α → Logged β) : Logged β :=
  match found with
  | .ok a => action a
  | .error failure => .of (.error failure)

/-- The answer to a command. -/
def answer (session : Session) : Command → Logged Answer
  | .evaluator _ settings => (Logged.of (limitsOf settings)).map .limits
  | .parse _ evaluator source =>
    onFound (find session.evaluators evaluator) fun limits =>
      (Rule.compile limits source).map .rule
  | .run rule supplied =>
    onFound (find session.rules rule) fun rule => (Logged.of (rule.run supplied)).map .value
  | .show rule => onFound (find session.rules rule) fun rule => .of (.ok (.rule rule))
  | .evaluate evaluator source supplied =>
    onFound (find session.evaluators evaluator) fun limits =>
      (Criterion.evaluate limits source supplied).map .value
  | .condition evaluator source supplied =>
    onFound (find session.evaluators evaluator) fun limits =>
      (holds limits source supplied).map .truth

/-- The session after a command and its answer. -/
def after (session : Session) : Command → Except Failure Answer → Session
  | .evaluator name _, .ok (.limits limits) =>
    { session with evaluators := (name, limits) :: session.evaluators }
  | .parse name _ _, .ok (.rule rule) => { session with rules := (name, rule) :: session.rules }
  | _, _ => session

/-- Answer a command and go on. -/
def step (session : Session) (command : Command) : Session × Logged Answer :=
  let logged := session.answer command
  (session.after command logged.outcome, logged)

/-- The answers to a list of commands. -/
def answers (session : Session) : List Command → List (Logged Answer)
  | [] => []
  | command :: commands =>
    let (session, logged) := session.step command
    logged :: answers session commands

end Session

end Criterion
