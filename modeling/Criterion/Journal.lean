import Criterion.Failure.Basic

/-!
# What is recorded

Some operations leave records. A blocked identifier is recorded with its name, which the message of
its rejection keeps back; a compiled expression is recorded with its variables; a condition that is
rejected is recorded because its caller only learns that it does not hold.
-/

namespace Criterion

/-- How serious a record is. -/
inductive Level where
  | debug
  | warning
  deriving DecidableEq, Repr

/-- The word for a level. -/
def Level.name : Level → String
  | debug => "DEBUG"
  | warning => "WARNING"

/-- A record, with the part of the program that made it. -/
structure Record where
  level : Level
  origin : String
  message : String
  deriving DecidableEq, Repr

namespace Record

/-- The origin of the lexer's records. -/
def lexerOrigin : String := "safecond.core.expression_lang.tokenizer"

/-- The origin of the records of rules and conditions. -/
def ruleOrigin : String := "safecond.api"

/-- The record of a blocked identifier. -/
def blocked (name : String) (pos : Int) : Record :=
  ⟨.debug, lexerOrigin,
    "Rejected blocked identifier " ++ Text.quoted name ++ " at " ++ toString pos⟩

/-- The record of a compiled expression. -/
def compiled (length : Nat) (names : List String) : Record :=
  ⟨.debug, ruleOrigin,
    "Compiled expression (" ++ toString length ++ " chars, variables="
      ++ (Datum.list (names.map .text)).literal ++ ")"⟩

/-- The record of a rejected condition. -/
def rejected (e : Rejection) : Record :=
  ⟨.warning, ruleOrigin, "Condition rejected: " ++ e.cause.label ++ ": " ++ e.message⟩

/-- The records that come with a failure: only a blocked identifier leaves one. -/
def ofFailure : Failure → List Record
  | .rejected ⟨.blockedIdentifier name, some pos⟩ => [blocked name pos]
  | _ => []

end Record

/-- An outcome and what was recorded on the way to it. -/
structure Logged (α : Type) where
  outcome : Except Failure α
  records : List Record

namespace Logged

/-- An outcome with the records that a failure leaves by itself. -/
def of {α : Type} (outcome : Except Failure α) : Logged α :=
  ⟨outcome, match outcome with
    | .ok _ => []
    | .error failure => Record.ofFailure failure⟩

/-- Change what succeeds. -/
def map {α β : Type} (f : α → β) (logged : Logged α) : Logged β :=
  ⟨logged.outcome.map f, logged.records⟩

end Logged

end Criterion
