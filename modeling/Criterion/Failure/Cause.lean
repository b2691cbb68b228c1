import Criterion.Datum.Basic

/-!
# Why an expression is rejected

A rejected expression has a cause, and where the cause lies in the source, a position counted in
characters. The message of a blocked identifier does not name it.
-/

namespace Criterion

/-- The stages at which an expression can be rejected. -/
inductive Stage where
  | lexing
  | parsing
  | evaluation
  deriving DecidableEq, Repr

/-- What is wrong with an expression or with the variables supplied to it. -/
inductive Cause where
  | unexpectedCharacter (char : String)
  | invalidNumber (text : String)
  | blockedIdentifier (name : String)
  | tooLong (length limit : Int)
  | unexpectedToken (expected found : String)
  | expectedToken (expected found : String)
  | trailingTokens (found : String)
  | tooDeep (limit : Int)
  | undefinedVariable (name : String)
  | unsupportedVariable (name : Datum) (typeName : String)
  | other (stage : Option Stage) (message : String)

namespace Cause

/-- The stage that a cause belongs to. Unsupported variables belong to none: they are found before
the expression is looked at. -/
def stage? : Cause → Option Stage
  | unexpectedCharacter _ | invalidNumber _ | blockedIdentifier _ | tooLong .. => some .lexing
  | unexpectedToken .. | expectedToken .. | trailingTokens _ | tooDeep _ => some .parsing
  | undefinedVariable _ => some .evaluation
  | unsupportedVariable .. => none
  | other stage _ => stage

/-- The name under which a cause is reported. -/
def label : Cause → String
  | unexpectedCharacter _ => "UnexpectedCharacterError"
  | invalidNumber _ => "InvalidNumberError"
  | blockedIdentifier _ => "BlockedIdentifierError"
  | tooLong .. => "ExpressionTooLongError"
  | unexpectedToken .. => "UnexpectedTokenError"
  | expectedToken .. => "ExpectedTokenError"
  | trailingTokens _ => "TrailingTokensError"
  | tooDeep _ => "ExpressionTooDeepError"
  | undefinedVariable _ => "UndefinedVariableError"
  | unsupportedVariable .. => "UnsupportedVariableTypeError"
  | other (some .lexing) _ => "LexError"
  | other (some .parsing) _ => "ParseError"
  | other (some .evaluation) _ => "EvalError"
  | other none _ => "ExpressionError"

/-- The message of a cause. -/
def message : Cause → String
  | unexpectedCharacter char => "Unexpected character: " ++ Text.quoted char
  | invalidNumber text => "Invalid number: " ++ text
  | blockedIdentifier _ => "Blocked identifier"
  | tooLong length limit =>
    "Expression too long (" ++ toString length ++ " > " ++ toString limit ++ " characters)"
  | unexpectedToken expected found =>
    "Unexpected token: expected " ++ expected ++ ", got " ++ found
  | expectedToken expected found => "Expected " ++ expected ++ ", got " ++ found
  | trailingTokens found => "Unexpected tokens after expression: " ++ found
  | tooDeep limit => "Expression nested deeper than " ++ toString limit ++ " levels"
  | undefinedVariable name => "Undefined variable: " ++ name
  | unsupportedVariable name typeName =>
    "Unsupported type for variable " ++ name.literal ++ ": " ++ typeName
  | other _ message => message

end Cause

/-- The rejection of an expression. -/
structure Rejection where
  cause : Cause
  /-- The position of the offending character, where there is one. -/
  pos : Option Int

/-- The message of a rejection. -/
def Rejection.message (e : Rejection) : String := e.cause.message

end Criterion

namespace Criterion.Rejection

/-! ## Showing where an expression went wrong

A rejection with a position is shown over three lines: the message, the source indented by two, and
a marker below the offending character. Of a source longer than the window only a part is shown,
which begins `lookback` characters before the position.
-/

/-- The greatest number of characters shown of a source. -/
def windowSize : Nat := 80

/-- How many characters before the position a window begins. -/
def lookback : Nat := 40

/-- The part of a source that is shown for a position. -/
def snippet (source : List Char) (pos : Int) : List Char :=
  if source.length ≤ windowSize then source
  else (source.drop (pos - lookback).toNat).take windowSize

/-- Where in the snippet the position lies. -/
def offset (source : List Char) (pos : Int) : Int :=
  if source.length ≤ windowSize then pos else min pos lookback

/-- The marker below the snippet. The snippet is indented by two. -/
def marker (offset : Int) : List Char := List.replicate (offset + 2).toNat ' ' ++ ['^']

/-- A rejection shown with the source it belongs to. -/
def formatWithSource (e : Rejection) (source : String) : String :=
  match e.pos with
  | none => e.message
  | some pos =>
    if source.isEmpty then e.message
    else
      let chars := source.toList
      e.message ++ "\n  " ++ String.ofList (snippet chars pos) ++ "\n"
        ++ String.ofList (marker (offset chars pos))

end Criterion.Rejection
