import Criterion.Failure.Cause
import Criterion.Failure.Problem

/-!
# Failures

Whatever the library refuses is a failure of one of three sorts: an expression is rejected, data
do not pass validation, or the library is called in a way that it does not support. Only the first
sort arises from an expression and variables under valid limits, as long as the variables have keys
that can be written.
-/

namespace Criterion

/-- A call that the library does not support. -/
inductive Misuse where
  /-- The depth given for parsing is out of range. -/
  | depthOutOfRange (given : Int)
  /-- There are no tokens to parse. -/
  | noTokens
  /-- A number token holds a text that is no numeral. -/
  | unreadableNumber (text : String)
  /-- A number token holds a datum that has no number. -/
  | notNumeric (typeName : String)
  /-- A number token holds an integer beyond all doubles. -/
  | integerTooLarge
  /-- A datum that has no hash is looked up. -/
  | unhashable (typeName : String)
  /-- There is no tree to work on. -/
  | notAnExpression (typeName : String)
  /-- An operator finds no operand. -/
  | noOperand
  /-- Nothing has the name asked for. -/
  | unknownName (name : String)
  /-- A section of a document is of a type without entries. -/
  | notIterable (typeName : String)
  /-- A section of a document is sought in something that is no table. -/
  | noSections (typeName : String)
  /-- An item in place of a section's entry does not have two parts. -/
  | entryLength (index length : Nat)
  /-- A decimal integer has too many digits, which are counted where one is read. -/
  | longInteger (digits : Option Nat)
  /-- An item in place of a section's entry has no parts. -/
  | entryNotSequence (index : Nat)
  deriving DecidableEq, Repr

/-- The greatest depth that can be given for parsing. -/
def deepestLimit : Nat := 200

/-- The message of a misuse. -/
def Misuse.message : Misuse → String
  | depthOutOfRange given =>
    "max_depth must be between 1 and " ++ toString deepestLimit ++ ", got " ++ toString given
  | noTokens => "list index out of range"
  | unreadableNumber text => "could not convert string to float: " ++ Text.quoted text
  | notNumeric typeName =>
    "float() argument must be a string or a real number, not '" ++ typeName ++ "'"
  | integerTooLarge => "int too large to convert to float"
  | unhashable typeName => "unhashable type: '" ++ typeName ++ "'"
  | notAnExpression typeName => "Unknown expression type: " ++ typeName
  | noOperand => "pop from empty list"
  | unknownName name => Text.quoted name
  | notIterable typeName => "'" ++ typeName ++ "' object is not iterable"
  | noSections typeName => "'" ++ typeName ++ "' object has no attribute 'get'"
  | entryLength index length =>
    "dictionary update sequence element #" ++ toString index ++ " has length " ++ toString length
      ++ "; 2 is required"
  | longInteger digits =>
    "Exceeds the limit (" ++ toString Datum.longestDecimal
      ++ " digits) for integer string conversion"
      ++ (digits.map fun digits => ": value has " ++ toString digits ++ " digits").getD ""
      ++ "; use sys.set_int_max_str_digits() to increase the limit"
  | entryNotSequence index =>
    "cannot convert dictionary update sequence element #" ++ toString index ++ " to a sequence"

/-- What the library refuses. -/
inductive Failure where
  | rejected (e : Rejection)
  | invalid (problems : List Problem)
  | malformedDocument
  | misuse (m : Misuse)

/-- The message of a failure; problems stand one to a line. -/
def Failure.message : Failure → String
  | rejected e => e.message
  | invalid problems => "\n".intercalate (problems.map Problem.line)
  | malformedDocument => ""
  | misuse m => m.message

/-- Reject an expression for a cause at a position. -/
def reject {α : Type} (cause : Cause) (pos : Option Int) : Except Failure α :=
  .error (.rejected ⟨cause, pos⟩)

end Criterion
