/-!
# Problems found by validation

Data that are to become limits, values or expressions are checked field by field, and each field
that does not fit is reported with its place, a code and a message.
-/

namespace Criterion

/-- Why a piece of data does not fit. -/
inductive Complaint where
  | intType
  | intParsing
  | intSize
  | intFromFloat
  | finiteNumber
  | atLeast (bound : Int)
  | atMost (bound : Int)
  | extraForbidden
  | invalidKey
  | modelType (model : String)
  | floatType
  | floatParsing
  | booleanType
  | booleanParsing
  | textType
  | choice (options : List String)
  deriving DecidableEq, Repr

namespace Complaint

/-- The code of a complaint. -/
def code : Complaint → String
  | intType => "int_type"
  | intParsing => "int_parsing"
  | intSize => "int_parsing_size"
  | intFromFloat => "int_from_float"
  | finiteNumber => "finite_number"
  | atLeast _ => "greater_than_equal"
  | atMost _ => "less_than_equal"
  | extraForbidden => "extra_forbidden"
  | invalidKey => "invalid_key"
  | modelType _ => "model_type"
  | floatType => "float_type"
  | floatParsing => "float_parsing"
  | booleanType => "bool_type"
  | booleanParsing => "bool_parsing"
  | textType => "string_type"
  | choice _ => "enum"

/-- Options in quotes, with commas between them and `or` before the last. -/
def enumeration : List String → String
  | [] => ""
  | [only] => "'" ++ only ++ "'"
  | [first, last] => "'" ++ first ++ "' or '" ++ last ++ "'"
  | first :: rest => "'" ++ first ++ "', " ++ enumeration rest

/-- The message of a complaint. -/
def message : Complaint → String
  | intType => "Input should be a valid integer"
  | intParsing => "Input should be a valid integer, unable to parse string as an integer"
  | intSize => "Unable to parse input string as an integer, exceeded maximum size"
  | intFromFloat => "Input should be a valid integer, got a number with a fractional part"
  | finiteNumber => "Input should be a finite number"
  | atLeast bound => "Input should be greater than or equal to " ++ toString bound
  | atMost bound => "Input should be less than or equal to " ++ toString bound
  | extraForbidden => "Extra inputs are not permitted"
  | invalidKey => "Keys should be strings"
  | modelType model => "Input should be a valid dictionary or instance of " ++ model
  | floatType => "Input should be a valid number"
  | floatParsing => "Input should be a valid number, unable to parse string as a number"
  | booleanType => "Input should be a valid boolean"
  | booleanParsing => "Input should be a valid boolean, unable to interpret input"
  | textType => "Input should be a valid string"
  | choice options => "Input should be " ++ enumeration options

end Complaint

/-- A complaint and the field it is about. -/
structure Problem where
  place : String
  complaint : Complaint
  deriving DecidableEq, Repr

/-- The line that reports a problem. -/
def Problem.line (p : Problem) : String :=
  p.place ++ ": " ++ p.complaint.code ++ ": " ++ p.complaint.message

end Criterion
