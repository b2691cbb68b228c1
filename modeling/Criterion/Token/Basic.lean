import Criterion.Failure.Basic
import Criterion.Operator

/-!
# Tokens

A token has a kind, a value and a position counted in characters. Tokens that the lexer makes hold
a double, a truth value or a text, as their kind asks for; tokens made by hand may hold any datum.
-/

namespace Criterion

/-- The kinds of tokens. -/
inductive Token.Kind where
  | number
  | boolean
  | ident
  | operator
  | opening
  | closing
  | eof
  deriving DecidableEq, Repr

/-- A token of the expression language. -/
structure Token where
  kind : Token.Kind
  value : Datum
  pos : Int

namespace Token

/-- The word for a kind of tokens. -/
def Kind.name : Kind → String
  | number => "number"
  | boolean => "boolean"
  | ident => "ident"
  | operator => "operator"
  | opening => "lparen"
  | closing => "rparen"
  | eof => "eof"

/-- All kinds of tokens. -/
def Kind.all : List Kind := [.number, .boolean, .ident, .operator, .opening, .closing, .eof]

/-- How a message refers to a token. -/
def describe (t : Token) : String :=
  match t.kind with
  | .eof => "end of input"
  | .opening | .closing => "'" ++ t.value.toText ++ "'"
  | .operator => "operator '" ++ t.value.toText ++ "'"
  | kind => kind.name ++ " " ++ t.value.literal

/-- A token with all its parts. -/
def literal (t : Token) : String :=
  "Token(" ++ t.kind.name ++ ", " ++ t.value.literal ++ ", pos=" ++ toString t.pos ++ ")"

/-- Equality of tokens: same kind and position, and equal values. -/
def same (a b : Token) : Bool := a.kind == b.kind && a.value.same b.value && a.pos == b.pos

/-- How many members the set of two tokens has. -/
def distinct (a b : Token) : Except Failure Nat :=
  match [a, b].find? fun t => !t.value.isHashable with
  | some t => .error (.misuse (.unhashable t.value.typeName))
  | none => .ok (if same a b then 1 else 2)

/-- The prefix operator that a token stands for, if any. -/
def unaryOp? (t : Token) : Except Failure (Option UnaryOp) :=
  if t.kind = .operator then
    match t.value with
    | .text symbol => .ok (UnaryOp.ofSymbol? symbol)
    | d => if d.isHashable then .ok none else .error (.misuse (.unhashable d.typeName))
  else .ok none

/-- The binary operator that a token stands for, if any. -/
def binaryOp? (t : Token) : Option BinaryOp :=
  if t.kind = .operator then BinaryOp.ofSymbol? t.value.toText else none

end Token

end Criterion
