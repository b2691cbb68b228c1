import Criterion.Datum.Conversion
import Criterion.Expr.Basic
import Criterion.Failure.Basic

/-!
# Trees built by hand

A draft is a tree whose leaves and operators are data of any type. Building it checks the children
of a node before the node itself and converts leaves leniently: a numeral will do for a number, and
the common words for truth values will do for a boolean.
-/

namespace Criterion

/-- A tree as it is supplied by hand. -/
inductive Draft where
  | missing
  | number (d : Datum)
  | boolean (d : Datum)
  | ident (d : Datum)
  | unary (op : Datum) (operand : Draft)
  | binary (op : Datum) (left right : Draft)

instance : Inhabited Draft := ⟨.missing⟩

/-- The double that a datum of a numeric type stands for. -/
def Datum.strictNumber : Datum → Except Complaint Float
  | float x => .ok x
  | integer n => match Binary64.ofInt? n with
    | some x => .ok x
    | none => .error .floatType
  | _ => .error .floatType

/-- The truth value that a datum is. -/
def Datum.strictBoolean : Datum → Except Complaint Bool
  | boolean b => .ok b
  | _ => .error .booleanType

/-- The double that a datum can be taken for. -/
def Datum.lenientNumber : Datum → Except Complaint Float
  | boolean b => .ok (Value.boolean b).toNumber
  | text s => match Numeral.parseLenient? s.toList with
    | some numeral => .ok numeral.toFloat
    | none => .error .floatParsing
  | d => d.strictNumber

/-- The truth value that an integer can be taken for. -/
def truthOfInteger (n : Int) : Except Complaint Bool :=
  if n = 1 then .ok true else if n = 0 then .ok false else .error .booleanParsing

/-- The truth value that a word can be taken for. -/
def truthOfWord (word : String) : Except Complaint Bool :=
  if ["1", "on", "t", "true", "y", "yes"].contains word then .ok true
  else if ["0", "f", "false", "n", "no", "off"].contains word then .ok false
  else .error .booleanParsing

/-- The truth value that a datum can be taken for. Integers beyond 64 bits are of the wrong type. -/
def Datum.lenientBoolean : Datum → Except Complaint Bool
  | integer n => if -wordBound ≤ n && n < wordBound then truthOfInteger n else .error .booleanType
  | float x => match integerOfFloat x with
    | .ok n => truthOfInteger n
    | .error _ => .error .booleanType
  | text s => truthOfWord (String.ofList (s.toList.map Char.toLower))
  | d => d.strictBoolean

/-- The text that a datum is. -/
def Datum.strictText : Datum → Except Complaint String
  | text s => .ok s
  | _ => .error .textType

/-- The operator that a datum spells, among those with given spellings. -/
def Datum.operatorAmong {α : Type} (ofSymbol? : String → Option α) (symbols : List String) :
    Datum → Except Complaint α
  | text symbol => match ofSymbol? symbol with
    | some op => .ok op
    | none => .error (.choice symbols)
  | _ => .error (.choice symbols)

namespace Draft

/-- The classes of nodes, in the order in which a missing child is compared with them. -/
def nodeClasses : List String :=
  ["NumberLiteral", "BooleanLiteral", "Identifier", "BinaryExpr", "UnaryExpr"]

/-- A field of a node that has been checked. -/
abbrev Field (α : Type) := Except (List Problem) α

/-- A field that holds a datum. -/
def datumField {α : Type} (place : String) : Except Complaint α → Field α
  | .ok a => .ok a
  | .error complaint => .error [⟨place, complaint⟩]

/-- A field that holds a child, which must be there. -/
def childField (place : String) : Option Expr → Field Expr
  | some e => .ok e
  | none => .error (nodeClasses.map fun model => ⟨place ++ "." ++ model, .modelType model⟩)

/-- The problems with a field. -/
def problems {α : Type} : Field α → List Problem
  | .ok _ => []
  | .error ps => ps

/-- A node of fields that all have to be right. -/
def leaf {α : Type} (make : α → Expr) : Field α → Except Failure (Option Expr)
  | .ok a => .ok (some (make a))
  | .error ps => .error (.invalid ps)

/-- The tree that a draft describes; a missing draft describes none. -/
def build : Draft → Except Failure (Option Expr)
  | missing => .ok none
  | number d => leaf .number (datumField "value" d.lenientNumber)
  | boolean d => leaf .boolean (datumField "value" d.lenientBoolean)
  | ident d => leaf .ident (datumField "name" d.strictText)
  | unary op operand => do
    let operand ← operand.build
    let op := datumField "op" (op.operatorAmong UnaryOp.ofSymbol? (UnaryOp.all.map (·.symbol)))
    let operand := childField "operand" operand
    match op, operand with
    | .ok op, .ok operand => .ok (some (.unary op operand))
    | op, operand => .error (.invalid (problems op ++ problems operand))
  | binary op left right => do
    let left ← left.build
    let right ← right.build
    let op := datumField "op" (op.operatorAmong BinaryOp.ofSymbol? (BinaryOp.all.map (·.symbol)))
    let left := childField "left" left
    let right := childField "right" right
    match op, left, right with
    | .ok op, .ok left, .ok right => .ok (some (.binary op left right))
    | op, left, right => .error (.invalid (problems op ++ problems left ++ problems right))

end Draft

end Criterion
