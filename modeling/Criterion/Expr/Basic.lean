import Criterion.Operator
import Criterion.Value.Basic

/-!
# Expressions

An expression is a literal, a variable or an operator with its operands. Nothing in it can call,
reach into or assign to anything.
-/

namespace Criterion

/-- The trees of the expression language. -/
inductive Expr where
  | number (x : Float)
  | boolean (b : Bool)
  | ident (name : String)
  | unary (op : UnaryOp) (operand : Expr)
  | binary (op : BinaryOp) (left right : Expr)
  deriving DecidableEq

namespace Expr

/-- Equality of trees: same shape and equal leaves, where doubles are compared as numbers, so that
a leaf that is no number makes a tree unequal to all. -/
def same : Expr → Expr → Bool
  | number x, number y => x == y
  | boolean a, boolean b => a == b
  | ident a, ident b => a == b
  | unary op x, unary op' y => op == op' && same x y
  | binary op l r, binary op' l' r' => op == op' && same l l' && same r r'
  | _, _ => false

/-- How many nodes a tree has. -/
def size : Expr → Nat
  | number _ | boolean _ | ident _ => 1
  | unary _ operand => operand.size + 1
  | binary _ left right => left.size + right.size + 1

end Expr

end Criterion

namespace Criterion.Expr

/-! ## The canonical text of an expression

Every binary operator stands in parentheses with a space on each side; a prefix operator stands
directly before its operand. The text is written from a list of pieces still to write, so that the
height of a tree does not matter.
-/

/-- The text of a truth value. -/
def truthText (b : Bool) : String := if b then "true" else "false"

/-- What remains to be written. -/
inductive Piece where
  | tree (e : Expr)
  | text (s : String)

/-- How much work a piece is. -/
def Piece.weight : Piece → Nat
  | tree e => 5 * e.size
  | text _ => 1

/-- How much work a list of pieces is. -/
def Piece.total : List Piece → Nat
  | [] => 0
  | piece :: pieces => piece.weight + total pieces

/-- Write pieces one after the other behind a text. -/
def writePieces (done : String) : List Piece → String
  | [] => done
  | .text s :: rest => writePieces (done ++ s) rest
  | .tree (.number x) :: rest => writePieces (done ++ Binary64.displayText x) rest
  | .tree (.boolean b) :: rest => writePieces (done ++ truthText b) rest
  | .tree (.ident name) :: rest => writePieces (done ++ name) rest
  | .tree (.unary op operand) :: rest => writePieces (done ++ op.symbol) (.tree operand :: rest)
  | .tree (.binary op left right) :: rest =>
    writePieces (done ++ "(")
      (.tree left :: .text (" " ++ op.symbol ++ " ") :: .tree right :: .text ")" :: rest)
termination_by pieces => Piece.total pieces
decreasing_by all_goals simp [Piece.total, Piece.weight, Expr.size] <;> omega

/-- The canonical text of an expression. -/
def render (e : Expr) : String := writePieces "" [.tree e]

/-! ## What is known of an expression beforehand

Operators fix the kind of their result whatever their operands are. Only a variable standing alone
can have any kind, unless its kind is given. The variables of an expression are gathered from a
stack of trees still to look at, so that the height of a tree does not matter.
-/

/-- The kind of the values of an expression, given the kinds of variables. -/
def kind (kinds : List (String × Kind)) : Expr → Kind
  | number _ => .number
  | boolean _ => .boolean
  | ident name => (kinds.lookup name).getD .any
  | unary .not _ => .boolean
  | unary .negate _ => .number
  | binary op _ _ => if op.isArithmetic then .number else .boolean

/-- How much there is to look at in a stack of trees. -/
def stackSize : List Expr → Nat
  | [] => 0
  | e :: rest => e.size + stackSize rest

/-- Add the variables of a stack of trees to names that are known, each once. The tree on top is
taken off, and of an operator's operands the right one comes to lie on top. -/
def gather (known : List String) : List Expr → List String
  | [] => known
  | number _ :: rest => gather known rest
  | boolean _ :: rest => gather known rest
  | ident name :: rest => gather (known.insert name) rest
  | unary _ operand :: rest => gather known (operand :: rest)
  | binary _ left right :: rest => gather known (right :: left :: rest)
termination_by stack => stackSize stack
decreasing_by all_goals simp [stackSize, size] <;> omega

/-- The names of an expression's variables in the order of their code points, each once. -/
def variableNames (e : Expr) : List String :=
  (gather [] [e]).mergeSort fun a b => decide (a ≤ b)

end Criterion.Expr
