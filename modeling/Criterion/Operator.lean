/-!
# The operators of the expression language

Binary operators have six levels of precedence, from disjunction (loosest) to the multiplicative
ones, and operators of one level associate to the left. The two prefix operators bind tighter than
all of them.
-/

namespace Criterion

/-- The prefix operators. -/
inductive UnaryOp where
  | not
  | negate
  deriving DecidableEq, Repr

/-- The binary operators. `equal` compares as numbers, `identical` also asks for the same kind. -/
inductive BinaryOp where
  | or
  | and
  | equal
  | notEqual
  | identical
  | notIdentical
  | less
  | greater
  | atMost
  | atLeast
  | add
  | subtract
  | multiply
  | divide
  | remainder
  deriving DecidableEq, Repr

/-- The spelling of a prefix operator. -/
def UnaryOp.symbol : UnaryOp → String
  | not => "!"
  | negate => "-"

/-- All prefix operators. -/
def UnaryOp.all : List UnaryOp := [.not, .negate]

/-- The prefix operator with a given spelling. -/
def UnaryOp.ofSymbol? (symbol : String) : Option UnaryOp :=
  all.find? fun op => op.symbol == symbol

/-- The spelling of a binary operator. -/
def BinaryOp.symbol : BinaryOp → String
  | or => "||"
  | and => "&&"
  | equal => "=="
  | notEqual => "!="
  | identical => "==="
  | notIdentical => "!=="
  | less => "<"
  | greater => ">"
  | atMost => "<="
  | atLeast => ">="
  | add => "+"
  | subtract => "-"
  | multiply => "*"
  | divide => "/"
  | remainder => "%"

/-- All binary operators, from the loosest to the tightest. -/
def BinaryOp.all : List BinaryOp :=
  [.or, .and, .equal, .notEqual, .identical, .notIdentical, .less, .greater, .atMost, .atLeast,
    .add, .subtract, .multiply, .divide, .remainder]

/-- The binary operator with a given spelling. -/
def BinaryOp.ofSymbol? (symbol : String) : Option BinaryOp :=
  all.find? fun op => op.symbol == symbol

/-- The level of precedence; a higher one binds tighter. -/
def BinaryOp.level : BinaryOp → Nat
  | or => 1
  | and => 2
  | equal | notEqual | identical | notIdentical => 3
  | less | greater | atMost | atLeast => 4
  | add | subtract => 5
  | multiply | divide | remainder => 6

/-- Whether an operator yields a number; the others yield a boolean. -/
def BinaryOp.isArithmetic : BinaryOp → Bool
  | add | subtract | multiply | divide | remainder => true
  | _ => false

/-- Reading the spelling of a prefix operator gives it back. -/
theorem UnaryOp.ofSymbol?_symbol (op : UnaryOp) : ofSymbol? op.symbol = some op := by
  cases op <;> decide

/-- Reading the spelling of a binary operator gives it back. -/
theorem BinaryOp.ofSymbol?_symbol (op : BinaryOp) : ofSymbol? op.symbol = some op := by
  cases op <;> decide

theorem UnaryOp.symbol_of_ofSymbol? {symbol : String} {op : UnaryOp}
    (h : ofSymbol? symbol = some op) : op.symbol = symbol := by
  have he := List.find?_some h
  exact eq_of_beq he

theorem BinaryOp.symbol_of_ofSymbol? {symbol : String} {op : BinaryOp}
    (h : ofSymbol? symbol = some op) : op.symbol = symbol := by
  have he := List.find?_some h
  exact eq_of_beq he

end Criterion
