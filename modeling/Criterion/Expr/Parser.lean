import Criterion.Datum.Conversion
import Criterion.Expr.Basic
import Criterion.Token.Basic

/-!
# From tokens to trees

Precedence climbing. An expression is an operand followed by operators with right operands; a right
operand takes the operators that bind tighter than its own. Three things nest: the group in
parentheses, the operand of a prefix operator and the right operand of a binary one. The rules
for one level are built from the rules for the level below, and at the bottom every rule refuses,
so the depth limit is the height of the tower.

A stream is read through the tokens not yet taken. When none is left, its last token stays the
current one, so that a stream without an end token is still read to its end and no further.
-/

namespace Criterion.Expr

/-- A tree and the tokens that follow it. -/
abbrev Parsed := Except Failure (Expr × List Token)

/-- The rules that parse at one level of nesting. -/
structure Rules where
  /-- An operand: literals, variables, groups and whatever prefix operators precede them. -/
  operand : List Token → Parsed
  /-- An expression whose operators have at least a given level. -/
  expression : (floor : Nat) → List Token → Parsed

/-- The token to look at: the first of those not yet taken, or else the last of the stream. -/
def current (last : Token) (rest : List Token) : Token := rest.headD last

/-- The rules below the greatest depth: nothing can be parsed there. -/
def Rules.refuse (last : Token) (limit : Int) : Rules where
  operand rest := reject (.tooDeep limit) (some (current last rest).pos)
  expression _ rest := reject (.tooDeep limit) (some (current last rest).pos)

/-- Take the parenthesis that closes a group. -/
def close (last : Token) (e : Expr) (rest : List Token) : Parsed :=
  let token := current last rest
  if token.kind = .closing then .ok (e, rest.tail)
  else reject (.expectedToken "')'" token.describe) (some token.pos)

/-- A literal, a variable or a group. -/
def primary (last : Token) (deeper : Rules) (rest : List Token) : Parsed :=
  let token := current last rest
  match token.kind with
  | .number => token.value.toFloat.map fun x => (.number x, rest.tail)
  | .boolean => .ok (.boolean token.value.isTrue, rest.tail)
  | .ident => .ok (.ident token.value.toText, rest.tail)
  | .opening =>
    match deeper.expression 0 rest.tail with
    | .ok (e, rest) => close last e rest
    | .error failure => .error failure
  | _ =>
    reject (.unexpectedToken "number, boolean, identifier or '('" token.describe) (some token.pos)

/-- An operand at the level above `deeper`. -/
def operand (last : Token) (deeper : Rules) (rest : List Token) : Parsed :=
  match (current last rest).unaryOp? with
  | .error failure => .error failure
  | .ok (some op) => (deeper.operand rest.tail).map fun (e, rest) => (.unary op e, rest)
  | .ok none => primary last deeper rest

/-- Join operators and right operands to a left operand, as long as operators of at least the level
`floor` follow. Each turn takes a token, so there are no more turns than tokens. -/
def chain (deeper : Rules) (floor : Nat) : (turns : List Token) → Expr → List Token → Parsed
  | _ :: turns, left, token :: rest =>
    match token.binaryOp? with
    | none => .ok (left, token :: rest)
    | some op =>
      if floor ≤ op.level then
        match deeper.expression (op.level + 1) rest with
        | .ok (right, rest) => chain deeper floor turns (.binary op left right) rest
        | .error failure => .error failure
      else .ok (left, token :: rest)
  | _, left, rest => .ok (left, rest)

/-- The rules of the level above `deeper`. -/
def Rules.above (last : Token) (deeper : Rules) : Rules where
  operand := Expr.operand last deeper
  expression floor rest :=
    match Expr.operand last deeper rest with
    | .ok (left, rest) => chain deeper floor rest left rest
    | .error failure => .error failure

/-- The rules that allow for a number of levels. -/
def Rules.tower (last : Token) (limit : Int) : (levels : Nat) → Rules
  | 0 => refuse last limit
  | levels + 1 => above last (tower last limit levels)

/-- The tree of a stream of tokens, which it has to fill up to an end token. Nested at most
`maxDepth` times, the tree needs one level more than that. -/
def ofTokens (tokens : List Token) (maxDepth : Int) : Except Failure Expr :=
  if maxDepth < 1 || (deepestLimit : Int) < maxDepth then
    .error (.misuse (.depthOutOfRange maxDepth))
  else
    match tokens.getLast? with
    | none => .error (.misuse .noTokens)
    | some last =>
      match (Rules.tower last maxDepth (maxDepth.toNat + 1)).expression 0 tokens with
      | .error failure => .error failure
      | .ok (e, rest) =>
        let token := current last rest
        if token.kind = .eof then .ok e
        else reject (.trailingTokens token.describe) (some token.pos)

end Criterion.Expr
