import Criterion.Expr.Basic
import Criterion.Expr.Machine
import Criterion.Expr.Parser
import Criterion.Journal
import Criterion.Limits.Basic
import Criterion.Token.Lexer

/-!
# Rules and conditions

An expression is evaluated once, or compiled to a rule that runs against many sets of variables.
The variables are checked before the expression is looked at. As a condition, an expression that is
rejected for whatever cause does not hold.
-/

namespace Criterion

/-- The tree of a source, under limits that may be out of range. -/
def Expr.ofSource (source : String) (maxLength maxDepth : Int) : Except Failure Expr := do
  Expr.ofTokens (← Token.ofSource source maxLength) maxDepth

/-- The tree of a source under limits. -/
def Expr.parse (limits : Limits) (source : String) : Except Failure Expr :=
  Expr.ofSource source limits.maxLength limits.maxDepth

/-- An expression that is parsed once and run many times. -/
structure Rule where
  source : String
  expr : Expr
  deriving DecidableEq

namespace Rule

/-- The variables that a rule reads. -/
def variableNames (rule : Rule) : List String := rule.expr.variableNames

/-- The kind of a rule's results, as far as it is fixed. -/
def kind (rule : Rule) : Kind := rule.expr.kind []

/-- A rule as a literal. -/
def literal (rule : Rule) : String := "CompiledExpression(" ++ Text.quoted rule.source ++ ")"

/-- Compile a source to a rule. -/
def compile (limits : Limits) (source : String) : Logged Rule :=
  match Expr.parse limits source with
  | .ok expr => ⟨.ok ⟨source, expr⟩, [.compiled source.length expr.variableNames]⟩
  | .error failure => .of (.error failure)

/-- Run a rule against variables. -/
def run (rule : Rule) (supplied : Datum) : Except Failure Value := do
  rule.expr.evaluate (← Environment.ofDatum supplied)

end Rule

/-- Evaluate a source against variables. -/
def evaluate (limits : Limits) (source : String) (supplied : Datum) : Logged Value :=
  .of do
    let env ← Environment.ofDatum supplied
    let expr ← Expr.parse limits source
    expr.evaluate env

/-- Whether a condition holds for variables. A rejection is recorded and counts as no. -/
def holds (limits : Limits) (source : String) (supplied : Datum) : Logged Bool :=
  let result := evaluate limits source supplied
  match result.outcome with
  | .ok v => ⟨.ok v.toBoolean, result.records⟩
  | .error (.rejected e) => ⟨.ok false, result.records ++ [.rejected e]⟩
  | .error failure => ⟨.error failure, result.records⟩

end Criterion
