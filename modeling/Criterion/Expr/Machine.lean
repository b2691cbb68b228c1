import Criterion.Expr.Basic
import Criterion.Value.Environment

/-!
# Evaluation on a stack

Evaluation keeps a list of tasks and a stack of results, so that the height of a tree does not
matter. Both operands of every operator are evaluated, the left one first, also those of
conjunction and disjunction; the first variable without a value ends the evaluation.
-/

namespace Criterion

/-! ## What the operators compute

Arithmetic and ordering take their operands as numbers, logic takes them as booleans. Loose
equality compares numbers; strict equality asks for the same kind first.
-/

/-- Strict equality: same kind and equal content. -/
def Value.identical : Value → Value → Bool
  | .number x, .number y => x == y
  | .boolean a, .boolean b => a == b
  | _, _ => false

/-- Apply a prefix operator. -/
def UnaryOp.apply : UnaryOp → Value → Value
  | not, v => .boolean !v.toBoolean
  | negate, v => .number (-v.toNumber)

/-- Apply a binary operator. -/
def BinaryOp.apply (op : BinaryOp) (v w : Value) : Value :=
  let a := v.toNumber
  let b := w.toNumber
  match op with
  | or => .boolean (v.toBoolean || w.toBoolean)
  | and => .boolean (v.toBoolean && w.toBoolean)
  | equal => .boolean (a == b)
  | notEqual => .boolean (a != b)
  | identical => .boolean (v.identical w)
  | notIdentical => .boolean !v.identical w
  | less => .boolean (a < b)
  | greater => .boolean (a > b)
  | atMost => .boolean (a ≤ b)
  | atLeast => .boolean (a ≥ b)
  | add => .number (a + b)
  | subtract => .number (a - b)
  | multiply => .number (a * b)
  | divide => .number (a / b)
  | remainder => .number (Binary64.remainder a b)

end Criterion

namespace Criterion.Expr

/-! ## The machine -/

/-- What remains to be done: evaluate a tree, or apply an operator to the results on top. -/
inductive Task where
  | visit (e : Expr)
  | unary (op : UnaryOp)
  | binary (op : BinaryOp)

/-- How much work a task is. -/
def Task.weight : Task → Nat
  | visit e => 2 * e.size
  | unary _ => 1
  | binary _ => 1

/-- How much work a list of tasks is. -/
def Task.total : List Task → Nat
  | [] => 0
  | task :: tasks => task.weight + total tasks

/-- A state of the machine: the tasks still to be done, and the results, the latest on top. -/
structure State where
  tasks : List Task
  results : List Value

/-- What a turn of the machine leads to. -/
inductive Turn where
  | next (s : State)
  | halt (outcome : Except Failure Value)

/-- One turn of the machine. Operators take their operands from the results; when no task is left
the result on top is the outcome. -/
def turn (env : Environment) : State → Turn
  | ⟨[], v :: _⟩ => .halt (.ok v)
  | ⟨.visit (.number x) :: tasks, results⟩ => .next ⟨tasks, .number x :: results⟩
  | ⟨.visit (.boolean b) :: tasks, results⟩ => .next ⟨tasks, .boolean b :: results⟩
  | ⟨.visit (.ident name) :: tasks, results⟩ =>
    match env.find? name with
    | some v => .next ⟨tasks, v :: results⟩
    | none => .halt (reject (.undefinedVariable name) none)
  | ⟨.visit (.unary op operand) :: tasks, results⟩ =>
    .next ⟨.visit operand :: .unary op :: tasks, results⟩
  | ⟨.visit (.binary op left right) :: tasks, results⟩ =>
    .next ⟨.visit left :: .visit right :: .binary op :: tasks, results⟩
  | ⟨.unary op :: tasks, v :: results⟩ => .next ⟨tasks, op.apply v :: results⟩
  | ⟨.binary op :: tasks, w :: v :: results⟩ => .next ⟨tasks, op.apply v w :: results⟩
  | _ => .halt (.error (.misuse .noOperand))

private theorem total_lt_of_turn {env : Environment} {s s' : State} (h : turn env s = .next s') :
    Task.total s'.tasks < Task.total s.tasks := by
  unfold turn at h
  split at h
  case h_4 =>
    split at h
    · cases h
      simp only [Task.total, Task.weight, size]
      omega
    · contradiction
  all_goals
    cases h
  all_goals
    simp only [Task.total, Task.weight, size]
    omega

/-- Take turns until the machine halts. -/
def run (env : Environment) (s : State) : Except Failure Value :=
  match _h : turn env s with
  | .next s' => run env s'
  | .halt outcome => outcome
termination_by Task.total s.tasks
decreasing_by exact total_lt_of_turn ‹_›

/-- The state in which an expression is still to be evaluated. -/
def start (e : Expr) : State := ⟨[.visit e], []⟩

/-- The value of an expression in an environment. -/
def evaluate (e : Expr) (env : Environment) : Except Failure Value := run env e.start

end Criterion.Expr
