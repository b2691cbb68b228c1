import Criterion.Expr.Machine

/-!
# The meaning of expressions

The meaning of a tree is defined on its structure: operands first, the left one before the right
one, then the operator. The machine computes it from any pending tasks and results, so that an
error in the middle of a walk is the error of the whole walk. The height of its stack of results
is known in advance from the tasks alone, hence no operator ever misses an operand.
-/

namespace Criterion.Expr

/-- The value of a tree, or the first variable in it from the left that has none. -/
def denote (env : Environment) : Expr → Except Failure Value
  | number x => .ok (.number x)
  | boolean b => .ok (.boolean b)
  | ident name =>
    match env.find? name with
    | some v => .ok v
    | none => reject (.undefinedVariable name) none
  | unary op operand => do
    let v ← operand.denote env
    return op.apply v
  | binary op left right => do
    let v ← left.denote env
    let w ← right.denote env
    return op.apply v w

variable {env : Environment} {s s' : State}

/-! ## The outcome -/

/-- A turn does not change the outcome. -/
theorem run_of_next (h : turn env s = .next s') : run env s = run env s' := by
  rw [run]
  split
  · rename_i he
    rw [h] at he
    cases he
    rfl
  · rename_i he
    rw [h] at he
    contradiction

/-- Where the machine halts its outcome is settled. -/
theorem run_of_halt {outcome : Except Failure Value} (h : turn env s = .halt outcome) :
    run env s = outcome := by
  rw [run]
  split
  · rename_i he
    rw [h] at he
    contradiction
  · rename_i he
    rw [h] at he
    cases he
    rfl

/-- Visiting a tree puts its value on the results and goes on, or ends with its error, whatever
tasks and results are pending. -/
theorem run_visit (env : Environment) (e : Expr) (tasks : List Task) (results : List Value) :
    run env ⟨.visit e :: tasks, results⟩ =
      match e.denote env with
      | .ok v => run env ⟨tasks, v :: results⟩
      | .error failure => .error failure := by
  induction e generalizing tasks results with
  | number x => exact run_of_next rfl
  | boolean b => exact run_of_next rfl
  | ident name =>
      cases hfind : env.find? name with
      | none =>
        have hturn : turn env ⟨.visit (.ident name) :: tasks, results⟩ =
            .halt (reject (.undefinedVariable name) none) := by
          simp only [turn, hfind]
        rw [run_of_halt hturn, denote, hfind]
        rfl
      | some v =>
        simp only [denote, hfind]
        exact run_of_next (by simp only [turn, hfind])
  | unary op operand ih =>
      rw [run_of_next rfl, ih, denote]
      cases operand.denote env with
      | error failure => rfl
      | ok v => exact run_of_next rfl
  | binary op left right ihl ihr =>
      rw [run_of_next rfl, ihl, denote]
      cases left.denote env with
      | error failure => rfl
      | ok v =>
        simp only [ihr]
        cases right.denote env with
        | error failure => rfl
        | ok w => exact run_of_next rfl

/-- The machine computes the meaning of the tree that it starts with. -/
theorem run_start (env : Environment) (e : Expr) : run env e.start = e.denote env := by
  rw [start, run_visit]
  cases e.denote env with
  | error failure => rfl
  | ok v => exact run_of_halt rfl

/-! ## The stack of results -/

/-- The states that the machine passes through. -/
inductive Reachable (env : Environment) (s : State) : State → Prop where
  | refl : Reachable env s s
  | next {s' s'' : State} (h : Reachable env s s') (hturn : turn env s' = .next s'') :
      Reachable env s s''

/-- A number of results is what the tasks ask for: none of them misses an operand, and one result
is left when they are done. -/
def Supplied : List Task → Nat → Prop
  | [], n => n = 1
  | .visit _ :: tasks, n => Supplied tasks (n + 1)
  | .unary _ :: tasks, n => 1 ≤ n ∧ Supplied tasks n
  | .binary _ :: tasks, n => 2 ≤ n ∧ Supplied tasks (n - 1)

/-- A turn leaves the tasks supplied. -/
theorem Supplied.turn (h : turn env s = .next s') (hs : Supplied s.tasks s.results.length) :
    Supplied s'.tasks s'.results.length := by
  obtain ⟨tasks, results⟩ := s
  cases tasks with
  | nil => cases results <;> contradiction
  | cons task tasks =>
      cases task with
      | visit e =>
        cases e with
        | number x | boolean b =>
          cases h
          exact hs
        | ident name =>
          simp only [Expr.turn] at h
          split at h
          · cases h
            exact hs
          · contradiction
        -- A visit of an operator leaves room for its operands before it asks for them.
        | unary op operand =>
          cases h
          exact ⟨Nat.le_add_left 1 results.length, hs⟩
        | binary op left right =>
          cases h
          exact ⟨Nat.le_add_left 2 results.length, hs⟩
      | unary op =>
        rcases results with _ | ⟨v, results⟩
        · contradiction
        · cases h
          exact hs.2
      | binary op =>
        rcases results with _ | ⟨w, _ | ⟨v, results⟩⟩
        · contradiction
        · contradiction
        · cases h
          exact hs.2

/-- A state whose tasks are supplied takes a turn, or halts with the only result, or misses a
variable. -/
theorem Supplied.progress (env : Environment) (hs : Supplied s.tasks s.results.length) :
    (∃ s', Expr.turn env s = .next s') ∨
      (∃ v, s = ⟨[], [v]⟩ ∧ Expr.turn env s = .halt (.ok v)) ∨
      (∃ name, Expr.turn env s = .halt (reject (.undefinedVariable name) none)) := by
  obtain ⟨tasks, results⟩ := s
  cases tasks with
  | nil =>
      obtain ⟨v, rfl⟩ := List.length_eq_one_iff.1 hs
      exact .inr (.inl ⟨v, rfl, rfl⟩)
  | cons task tasks =>
      cases task with
      | visit e =>
        cases e with
        | ident name =>
          cases hfind : env.find? name with
          | none => exact .inr (.inr ⟨name, by simp only [Expr.turn, hfind]⟩)
          | some v => exact .inl ⟨⟨tasks, v :: results⟩, by simp only [Expr.turn, hfind]⟩
        | number x => exact .inl ⟨_, rfl⟩
        | boolean b => exact .inl ⟨_, rfl⟩
        | unary op operand => exact .inl ⟨_, rfl⟩
        | binary op left right => exact .inl ⟨_, rfl⟩
      | unary op =>
        have hlength : 1 ≤ results.length := hs.1
        rcases results with _ | ⟨v, results⟩
        · contradiction
        · exact .inl ⟨_, rfl⟩
      | binary op =>
        have hlength : 2 ≤ results.length := hs.1
        rcases results with _ | ⟨w, _ | ⟨v, results⟩⟩
        · contradiction
        · contradiction
        · exact .inl ⟨_, rfl⟩

/-- The tasks of every state on the way are supplied. -/
theorem Reachable.supplied {e : Expr} (h : Reachable env e.start s) :
    Supplied s.tasks s.results.length := by
  induction h with
  | refl => exact rfl
  | next _ hturn ih => exact ih.turn hturn

/-- What is reached after a turn is reached. -/
theorem Reachable.head {s'' : State} (hturn : Expr.turn env s = .next s')
    (h : Reachable env s' s'') : Reachable env s s'' := by
  induction h with
  | refl => exact .next .refl hturn
  | next _ hlast ih => exact .next ih hlast

/-- The machine reaches a state in which it halts with its outcome. -/
theorem exists_halt (env : Environment) (s : State) :
    ∃ s', Reachable env s s' ∧ turn env s' = .halt (run env s) := by
  induction s using run.induct env with
  | case1 s s' hturn ih =>
      obtain ⟨last, hreach, hhalt⟩ := ih
      rw [run_of_next hturn]
      exact ⟨last, hreach.head hturn, hhalt⟩
  | case2 s outcome hturn =>
      rw [run_of_halt hturn]
      exact ⟨s, .refl, hturn⟩

/-- The results that the machine takes are there whenever it takes them: one for a prefix
operator, two for a binary one, and exactly one at the end. -/
def Stocked (s : State) : Prop :=
  (∀ op tasks, s.tasks = .unary op :: tasks → 1 ≤ s.results.length) ∧
    (∀ op tasks, s.tasks = .binary op :: tasks → 2 ≤ s.results.length) ∧
    (s.tasks = [] → s.results.length = 1)

/-- A supplied state is stocked. -/
theorem Supplied.stocked (hs : Supplied s.tasks s.results.length) : Stocked s := by
  refine ⟨?_, ?_, ?_⟩
  · intro op tasks htasks
    rw [htasks] at hs
    exact hs.1
  · intro op tasks htasks
    rw [htasks] at hs
    exact hs.1
  · intro htasks
    rw [htasks] at hs
    exact hs

/-! ## The refinement -/

/-- Where the machine halts it has its only result, or it misses a variable. -/
theorem Reachable.halt_cases {e : Expr} {outcome : Except Failure Value}
    (h : Reachable env e.start s) (hhalt : Expr.turn env s = .halt outcome) :
    (∃ v, s = ⟨[], [v]⟩ ∧ outcome = .ok v) ∨
      ∃ name, outcome = reject (.undefinedVariable name) none := by
  rcases h.supplied.progress env with ⟨s', hnext⟩ | ⟨v, hs, hv⟩ | ⟨name, hname⟩
  · rw [hhalt] at hnext
    contradiction
  · rw [hhalt] at hv
    cases hv
    exact .inl ⟨v, hs, rfl⟩
  · rw [hhalt] at hname
    cases hname
    exact .inr ⟨name, rfl⟩

/-- The machine gives the meaning of every tree in every environment. On the way no operator
misses an operand, and a value is given when it is the only result and nothing is left to do. -/
theorem evaluate_refines_denote (e : Expr) (env : Environment) :
    e.evaluate env = e.denote env ∧
      (∀ s, Reachable env e.start s →
        Stocked s ∧ turn env s ≠ .halt (.error (.misuse .noOperand))) ∧
      (∀ v, e.denote env = .ok v → Reachable env e.start ⟨[], [v]⟩) := by
  refine ⟨run_start env e, ?_, ?_⟩
  · intro s hreach
    refine ⟨hreach.supplied.stocked, ?_⟩
    intro hmisuse
    rcases hreach.halt_cases hmisuse with ⟨v, _, hv⟩ | ⟨name, hname⟩
    · contradiction
    · cases hname
  · intro v hv
    obtain ⟨last, hreach, hhalt⟩ := exists_halt env e.start
    rw [run_start, hv] at hhalt
    rcases hreach.halt_cases hhalt with ⟨w, rfl, hw⟩ | ⟨name, hname⟩
    · cases hw
      exact hreach
    · cases hname

end Criterion.Expr
