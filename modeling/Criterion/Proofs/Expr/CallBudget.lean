import Criterion.Limits.Basic
import Criterion.Proofs.Expr.StreamEnd

/-!
# How many rules are at work at once

The rules of the grammar call one another: an expression calls an operand, an operand what stands
without a prefix operator, and where the stream nests they call each other one level deeper. Below
they do so with a counter of the depth and a budget of calls. A call takes a unit of the budget for
itself and passes on what is left, so that the unit is there again when the call is over; a call for
which no unit is left exhausts the budget. No level takes more than three units, since it has at
most one call of each rule at work, hence a budget of three units a level is never exhausted. It is
not too large either: a stream can be stuck at a parenthesis that opens one group after another.
-/

namespace Criterion.Expr

/-- The calls of the rules of the grammar. -/
inductive Call where
  /-- An expression whose operators have at least a given level. -/
  | expression (floor : Nat)
  /-- An operand with the prefix operators before it. -/
  | operand
  /-- A literal, a variable or a group. -/
  | primary

/-- Where a parser stands: the tokens not yet taken, and how deep it is nested. -/
structure Cursor where
  rest : List Token
  depth : Nat

/-- The cursor behind the current token. Where none is left the last one stays the current one. -/
def Cursor.advance (c : Cursor) : Cursor := ⟨c.rest.tail, c.depth⟩

/-- What a call within a budget comes to. -/
inductive Attempt where
  /-- A call was to be made for which there was no unit left. -/
  | exhausted
  | failed (failure : Failure)
  | parsed (e : Expr) (c : Cursor)

namespace Attempt

/-- Go on with a tree and the cursor behind it. -/
def andThen : Attempt → (Expr → Cursor → Attempt) → Attempt
  | exhausted, _ => exhausted
  | failed failure, _ => failed failure
  | parsed e c, next => next e c

/-- What is parsed at some depth as an attempt that ends at that depth. -/
def ofParsed (depth : Nat) : Parsed → Attempt
  | .ok (e, rest) => parsed e ⟨rest, depth⟩
  | .error failure => failed failure

end Attempt

/-- Make a call one level deeper. The depth is raised before it is compared with the limit, and
lowered when the call is over. -/
def nested (last : Token) (limit : Int) (call : Cursor → Attempt) (c : Cursor) : Attempt :=
  let deeper : Cursor := ⟨c.rest, c.depth + 1⟩
  if limit < deeper.depth then
    .failed (.rejected ⟨.tooDeep limit, some (current last deeper.rest).pos⟩)
  else (call deeper).andThen fun e c => .parsed e ⟨c.rest, c.depth - 1⟩

/-- The operator that a loop joins next: the current token, if it is one of at least a given level.
A stream that is at its end still has a current token. -/
def nextOperator? (last : Token) (floor : Nat) (c : Cursor) : Option BinaryOp :=
  (current last c.rest).binaryOp?.filter fun op => floor ≤ op.level

/-- Join operators and right operands to a left operand as long as operators of at least the level
`floor` follow. A turn for which no token is left exhausts the budget. -/
def joinWithin (last : Token) (right : Nat → Cursor → Attempt) (floor : Nat) :
    (turns : List Token) → Expr → Cursor → Attempt
  | [], left, c =>
    match nextOperator? last floor c with
    | none => .parsed left c
    | some _ => .exhausted
  | _ :: turns, left, c =>
    match nextOperator? last floor c with
    | none => .parsed left c
    | some op =>
      (right (op.level + 1) c.advance).andThen fun e c =>
        joinWithin last right floor turns (.binary op left e) c

/-- Call a rule within a budget. -/
def callWithin (last : Token) (limit : Int) : (budget : Nat) → Call → Cursor → Attempt
  | 0, _, _ => .exhausted
  | budget + 1, .expression floor, c =>
    (callWithin last limit budget .operand c).andThen fun left c =>
      joinWithin last
        (fun floor => nested last limit (callWithin last limit budget (.expression floor)))
        floor c.rest left c
  | budget + 1, .operand, c =>
    match (current last c.rest).unaryOp? with
    | .error failure => .failed failure
    | .ok (some op) =>
      (nested last limit (callWithin last limit budget .operand) c.advance).andThen fun e c =>
        .parsed (.unary op e) c
    | .ok none => callWithin last limit budget .primary c
  | budget + 1, .primary, c =>
    let token := current last c.rest
    match token.kind with
    | .number =>
      match token.value.toFloat with
      | .ok x => .parsed (.number x) c.advance
      | .error failure => .failed failure
    | .boolean => .parsed (.boolean token.value.isTrue) c.advance
    | .ident => .parsed (.ident token.value.toText) c.advance
    | .opening =>
      (nested last limit (callWithin last limit budget (.expression 0)) c.advance).andThen
        fun e c => .ofParsed c.depth (close last e c.rest)
    | _ =>
      .failed (.rejected ⟨.unexpectedToken "number, boolean, identifier or '('" token.describe,
        some token.pos⟩)

/-- The tree of a stream of tokens that is parsed within a budget of calls, where none is left if
the budget is exhausted. -/
def ofTokensWithin (budget : Nat) (tokens : List Token) (maxDepth : Int) :
    Option (Except Failure Expr) :=
  if maxDepth < 1 || (deepestLimit : Int) < maxDepth then
    some (.error (.misuse (.depthOutOfRange maxDepth)))
  else
    match tokens.getLast? with
    | none => some (.error (.misuse .noTokens))
    | some last =>
      match callWithin last maxDepth budget (.expression 0) ⟨tokens, 0⟩ with
      | .exhausted => none
      | .failed failure => some (.error failure)
      | .parsed e c =>
        let token := current last c.rest
        if token.kind = .eof then some (.ok e)
        else some (reject (.trailingTokens token.describe) (some token.pos))

variable {last : Token} {limit : Int} {deeper : Rules} {budget depth least levels : Nat}
  {tokens rest : List Token} {e : Expr}

/-! ## One level deeper -/

/-- Nested calls within every budget from some number of units on do what the rules of the level
below do. They end at the depth at which they began. -/
structure Serves (last : Token) (limit : Int) (least depth : Nat) (deeper : Rules) : Prop where
  operand {budget : Nat} (h : least ≤ budget) {rest : List Token} (hend : EndsIn last rest) :
    nested last limit (callWithin last limit budget .operand) ⟨rest, depth⟩ =
      .ofParsed depth (deeper.operand rest)
  expression {budget : Nat} (h : least ≤ budget) (floor : Nat) {rest : List Token}
    (hend : EndsIn last rest) :
    nested last limit (callWithin last limit budget (.expression floor)) ⟨rest, depth⟩ =
      .ofParsed depth (deeper.expression floor rest)

/-- Below the greatest depth every call is refused, whatever the budget. -/
theorem nested_refused (h : limit < (depth + 1 : Nat)) (call : Cursor → Attempt)
    (rest : List Token) :
    nested last limit call ⟨rest, depth⟩ =
      .ofParsed depth (reject (.tooDeep limit) (some (current last rest).pos)) := if_pos h

/-- Down to the greatest depth a call has the outcome of its rule, and the depth is lowered by as
much as it was raised. -/
theorem nested_eq {call : Cursor → Attempt} {parsed : Parsed}
    (h : ((depth + 1 : Nat) : Int) ≤ limit)
    (hcall : call ⟨rest, depth + 1⟩ = .ofParsed (depth + 1) parsed) :
    nested last limit call ⟨rest, depth⟩ = .ofParsed depth parsed := by
  simp only [nested, if_neg (Int.not_lt.2 h), hcall]
  cases parsed with
  | error failure => rfl
  | ok p => rfl

/-! ## The rules of one level -/

/-- At the end of a stream there is no operator to be joined, unless the stream ends in one. -/
theorem nextOperator?_end (h : last.kind ≠ .operator) (floor : Nat) :
    nextOperator? last floor ⟨[], depth⟩ = none := by
  have hnone : (current last []).binaryOp? = none := Token.binaryOp?_eq_none h
  rw [nextOperator?, hnone]
  rfl

private theorem nextOperator?_join {floor : Nat} {t : Token} {op : BinaryOp}
    (hop : t.binaryOp? = some op) (hle : floor ≤ op.level) :
    nextOperator? last floor ⟨t :: rest, depth⟩ = some op := by
  simp [nextOperator?, current, hop, hle]

private theorem nextOperator?_below {floor : Nat} {t : Token} (h : Below floor (t :: rest)) :
    nextOperator? last floor ⟨t :: rest, depth⟩ = none := by
  rw [nextOperator?, Option.filter_eq_none_iff]
  intro op hop
  rw [decide_eq_true_eq, Nat.not_le]
  exact below_cons.1 h op hop

/-- The loop joins what the rules of the level below give it. There are turns enough, since each of
them takes a token. -/
theorem joinWithin_eq (hd : deeper.LeaveEnds) (ho : deeper.EndInOperand last)
    {right : Nat → Cursor → Attempt}
    (hright : ∀ floor rest, EndsIn last rest →
      right floor ⟨rest, depth⟩ = .ofParsed depth (deeper.expression floor rest))
    (floor : Nat) {turns : List Token} (left : Expr) (hend : EndsIn last rest)
    (hleft : rest = [] → last.kind ≠ .operator) (hturns : rest.length ≤ turns.length) :
    joinWithin last right floor turns left ⟨rest, depth⟩ =
      .ofParsed depth (chain deeper floor turns left rest) := by
  induction turns generalizing left rest with
  | nil =>
    obtain rfl := List.eq_nil_of_length_eq_zero (Nat.le_zero.1 hturns)
    rw [joinWithin, nextOperator?_end (hleft rfl)]
    rfl
  | cons turn turns ih =>
    cases rest with
    | nil =>
      rw [joinWithin, nextOperator?_end (hleft rfl)]
      rfl
    | cons t rest =>
      rcases exists_join_or_below floor t rest with ⟨op, hop, hle⟩ | hbelow
      · have htail := hend.of_suffix (List.suffix_cons t rest)
        rw [joinWithin, nextOperator?_join hop hle, chain_join hop hle]
        simp only [Cursor.advance, List.tail_cons]
        rw [hright _ _ htail]
        cases hexpression : deeper.expression (op.level + 1) rest with
        | error failure => rfl
        | ok p =>
          obtain ⟨e, after⟩ := p
          have hsuffix := hd.expression _ _ e after hexpression
          refine ih (.binary op left e) (htail.of_suffix hsuffix) ?_ ?_
          · rintro rfl
            exact ho.expression htail hexpression
          · exact Nat.le_trans hsuffix.length_le (Nat.le_of_succ_le_succ hturns)
      · rw [joinWithin, nextOperator?_below hbelow, chain_stop hbelow]
        rfl

/-- One unit more than for the level below is enough for a literal, a variable or a group. -/
theorem callWithin_primary (h : Serves last limit least depth deeper) (hbudget : least + 1 ≤ budget)
    (hend : EndsIn last rest) :
    callWithin last limit budget .primary ⟨rest, depth⟩ =
      .ofParsed depth (primary last deeper rest) := by
  obtain ⟨budget, rfl⟩ := Nat.exists_eq_add_one_of_ne_zero (by omega : budget ≠ 0)
  rw [callWithin, primary]
  cases (current last rest).kind with
  | number =>
    simp only
    cases (current last rest).value.toFloat <;> rfl
  | opening =>
    simp only [Cursor.advance]
    rw [h.expression (Nat.le_of_succ_le_succ hbudget) 0 (hend.of_suffix (List.tail_suffix rest))]
    cases deeper.expression 0 rest.tail with
    | error failure => rfl
    | ok p => rfl
  | _ => rfl

/-- Two units more are enough for an operand. -/
theorem callWithin_operand (h : Serves last limit least depth deeper) (hbudget : least + 2 ≤ budget)
    (hend : EndsIn last rest) :
    callWithin last limit budget .operand ⟨rest, depth⟩ =
      .ofParsed depth (operand last deeper rest) := by
  obtain ⟨budget, rfl⟩ := Nat.exists_eq_add_one_of_ne_zero (by omega : budget ≠ 0)
  rw [callWithin, operand]
  cases (current last rest).unaryOp? with
  | error failure => rfl
  | ok op? =>
    cases op? with
    | none => exact callWithin_primary h (by omega) hend
    | some op =>
      simp only [Cursor.advance]
      rw [h.operand (by omega) (hend.of_suffix (List.tail_suffix rest))]
      cases deeper.operand rest.tail with
      | error failure => rfl
      | ok p => rfl

/-- Three units more are enough for an expression. -/
theorem callWithin_expression (hd : deeper.LeaveEnds) (ho : deeper.EndInOperand last)
    (h : Serves last limit least depth deeper) (hbudget : least + 3 ≤ budget) (floor : Nat)
    (hend : EndsIn last rest) :
    callWithin last limit budget (.expression floor) ⟨rest, depth⟩ =
      .ofParsed depth ((Rules.above last deeper).expression floor rest) := by
  obtain ⟨budget, rfl⟩ := Nat.exists_eq_add_one_of_ne_zero (by omega : budget ≠ 0)
  rw [callWithin, callWithin_operand h (by omega) hend]
  simp only [Rules.above]
  cases hoperand : operand last deeper rest with
  | error failure => rfl
  | ok p =>
    obtain ⟨left, after⟩ := p
    refine joinWithin_eq hd ho
      (fun floor rest hend => h.expression (Nat.le_of_succ_le (by omega)) floor hend) floor left
      (hend.of_suffix (operand_leavesEnd hd rest left after hoperand)) ?_ (Nat.le_refl _)
    rintro rfl
    exact operand_endInOperand hd ho hend hoperand

/-! ## All levels -/

/-- Nested calls with some levels left need three units for each of them. -/
theorem serves_tower (hdepth : limit = (depth + levels : Nat)) :
    Serves last limit (3 * levels) depth (Rules.tower last limit levels) := by
  induction levels generalizing depth with
  | zero =>
    have hdeep : limit < (depth + 1 : Nat) := by omega
    constructor
    · intro budget _ rest _
      exact nested_refused hdeep _ rest
    · intro budget _ floor rest _
      exact nested_refused hdeep _ rest
  | succ levels ih =>
    have hbelow : Serves last limit (3 * levels) (depth + 1) (Rules.tower last limit levels) :=
      ih (by omega)
    have hle : ((depth + 1 : Nat) : Int) ≤ limit := by omega
    constructor
    · intro budget h rest hend
      exact nested_eq hle (callWithin_operand hbelow (by omega) hend)
    · intro budget h floor rest hend
      exact nested_eq hle (callWithin_expression (Rules.tower_leaveEnds levels)
        (Rules.tower_endInOperand levels) hbelow (by omega) floor hend)

/-! ## Whole streams -/

/-- Three units a level are enough for every stream. -/
theorem ofTokensWithin_eq {maxDepth budget : Nat} (h : 3 * (maxDepth + 1) ≤ budget)
    (tokens : List Token) :
    ofTokensWithin budget tokens maxDepth = some (ofTokens tokens maxDepth) := by
  rw [ofTokensWithin, ofTokens]
  split
  · rfl
  · cases hlast : tokens.getLast? with
    | none => rfl
    | some last =>
      have hend : EndsIn last tokens := fun t ht => Option.some.inj (ht.symm.trans hlast)
      have hserves : Serves last maxDepth (3 * maxDepth) 0 (Rules.tower last maxDepth maxDepth) :=
        serves_tower (by omega)
      simp only [Int.toNat_natCast, Rules.tower]
      rw [callWithin_expression (Rules.tower_leaveEnds maxDepth) (Rules.tower_endInOperand maxDepth)
        hserves (by omega) 0 hend]
      cases (Rules.above last (Rules.tower last maxDepth maxDepth)).expression 0 tokens with
      | error failure => rfl
      | ok p =>
        obtain ⟨e, rest⟩ := p
        simp only [Attempt.ofParsed]
        split <;> rfl

/-- Before an opening parenthesis a call reaches the next level with three units less. -/
theorem callWithin_opening (hk : (current last rest).kind = .opening) (budget : Nat) :
    callWithin last limit (budget + 3) (.expression 0) ⟨rest, depth⟩ =
      ((nested last limit (callWithin last limit budget (.expression 0)) ⟨rest.tail, depth⟩).andThen
        fun e c => .ofParsed c.depth (close last e c.rest)).andThen fun left c =>
          joinWithin last
            (fun floor => nested last limit
              (callWithin last limit (budget + 2) (.expression floor))) 0 c.rest left c := by
  have hunary : (current last rest).unaryOp? = .ok none :=
    Token.unaryOp?_eq_none (by rw [hk]; decide)
  rw [callWithin, callWithin, hunary]
  simp only [callWithin, hk, Cursor.advance]

/-- The end of a stream that is an opening parenthesis is a group that opens another one, and so on
through all levels, each of which has three calls at work. -/
theorem callWithin_stuck (hk : last.kind = .opening) (hdepth : limit = (depth + levels : Nat))
    (hrest : rest.tail = []) (hcurrent : current last rest = last) :
    callWithin last limit (3 * levels + 2) (.expression 0) ⟨rest, depth⟩ = .exhausted := by
  induction levels generalizing depth rest with
  | zero =>
    have hunary : last.unaryOp? = .ok none := Token.unaryOp?_eq_none (by rw [hk]; decide)
    rw [callWithin, callWithin, hcurrent, hunary]
    rfl
  | succ levels ih =>
    have hle : ¬ limit < ((depth + 1 : Nat) : Int) := by omega
    have hbelow : callWithin last limit (3 * levels + 2) (.expression 0) ⟨rest.tail, depth + 1⟩ =
        .exhausted := ih (by omega) (by rw [hrest]; rfl) (by rw [hrest]; rfl)
    rw [show 3 * (levels + 1) + 2 = 3 * levels + 2 + 3 by omega,
      callWithin_opening (by rw [hcurrent, hk])]
    simp only [nested, if_neg hle, hbelow]
    rfl

/-- No stream takes more than three calls a level at the same time, at one level more than the depth
that is allowed, and there is a stream that takes as many. -/
theorem ofTokensWithin_three_a_level :
    (∀ (maxDepth : Nat) (tokens : List Token),
      ofTokensWithin (3 * (maxDepth + 1)) tokens maxDepth = some (ofTokens tokens maxDepth)) ∧
    ∀ limits : Limits, ∃ tokens ≠ [],
      ofTokensWithin (3 * (limits.maxDepth + 1) - 1) tokens limits.maxDepth = none := by
  refine ⟨fun maxDepth => ofTokensWithin_eq (Nat.le_refl _), fun limits => ?_⟩
  obtain ⟨hone, hle⟩ := limits.maxDepth_inRange
  have hrange : ¬ ((limits.maxDepth : Int) < 1 ∨ (deepestLimit : Int) < limits.maxDepth) := by omega
  let parenthesis : Token := ⟨.opening, .text "(", 0⟩
  have hstuck : callWithin parenthesis limits.maxDepth (3 * limits.maxDepth + 2) (.expression 0)
      ⟨[parenthesis], 0⟩ = .exhausted := callWithin_stuck rfl (by omega) rfl rfl
  refine ⟨[parenthesis], List.cons_ne_nil _ _, ?_⟩
  simp only [ofTokensWithin, Bool.or_eq_true, decide_eq_true_eq, if_neg hrange,
    List.getLast?_singleton]
  rw [show 3 * (limits.maxDepth + 1) - 1 = 3 * limits.maxDepth + 2 by omega, hstuck]

end Criterion.Expr
