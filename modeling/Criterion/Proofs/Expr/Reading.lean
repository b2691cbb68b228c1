import Criterion.Proofs.Expr.CallBudget
import Criterion.Proofs.Failure.Stage
import Mathlib.Logic.Relation

/-!
# Reading a stream by its index

A parser that looks tokens up by their index takes one step after another. It keeps what the trees
it is still to read are for, and behind the last token its index stays where it is. A stream made by
hand may lack an end token or go on behind it; there the number of tokens that are left is no
measure, since the last one can be looked at again and again. A reading ends all the same: it takes
the steps of the rules, of which no more than three a level are at work at once. No step leads out
of the stream or beyond its first end token.
-/

namespace Criterion.Expr

/-- What a reading is at. -/
inductive Control where
  /-- A rule is to be called. -/
  | call (call : Call)
  /-- A rule is to be called one level deeper. -/
  | enter (call : Call)
  /-- Operators of at least a given level are to be joined to a left operand. -/
  | join (floor : Nat) (left : Expr)
  /-- A tree has been read. -/
  | found (e : Expr)

/-- What a tree is read for. -/
inductive Purpose where
  /-- An expression begins with it. -/
  | first (floor : Nat)
  /-- It is the operand of a prefix operator. -/
  | operand (op : UnaryOp)
  /-- It stands in parentheses. -/
  | group
  /-- It is the right operand of an operator that is joined to a left one. -/
  | right (floor : Nat) (left : Expr) (op : BinaryOp)
  /-- It ends a level. -/
  | level

/-- How far a stream has been read: what the reading is at, the index of the current token, how deep
it is nested, and what the trees that are not complete are for, the innermost first. -/
structure Reading where
  control : Control
  index : Nat
  depth : Nat
  pending : List Purpose

/-- What a reading does at a token. -/
inductive Move where
  /-- The index stays where it is. -/
  | stay (control : Control) (depth : Nat) (pending : List Purpose)
  /-- The current token is taken. -/
  | take (control : Control) (pending : List Purpose)
  | stop (outcome : Except Failure Expr)

/-- The move of a reading at the current token. -/
def Reading.move (limit : Int) (r : Reading) (token : Token) : Move :=
  match r.control, r.pending with
  | .call (.expression floor), pending => .stay (.call .operand) r.depth (.first floor :: pending)
  | .call .operand, pending =>
    match token.unaryOp? with
    | .error failure => .stop (.error failure)
    | .ok (some op) => .take (.enter .operand) (.operand op :: pending)
    | .ok none => .stay (.call .primary) r.depth pending
  | .call .primary, pending =>
    match token.kind with
    | .number =>
      match token.value.toFloat with
      | .ok x => .take (.found (.number x)) pending
      | .error failure => .stop (.error failure)
    | .boolean => .take (.found (.boolean token.value.isTrue)) pending
    | .ident => .take (.found (.ident token.value.toText)) pending
    | .opening => .take (.enter (.expression 0)) (.group :: pending)
    | _ =>
      .stop (reject (.unexpectedToken "number, boolean, identifier or '('" token.describe)
        (some token.pos))
  | .enter call, pending =>
    if limit < (r.depth + 1 : Nat) then .stop (reject (.tooDeep limit) (some token.pos))
    else .stay (.call call) (r.depth + 1) (.level :: pending)
  | .join floor left, pending =>
    match token.binaryOp?.filter fun op => floor ≤ op.level with
    | none => .stay (.found left) r.depth pending
    | some op => .take (.enter (.expression (op.level + 1))) (.right floor left op :: pending)
  | .found e, .first floor :: pending => .stay (.join floor e) r.depth pending
  | .found e, .operand op :: pending => .stay (.found (.unary op e)) r.depth pending
  | .found e, .group :: pending =>
    if token.kind = .closing then .take (.found e) pending
    else .stop (reject (.expectedToken "')'" token.describe) (some token.pos))
  | .found e, .right floor left op :: pending =>
    .stay (.join floor (.binary op left e)) r.depth pending
  | .found e, .level :: pending => .stay (.found e) (r.depth - 1) pending
  | .found e, [] =>
    if token.kind = .eof then .stop (.ok e)
    else .stop (reject (.trailingTokens token.describe) (some token.pos))

/-- The index behind a given one. Behind the last token it stays where it is. -/
def nextIndex (tokens : List Token) (index : Nat) : Nat :=
  if index + 1 < tokens.length then index + 1 else index

/-- The reading that a move goes on to. None goes on from a stop. -/
def Move.next? (tokens : List Token) (r : Reading) : Move → Option Reading
  | stay control depth pending => some ⟨control, r.index, depth, pending⟩
  | take control pending => some ⟨control, nextIndex tokens r.index, r.depth, pending⟩
  | stop _ => none

namespace Reading

/-- A reading goes on to another in one step. There is no step at an index outside of the stream. -/
def Step (tokens : List Token) (limit : Int) (r r' : Reading) : Prop :=
  ∃ token, tokens[r.index]? = some token ∧ (r.move limit token).next? tokens r = some r'

/-- A reading goes on to another in some number of steps. -/
def Reaches (tokens : List Token) (limit : Int) : Reading → Reading → Prop :=
  Relation.ReflTransGen (Step tokens limit)

/-- A reading stops at its current token with an outcome. -/
def Stops (tokens : List Token) (limit : Int) (r : Reading) (outcome : Except Failure Expr) :
    Prop :=
  ∃ token, tokens[r.index]? = some token ∧ r.move limit token = .stop outcome

/-- A reading comes to an outcome after some number of steps. -/
def Ends (tokens : List Token) (limit : Int) (r : Reading) (outcome : Except Failure Expr) : Prop :=
  ∃ last, Reaches tokens limit r last ∧ Stops tokens limit last outcome

/-- The reading of a stream begins with an expression at the first token. -/
def initial : Reading := ⟨.call (.expression 0), 0, 0, []⟩

end Reading

variable {tokens rest : List Token} {limit : Int} {r r' : Reading} {token last : Token}
  {outcome outcome' : Except Failure Expr} {control control' : Control} {depth index : Nat}

open Reading

/-! ## One step -/

/-- What may be done at a well-typed token: an end token is not taken, no tree is complete but
there, and every failure is one of parsing. -/
def Move.Allowed (token : Token) : Move → Prop
  | stay .. => True
  | take .. => token.kind ≠ .eof
  | stop (.ok _) => token.kind = .eof
  | stop (.error failure) => failure.ReportedAt (some .parsing)

/-- At a well-typed token nothing is done that may not be done. -/
theorem Reading.move_allowed (ht : token.WellTyped) (limit : Int) (r : Reading) :
    (r.move limit token).Allowed token := by
  obtain ⟨control, index, depth, pending⟩ := r
  cases control with
  | call call =>
    cases call with
    | expression floor => trivial
    | operand =>
      rcases ht.unaryOp?_cases with hop | ⟨op, hop, hspells⟩
      · simp only [move, hop]
        trivial
      · simp only [move, hop, Move.Allowed, hspells.1]
        decide
    | primary =>
      cases hk : token.kind with
      | number =>
        obtain ⟨x, hx⟩ : ∃ x, token.value = .float x := by simpa only [Token.WellTyped, hk] using ht
        simp only [move, hk, hx, Datum.toFloat, Move.Allowed]
        decide
      | boolean | ident | opening =>
        simp only [move, hk, Move.Allowed]
        decide
      | operator | closing | eof =>
        simp only [move, hk]
        exact .rejected trivial rfl
  | enter call =>
    simp only [move]
    split
    · exact .rejected trivial rfl
    · trivial
  | join floor left =>
    simp only [move]
    cases hop : token.binaryOp? with
    | none => trivial
    | some op =>
      have hne : token.kind ≠ .eof := by
        rw [(ht.spells_of_binaryOp? hop).1]
        decide
      cases (some op).filter fun op => floor ≤ op.level with
      | none => trivial
      | some op => exact hne
  | found e =>
    cases pending with
    | nil =>
      simp only [move]
      split
      · assumption
      · exact .rejected trivial rfl
    | cons purpose pending =>
      cases purpose with
      | group =>
        simp only [move]
        split
        · rename_i hk
          simp only [Move.Allowed, hk]
          decide
        · exact .rejected trivial rfl
      | _ => trivial

private theorem nextIndex_lt (h : index < tokens.length) :
    nextIndex tokens index < tokens.length := by
  unfold nextIndex
  split <;> omega

/-- A step leads to an index of the stream. -/
theorem Reading.Step.index_lt (h : Step tokens limit r r') : r'.index < tokens.length := by
  obtain ⟨token, htoken, hnext⟩ := h
  obtain ⟨hlt, _⟩ := List.getElem?_eq_some_iff.1 htoken
  cases hmove : r.move limit token with
  | stay =>
    rw [hmove] at hnext
    cases hnext
    exact hlt
  | take =>
    rw [hmove] at hnext
    cases hnext
    exact nextIndex_lt hlt
  | stop =>
    rw [hmove] at hnext
    contradiction

/-- There is at most one step. -/
theorem Reading.Step.unique {r'' : Reading} (h : Step tokens limit r r')
    (h' : Step tokens limit r r'') : r'' = r' := by
  obtain ⟨token, htoken, hnext⟩ := h
  obtain ⟨token', htoken', hnext'⟩ := h'
  obtain rfl := Option.some.inj (htoken.symm.trans htoken')
  exact Option.some.inj (hnext'.symm.trans hnext)

/-- A reading that stops has no step, and stops with one outcome. -/
theorem Reading.Stops.unique (h : Stops tokens limit r outcome) :
    (∀ r', ¬ Step tokens limit r r') ∧ ∀ outcome', Stops tokens limit r outcome' →
      outcome' = outcome := by
  obtain ⟨token, htoken, hmove⟩ := h
  constructor
  · rintro r' ⟨token', htoken', hnext⟩
    obtain rfl := Option.some.inj (htoken.symm.trans htoken')
    rw [hmove] at hnext
    contradiction
  · rintro outcome' ⟨token', htoken', hmove'⟩
    obtain rfl := Option.some.inj (htoken.symm.trans htoken')
    exact Move.stop.inj (hmove'.symm.trans hmove)

/-! ## Runs -/

/-- Whatever reading is reached, its index is one of the stream. -/
theorem Reading.Reaches.index_lt (h : Reaches tokens limit r r')
    (hindex : r.index < tokens.length) : r'.index < tokens.length := by
  cases h with
  | refl => exact hindex
  | tail _ hstep => exact hstep.index_lt

/-- A reading that stops goes on to nothing else. -/
theorem Reading.Stops.eq_of_reaches (h : Stops tokens limit r outcome)
    (hreach : Reaches tokens limit r r') : r' = r := by
  rcases hreach.cases_head with rfl | ⟨next, hstep, _⟩
  · rfl
  · exact absurd hstep (h.unique.1 next)

/-- Every reading on the way to an outcome comes to that outcome and to no other. -/
theorem Reading.Ends.iff_of_reaches (h : Ends tokens limit r outcome)
    (hreach : Reaches tokens limit r r') :
    Ends tokens limit r' outcome' ↔ outcome' = outcome := by
  obtain ⟨last, hlast, hstops⟩ := h
  have hunique : Relator.RightUnique (Step tokens limit) := fun _ _ _ h h' => h'.unique h
  have hrest : Reaches tokens limit r' last := by
    rcases Relation.ReflTransGen.total_of_right_unique hunique hreach hlast with hrest | hback
    · exact hrest
    · rw [hstops.eq_of_reaches hback]
      exact .refl
  constructor
  · rintro ⟨last', hlast', hstops'⟩
    have hsame : last' = last := by
      rcases Relation.ReflTransGen.total_of_right_unique hunique hrest hlast' with hmore | hmore
      · exact hstops.eq_of_reaches hmore
      · exact (hstops'.eq_of_reaches hmore).symm
    subst hsame
    exact hstops.unique.2 outcome' hstops'
  · rintro rfl
    exact ⟨last, hrest, hstops⟩

/-! ## What the rules do -/

/-- The reading that stands where a cursor stands. -/
def Cursor.reading (tokens : List Token) (c : Cursor) (control : Control) (pending : List Purpose) :
    Reading :=
  ⟨control, currentIndex tokens c.rest.length, c.depth, pending⟩

/-- An attempt is what readings come to that differ in what else they are for. Nothing is said about
an attempt that is exhausted. -/
def Attempt.Follows (tokens : List Token) (limit : Int) (readings : List Purpose → Reading) :
    Attempt → Prop
  | exhausted => True
  | failed failure => ∀ pending, Ends tokens limit (readings pending) (.error failure)
  | parsed e c => c.rest <:+ tokens ∧ ∀ pending,
    Reaches tokens limit (readings pending) (c.reading tokens (.found e) pending)

variable {c : Cursor} {attempt : Attempt} {next : Expr → Cursor → Attempt}
  {pending pending' : List Purpose} {readings readings' : List Purpose → Reading}

private theorem nextIndex_currentIndex (hrest : rest <:+ tokens) :
    nextIndex tokens (currentIndex tokens rest.length) = currentIndex tokens rest.tail.length := by
  have hle := hrest.length_le
  rw [List.length_tail]
  unfold nextIndex currentIndex
  split <;> omega

/-- A move without a token leaves the cursor where it is. -/
theorem Cursor.reaches_stay (hlast : tokens.getLast? = some last) (hrest : c.rest <:+ tokens)
    (hmove : (c.reading tokens control pending).move limit (current last c.rest) =
      .stay control' depth pending') :
    Reaches tokens limit (c.reading tokens control pending)
      (Cursor.reading tokens ⟨c.rest, depth⟩ control' pending') := by
  refine .single ⟨_, getElem?_currentIndex hlast hrest, ?_⟩
  rw [hmove]
  rfl

/-- A move that takes a token advances the cursor. -/
theorem Cursor.reaches_take (hlast : tokens.getLast? = some last) (hrest : c.rest <:+ tokens)
    (hmove : (c.reading tokens control pending).move limit (current last c.rest) =
      .take control' pending') :
    Reaches tokens limit (c.reading tokens control pending)
      (c.advance.reading tokens control' pending') := by
  refine .single ⟨_, getElem?_currentIndex hlast hrest, ?_⟩
  rw [hmove]
  simp only [Move.next?, reading, advance, nextIndex_currentIndex hrest]

/-- A move may end the reading. -/
theorem Cursor.ends_stop (hlast : tokens.getLast? = some last) (hrest : c.rest <:+ tokens)
    (hmove : (c.reading tokens control pending).move limit (current last c.rest) = .stop outcome) :
    Ends tokens limit (c.reading tokens control pending) outcome :=
  ⟨_, .refl, _, getElem?_currentIndex hlast hrest, hmove⟩

/-- What is come to after some steps is come to from before them. -/
theorem Attempt.Follows.of_reaches (h : attempt.Follows tokens limit readings')
    (hreach : ∀ pending, Reaches tokens limit (readings pending) (readings' pending)) :
    attempt.Follows tokens limit readings := by
  cases attempt with
  | exhausted => trivial
  | failed failure =>
    intro pending
    obtain ⟨last, hlast, hstops⟩ := h pending
    exact ⟨last, (hreach pending).trans hlast, hstops⟩
  | parsed e c => exact ⟨h.1, fun pending => (hreach pending).trans (h.2 pending)⟩

/-- A tree that is read for a purpose is used for it. -/
theorem Attempt.Follows.andThen (purpose : Purpose) (h : attempt.Follows tokens limit readings')
    (hreach : ∀ pending, Reaches tokens limit (readings pending) (readings' (purpose :: pending)))
    (hnext : ∀ e c, c.rest <:+ tokens →
      (next e c).Follows tokens limit fun pending =>
        c.reading tokens (.found e) (purpose :: pending)) :
    (attempt.andThen next).Follows tokens limit readings := by
  cases attempt with
  | exhausted => trivial
  | failed failure =>
    intro pending
    obtain ⟨last, hlast, hstops⟩ := h (purpose :: pending)
    exact ⟨last, (hreach pending).trans hlast, hstops⟩
  | parsed e c =>
    exact (hnext e c h.1).of_reaches fun pending =>
      (hreach pending).trans (h.2 (purpose :: pending))

/-- A call one level deeper is refused or comes back from there. -/
theorem nested_follows (hlast : tokens.getLast? = some last) (hrest : c.rest <:+ tokens)
    {call : Call} {attempt : Cursor → Attempt}
    (h : (attempt ⟨c.rest, c.depth + 1⟩).Follows tokens limit
      (Cursor.reading tokens ⟨c.rest, c.depth + 1⟩ (.call call))) :
    (nested last limit attempt c).Follows tokens limit (c.reading tokens (.enter call)) := by
  simp only [nested]
  by_cases hdeep : limit < (c.depth + 1 : Nat)
  · rw [if_pos hdeep]
    exact fun pending => c.ends_stop hlast hrest (if_pos hdeep)
  · rw [if_neg hdeep]
    exact h.andThen .level (fun pending => c.reaches_stay hlast hrest (if_neg hdeep))
      fun e c hrest => ⟨hrest, fun pending => c.reaches_stay hlast hrest rfl⟩

/-- The loop joins the operators that a reading joins. -/
theorem joinWithin_follows (hlast : tokens.getLast? = some last) {right : Nat → Cursor → Attempt}
    (hright : ∀ floor c, c.rest <:+ tokens →
      (right floor c).Follows tokens limit (c.reading tokens (.enter (.expression floor))))
    (floor : Nat) (turns : List Token) (left : Expr) (hrest : c.rest <:+ tokens) :
    (joinWithin last right floor turns left c).Follows tokens limit
      (c.reading tokens (.join floor left)) := by
  have hstop (left : Expr) (c : Cursor) (hrest : c.rest <:+ tokens)
      (hnone : nextOperator? last floor c = none) :
      (Attempt.parsed left c).Follows tokens limit (c.reading tokens (.join floor left)) := by
    refine ⟨hrest, fun pending => c.reaches_stay hlast hrest ?_⟩
    rw [nextOperator?] at hnone
    simp only [Cursor.reading, move, hnone]
  induction turns generalizing left c with
  | nil =>
    rw [joinWithin]
    cases hop : nextOperator? last floor c with
    | none => exact hstop left c hrest hop
    | some op => trivial
  | cons turn turns ih =>
    rw [joinWithin]
    cases hop : nextOperator? last floor c with
    | none => exact hstop left c hrest hop
    | some op =>
      rw [nextOperator?] at hop
      have htail : c.advance.rest <:+ tokens := (List.tail_suffix _).trans hrest
      refine (hright (op.level + 1) c.advance htail).andThen (.right floor left op)
        (fun pending => c.reaches_take hlast hrest ?_) fun e c hrest => ?_
      · simp only [Cursor.reading, move, hop]
      · exact (ih (.binary op left e) hrest).of_reaches fun pending =>
          c.reaches_stay hlast hrest rfl

/-- A call within a budget is what a reading of its rule comes to. -/
theorem callWithin_follows (limit : Int) (hlast : tokens.getLast? = some last) (budget : Nat)
    (call : Call) (hrest : c.rest <:+ tokens) :
    (callWithin last limit budget call c).Follows tokens limit (c.reading tokens (.call call)) := by
  induction budget generalizing call c with
  | zero => trivial
  | succ budget ih =>
    have htail : c.advance.rest <:+ tokens := (List.tail_suffix _).trans hrest
    have hnested (call : Call) (c : Cursor) (hrest : c.rest <:+ tokens) :
        (nested last limit (callWithin last limit budget call) c).Follows tokens limit
          (c.reading tokens (.enter call)) := nested_follows hlast hrest (ih call hrest)
    cases call with
    | expression floor =>
      rw [callWithin]
      refine (ih .operand hrest).andThen (.first floor)
        (fun pending => c.reaches_stay hlast hrest rfl) fun left c hrest => ?_
      exact (joinWithin_follows hlast (fun floor c => hnested (.expression floor) c) floor _ left
        hrest).of_reaches fun pending => c.reaches_stay hlast hrest rfl
    | operand =>
      rw [callWithin]
      cases hop : (current last c.rest).unaryOp? with
      | error failure =>
        refine fun pending => c.ends_stop hlast hrest ?_
        simp only [Cursor.reading, move, hop]
      | ok op? =>
        cases op? with
        | none =>
          refine (ih .primary hrest).of_reaches fun pending => c.reaches_stay hlast hrest ?_
          simp only [Cursor.reading, move, hop]
        | some op =>
          refine (hnested .operand c.advance htail).andThen (.operand op)
            (fun pending => c.reaches_take hlast hrest ?_) fun e c hrest =>
              ⟨hrest, fun pending => c.reaches_stay hlast hrest rfl⟩
          simp only [Cursor.reading, move, hop]
    | primary =>
      rw [callWithin]
      have hfound (e : Expr) (hmove : ∀ pending,
          (c.reading tokens (.call .primary) pending).move limit (current last c.rest) =
            .take (.found e) pending) :
          (Attempt.parsed e c.advance).Follows tokens limit (c.reading tokens (.call .primary)) :=
        ⟨htail, fun pending => c.reaches_take hlast hrest (hmove pending)⟩
      cases hk : (current last c.rest).kind with
      | number =>
        simp only
        cases hvalue : (current last c.rest).value.toFloat with
        | ok x => exact hfound _ fun pending => by simp only [Cursor.reading, move, hk, hvalue]
        | error failure =>
          refine fun pending => c.ends_stop hlast hrest ?_
          simp only [Cursor.reading, move, hk, hvalue]
      | boolean | ident => exact hfound _ fun pending => by simp only [Cursor.reading, move, hk]
      | opening =>
        refine (hnested (.expression 0) c.advance htail).andThen .group
          (fun pending => c.reaches_take hlast hrest ?_) fun e c hrest => ?_
        · simp only [Cursor.reading, move, hk]
        · rw [close]
          split
          · rename_i hclosing
            exact ⟨(List.tail_suffix _).trans hrest, fun pending =>
              c.reaches_take hlast hrest (if_pos hclosing)⟩
          · rename_i hclosing
            exact fun pending => c.ends_stop hlast hrest (if_neg hclosing)
      | operator | closing | eof =>
        refine fun pending => c.ends_stop hlast hrest ?_
        simp only [Cursor.reading, move, hk]
        rfl

/-! ## Whole streams -/

/-- The reading of a stream comes to what the parser makes of it. -/
theorem ends_ofTokens (hne : tokens ≠ []) {maxDepth : Nat} (hpos : 1 ≤ maxDepth)
    (hle : maxDepth ≤ deepestLimit) :
    Ends tokens maxDepth initial (ofTokens tokens maxDepth) := by
  have hrange : ¬ ((maxDepth : Int) < 1 ∨ (deepestLimit : Int) < maxDepth) := by omega
  obtain ⟨last, hlast⟩ := Option.ne_none_iff_exists'.1 (mt List.getLast?_eq_none_iff.1 hne)
  have hwithin := ofTokensWithin_eq (Nat.le_refl (3 * (maxDepth + 1))) tokens
  have hfollows := callWithin_follows maxDepth hlast (3 * (maxDepth + 1)) (.expression 0)
    (c := ⟨tokens, 0⟩) List.suffix_rfl
  have hstart : Cursor.reading tokens ⟨tokens, 0⟩ (.call (.expression 0)) [] = initial := by
    simp [Cursor.reading, currentIndex, initial]
  rw [← hstart]
  simp only [ofTokensWithin, Bool.or_eq_true, decide_eq_true_eq, if_neg hrange, hlast] at hwithin
  cases hcall : callWithin last maxDepth (3 * (maxDepth + 1)) (.expression 0) ⟨tokens, 0⟩ with
  | exhausted =>
    rw [hcall] at hwithin
    contradiction
  | failed failure =>
    rw [hcall] at hwithin hfollows
    rw [← Option.some.inj hwithin]
    exact hfollows []
  | parsed e c =>
    rw [hcall] at hwithin hfollows
    obtain ⟨hrest, hreach⟩ := hfollows
    obtain ⟨final, hfinal, hstops⟩ : Ends tokens maxDepth (c.reading tokens (.found e) [])
        (ofTokens tokens maxDepth) := by
      refine c.ends_stop hlast hrest ?_
      simp only at hwithin
      by_cases heof : (current last c.rest).kind = .eof
      · rw [if_pos heof] at hwithin
        rw [← Option.some.inj hwithin]
        exact if_pos heof
      · rw [if_neg heof] at hwithin
        rw [← Option.some.inj hwithin]
        exact if_neg heof
    exact ⟨final, (hreach []).trans hfinal, hstops⟩

/-- A well-typed stream is stopped at for a reason of parsing, or at an end token with a tree. -/
theorem Reading.Ends.at_token (htyped : ∀ t ∈ tokens, t.WellTyped)
    (h : Ends tokens limit r outcome) :
    ∃ token ∈ tokens, (Move.stop outcome).Allowed token := by
  obtain ⟨last, _, token, htoken, hmove⟩ := h
  have hmem := List.mem_of_getElem? htoken
  have hallowed := last.move_allowed (htyped token hmem) limit
  rw [hmove] at hallowed
  exact ⟨token, hmem, hallowed⟩

/-! ## The first end token -/

section Cut

variable {front after : List Token}

/-- Up to an end token there are the same steps without what follows it, and none leads beyond. -/
theorem Reading.Step.cut (htyped : ∀ t ∈ front, t.WellTyped) (hend : front.getLast? = some last)
    (hlast : last.kind = .eof) (h : Step (front ++ after) limit r r')
    (hindex : r.index < front.length) :
    Step front limit r r' ∧ r'.index < front.length := by
  obtain ⟨token, htoken, hnext⟩ := h
  rw [List.getElem?_append_left hindex] at htoken
  have hallowed := r.move_allowed (htyped token (List.mem_of_getElem? htoken)) limit
  cases hmove : r.move limit token with
  | stay =>
    rw [hmove] at hnext
    cases hnext
    exact ⟨⟨token, htoken, by rw [hmove]; rfl⟩, hindex⟩
  | take control pending =>
    rw [hmove] at hnext hallowed
    cases hnext
    -- Only the last of these tokens is followed by none of them, and that one is not taken.
    have hlt : r.index + 1 < front.length := by
      refine Nat.lt_of_le_of_ne hindex fun hlength => hallowed ?_
      rw [List.getLast?_eq_getElem?, ← hlength, Nat.succ_sub_one, htoken] at hend
      rwa [Option.some.inj hend]
    have hfront : nextIndex front r.index = r.index + 1 := if_pos hlt
    have hwhole : nextIndex (front ++ after) r.index = r.index + 1 :=
      if_pos (List.length_append ▸ Nat.lt_add_right _ hlt)
    refine ⟨⟨token, htoken, ?_⟩, ?_⟩
    · rw [hmove, Move.next?, hfront, hwhole]
    · rwa [hwhole]
  | stop =>
    rw [hmove] at hnext
    contradiction

/-- A reading comes to the same outcome without what follows an end token. -/
theorem Reading.Ends.cut (htyped : ∀ t ∈ front, t.WellTyped) (hend : front.getLast? = some last)
    (hlast : last.kind = .eof) (hindex : r.index < front.length)
    (h : Ends (front ++ after) limit r outcome) : Ends front limit r outcome := by
  obtain ⟨final, hreach, token, htoken, hmove⟩ := h
  have hfront : Reaches front limit r final ∧ final.index < front.length := by
    clear htoken hmove
    induction hreach with
    | refl => exact ⟨.refl, hindex⟩
    | tail _ hstep ih =>
      obtain ⟨hreach, hlt⟩ := ih
      obtain ⟨hstep, hlt⟩ := hstep.cut htyped hend hlast hlt
      exact ⟨hreach.tail hstep, hlt⟩
  obtain ⟨hreach, hlt⟩ := hfront
  rw [List.getElem?_append_left hlt] at htoken
  exact ⟨final, hreach, token, htoken, hmove⟩

end Cut

/-- Every stream that is not empty is read safely, also one that the lexer does not make: without an
end token, with several of them, or with operators of any spelling. The index of every reading that
is reached is one of the stream, and from there the outcome of the parser is come to, and no other.
That is a tree or one of the four failures of parsing. Without an end token it is no tree, and what
follows an end token does not matter. -/
theorem ofTokens_safe {maxDepth : Nat} (hne : tokens ≠ []) (htyped : ∀ t ∈ tokens, t.WellTyped)
    (hpos : 1 ≤ maxDepth) (hle : maxDepth ≤ deepestLimit) :
    (∀ r, Reaches tokens maxDepth initial r → r.index < tokens.length ∧
      ∀ outcome, Ends tokens maxDepth r outcome ↔ outcome = ofTokens tokens maxDepth) ∧
    ((∃ e, ofTokens tokens maxDepth = .ok e) ∨
      ∃ failure, ofTokens tokens maxDepth = .error failure ∧ failure.ReportedAt (some .parsing)) ∧
    ((∀ t ∈ tokens, t.kind ≠ .eof) → ∀ e, ofTokens tokens maxDepth ≠ .ok e) ∧
    ∀ before eof after, tokens = before ++ eof :: after → eof.kind = .eof →
      ofTokens tokens maxDepth = ofTokens (before ++ [eof]) maxDepth := by
  have hends := ends_ofTokens hne hpos hle
  obtain ⟨token, hmem, hallowed⟩ := hends.at_token htyped
  refine ⟨fun r hreach => ⟨hreach.index_lt (List.length_pos_iff.2 hne), fun outcome =>
    hends.iff_of_reaches hreach⟩, ?_, ?_, ?_⟩
  · cases houtcome : ofTokens tokens maxDepth with
    | ok e => exact .inl ⟨e, rfl⟩
    | error failure =>
      rw [houtcome] at hallowed
      exact .inr ⟨failure, rfl, hallowed⟩
  · intro hnone e he
    rw [he] at hallowed
    exact hnone token hmem hallowed
  · rintro before eof after rfl heof
    rw [List.append_cons] at hends htyped ⊢
    have hcut := hends.cut (fun t ht => htyped t (List.mem_append_left _ ht))
      List.getLast?_concat heof (by simp [initial])
    have hown : Ends (before ++ [eof]) maxDepth initial (ofTokens (before ++ [eof]) maxDepth) :=
      ends_ofTokens (List.concat_ne_nil eof before) hpos hle
    exact (hown.iff_of_reaches .refl).1 hcut

/-- A stream that goes on behind its end token. -/
def overlongTokens : List Token :=
  [⟨.number, .float Binary64.one, 0⟩, ⟨.eof, .text "", 1⟩, ⟨.operator, .text "-", 1⟩]

/-- An operator behind the end token does not matter, although the stream ends in it. -/
theorem overlongTokens_safe :
    overlongTokens ≠ [] ∧ (∀ t ∈ overlongTokens, t.WellTyped) ∧ 1 ≤ deepestLimit ∧
      Ends overlongTokens 1 initial (.ok (.number Binary64.one)) ∧
      ofTokens overlongTokens 1 = ofTokens (overlongTokens.take 2) 1 := by
  have hne : overlongTokens ≠ [] := List.cons_ne_nil _ _
  have htyped : ∀ t ∈ overlongTokens, t.WellTyped := by
    simp only [overlongTokens, List.forall_mem_cons]
    exact ⟨⟨_, rfl⟩, trivial, ⟨_, rfl⟩, fun t ht => by contradiction⟩
  obtain ⟨hreach, _, _, hcut⟩ := ofTokens_safe hne htyped (Nat.le_refl 1) (by decide)
  have hshort : ofTokens overlongTokens 1 = ofTokens (overlongTokens.take 2) 1 :=
    hcut [⟨.number, .float Binary64.one, 0⟩] ⟨.eof, .text "", 1⟩ _ rfl rfl
  have htree : ofTokens (overlongTokens.take 2) 1 = .ok (.number Binary64.one) := rfl
  exact ⟨hne, htyped, by decide, ((hreach initial .refl).2 _).2 (hshort.trans htree).symm, hshort⟩

end Criterion.Expr
