import Criterion.Proofs.Expr.Acceptance
import Criterion.Proofs.Expr.Expectation

/-!
# Which token the parser blames

The parser refuses a stream for its form at the first token with which no stream of the grammar
can go on. What it takes before that token passes step by step, and its complaint says what was
expected there: an operand, the end of a group or the end of the stream.
-/

namespace Criterion

/-- A cause that names the token that was found in a wrong place. -/
inductive Cause.Misplaces (found : String) : Cause → Prop where
  | unexpectedToken (expected : String) : Misplaces found (.unexpectedToken expected found)
  | expectedToken (expected : String) : Misplaces found (.expectedToken expected found)
  | trailingTokens : Misplaces found (.trailingTokens found)

namespace Expr

variable {last t : Token} {limit : Int} {deeper : Rules} {tokens rest taken : List Token}
  {failure : Failure} {n m floor : Nat}

/-- A failure of rules that read a stream at a point where an operand is expected: it is refused
for its depth, or for a token that may not come next. -/
inductive Blamed (last : Token) (limit : Int) (n : Nat) (tokens : List Token) : Failure → Prop where
  | deep (pos : Int) : Blamed last limit n tokens (.rejected ⟨.tooDeep limit, some pos⟩)
  | operand {taken rest : List Token} {m : Nat} (htokens : tokens = taken ++ rest)
      (h : Passes (.operand n) taken (.operand m)) (hno : ¬ (current last rest).BeginsOperand) :
      Blamed last limit n tokens (.rejected ⟨.unexpectedToken
        "number, boolean, identifier or '('" (current last rest).describe,
        some (current last rest).pos⟩)
  | closing {taken rest : List Token} {m : Nat} (htokens : tokens = taken ++ rest)
      (h : Passes (.operand n) taken (.operator (m + 1))) (hbelow : Below 0 rest)
      (hno : (current last rest).kind ≠ .closing) :
      Blamed last limit n tokens (.rejected ⟨.expectedToken "')'" (current last rest).describe,
        some (current last rest).pos⟩)

/-- What is blamed behind tokens that pass is blamed behind all of them. -/
theorem Blamed.after (h : Blamed last limit m rest failure)
    (htaken : Passes (.operand n) taken (.operand m)) :
    Blamed last limit n (taken ++ rest) failure := by
  cases h with
  | deep pos => exact .deep pos
  | operand hrest hpasses hno =>
      rw [hrest, ← List.append_assoc]
      exact .operand rfl (htaken.append hpasses) hno
  | closing hrest hpasses hbelow hno =>
      rw [hrest, ← List.append_assoc]
      exact .closing rfl (htaken.append hpasses) hbelow hno

/-- Rules fail for the depth of a stream or for a token that may not come next. -/
structure Rules.Blames (last : Token) (limit : Int) (rules : Rules) : Prop where
  operand (n : Nat) {tokens : List Token} {failure : Failure} (ht : ∀ t ∈ tokens, t.WellTyped)
    (h : rules.operand tokens = .error failure) : Blamed last limit n tokens failure
  expression (n : Nat) {floor : Nat} {tokens : List Token} {failure : Failure}
    (hfloor : floor ≤ 7) (ht : ∀ t ∈ tokens, t.WellTyped)
    (h : rules.expression floor tokens = .error failure) : Blamed last limit n tokens failure

/-! ## One level of rules -/

/-- A group without its end is blamed for what stands in the place of the end. -/
theorem close_blames {e : Expr} (htaken : Passes (.operand n) taken (.operator (m + 1)))
    (hbelow : Below 0 rest) (h : close last e rest = .error failure) :
    Blamed last limit n (taken ++ rest) failure := by
  rw [close] at h
  split at h
  · contradiction
  · rename_i hno
    cases h
    exact .closing rfl htaken hbelow hno

/-- A token that begins no operand is blamed where one is expected. -/
theorem Blamed.here (last : Token) (limit : Int) (n : Nat)
    (hno : ¬ (current last tokens).BeginsOperand) :
    Blamed last limit n tokens (.rejected ⟨.unexpectedToken "number, boolean, identifier or '('"
      (current last tokens).describe, some (current last tokens).pos⟩) :=
  .operand (List.nil_append tokens).symm (.nil _) hno

/-- Where no prefix operator comes next, the rules for literals, variables and groups blame what
begins none of these. -/
theorem primary_blames (hlast : last.kind = .eof) (hd : deeper.Sound)
    (hb : deeper.Blames last limit) (n : Nat) (ht : ∀ t ∈ tokens, t.WellTyped)
    (hunary : ∀ op : UnaryOp, ¬ (current last tokens).Spells op.symbol)
    (h : primary last deeper tokens = .error failure) : Blamed last limit n tokens failure := by
  have hno (hk : (current last tokens).kind = .operator ∨ (current last tokens).kind = .closing ∨
      (current last tokens).kind = .eof) : ¬ (current last tokens).BeginsOperand := by
    intro hbegins
    obtain ⟨op, hop⟩ := hbegins.exists_spells hk
    exact hunary op hop
  cases tokens with
  | nil =>
    simp only [primary, current, List.headD_nil, hlast] at h
    cases h
    exact .here last limit n (hno (.inr (.inr hlast)))
  | cons t tokens =>
    obtain ⟨htyped, htail⟩ := List.forall_mem_cons.mp ht
    obtain ⟨kind, value, pos⟩ := t
    cases kind with
    | number =>
      obtain ⟨x, rfl⟩ := htyped
      contradiction
    | boolean => contradiction
    | ident => contradiction
    | opening =>
      have hopen : Passes (.operand n) [⟨.opening, value, pos⟩] (.operand (n + 1)) :=
        (Step.opening rfl).passes
      simp only [primary, current, List.headD_cons, List.tail_cons] at h
      cases hinner : deeper.expression 0 tokens with
      | error failure' =>
        simp only [hinner] at h
        cases h
        exact (hb.expression (n + 1) (Nat.zero_le 7) htail hinner).after hopen
      | ok p =>
        obtain ⟨e, rest⟩ := p
        simp only [hinner] at h
        obtain ⟨⟨inner, rfl, ⟨D⟩⟩, hbelow⟩ := hd.expression (Nat.zero_le 7) htail hinner
        exact close_blames (hopen.append (D.passes (n + 1))) hbelow h
    | operator =>
      cases h
      exact .here last limit n (hno (.inl rfl))
    | closing =>
      cases h
      exact .here last limit n (hno (.inr (.inl rfl)))
    | eof =>
      cases h
      exact .here last limit n (hno (.inr (.inr rfl)))

/-- A prefix operator leaves the blame to the rules for its operand. -/
theorem operand_blames (hlast : last.kind = .eof) (hd : deeper.Sound)
    (hb : deeper.Blames last limit) (n : Nat) (ht : ∀ t ∈ tokens, t.WellTyped)
    (h : operand last deeper tokens = .error failure) : Blamed last limit n tokens failure := by
  have hprimary (hnone : (current last tokens).unaryOp? = .ok none) :
      Blamed last limit n tokens failure := by
    refine primary_blames hlast hd hb n ht (fun op hop => ?_) ?_
    · rw [Token.unaryOp?_of_spells hop] at hnone
      cases hnone
    · rwa [operand, hnone] at h
  cases tokens with
  | nil => exact hprimary (Token.unaryOp?_eq_none (by simp [current, hlast]))
  | cons t tokens =>
    obtain ⟨htyped, htail⟩ := List.forall_mem_cons.mp ht
    rcases htyped.unaryOp?_cases with hnone | ⟨op, _, hspells⟩
    · exact hprimary hnone
    · rw [operand_of_spells hspells] at h
      cases hinner : deeper.operand tokens with
      | error failure' =>
        rw [hinner] at h
        cases h
        exact (hb.operand n htail hinner).after (Step.unary hspells).passes
      | ok p =>
        rw [hinner] at h
        contradiction

/-- The loop leaves the blame to the rules for the right operands. -/
theorem chain_blames (hd : deeper.Sound) (hb : deeper.Blames last limit)
    {turns : List Token} {left : Expr} (ht : ∀ t ∈ tokens, t.WellTyped)
    (htaken : Passes (.operand n) taken (.operator n))
    (h : chain deeper floor turns left tokens = .error failure) :
    Blamed last limit n (taken ++ tokens) failure := by
  induction turns generalizing taken tokens left with
  | nil => contradiction
  | cons turn turns ih =>
    cases tokens with
    | nil => contradiction
    | cons t tokens =>
      obtain ⟨htyped, htail⟩ := List.forall_mem_cons.mp ht
      rcases exists_join_or_below floor t tokens with ⟨op, hop, hle⟩ | hbelow
      · have hstep : Passes (.operator n) [t] (.operand n) :=
          (Step.binary (htyped.spells_of_binaryOp? hop)).passes
        have hfloor : op.level + 1 ≤ 7 := Nat.succ_le_succ op.level_le
        rw [chain_join hop hle] at h
        rw [List.append_cons]
        cases hright : deeper.expression (op.level + 1) tokens with
        | error failure' =>
          simp only [hright] at h
          cases h
          exact (hb.expression n hfloor htail hright).after (htaken.append hstep)
        | ok p =>
          obtain ⟨right, rest⟩ := p
          simp only [hright] at h
          obtain ⟨⟨takenRight, rfl, ⟨D⟩⟩, _⟩ := hd.expression hfloor htail hright
          have hnext := (htaken.append hstep).append (D.passes n)
          rw [← List.append_assoc]
          exact ih (List.forall_mem_append.mp htail).2 hnext h
      · rw [chain_stop hbelow] at h
        contradiction

/-- Rules built on rules that blame the right token blame the right one. -/
theorem Rules.Blames.above (hlast : last.kind = .eof) (hd : deeper.Sound)
    (hb : deeper.Blames last limit) : (Rules.above last deeper).Blames last limit where
  operand n _ _ ht h := operand_blames hlast hd hb n ht h
  expression n floor tokens failure _ ht h := by
    simp only [Rules.above] at h
    cases hleft : Expr.operand last deeper tokens with
    | error failure' =>
      simp only [hleft] at h
      cases h
      exact operand_blames hlast hd hb n ht hleft
    | ok p =>
      obtain ⟨left, rest⟩ := p
      simp only [hleft] at h
      obtain ⟨taken, rfl, ⟨D⟩⟩ := operand_sound hlast hd ht hleft
      exact chain_blames hd hb (List.forall_mem_append.mp ht).2 (D.passes n) h

/-- The rules of every height blame the right token, or the depth. -/
theorem Rules.tower_blames (hlast : last.kind = .eof) (levels : Nat) :
    (Rules.tower last limit levels).Blames last limit := by
  induction levels with
  | zero =>
    constructor
    · intro n tokens failure _ h
      cases h
      exact .deep _
    · intro n floor tokens failure _ _ h
      cases h
      exact .deep _
  | succ levels ih => exact ih.above hlast (Rules.tower_sound hlast levels)

/-! ## Impossible tokens -/

private theorem not_exists_step_operator_succ (hbelow : Below 0 (t :: rest))
    (hk : t.kind ≠ .closing) :
    ¬ ∃ s', Step (.operator (n + 1)) t s' := by
  rintro ⟨s', hstep⟩
  cases hstep with
  | binary h =>
      have hlevel := below_cons.1 hbelow _ (Token.binaryOp?_of_spells h)
      exact Nat.not_lt_zero _ hlevel
  | closing h => exact hk h

private theorem not_exists_step_operator_zero (hbelow : Below 0 (t :: rest)) (hk : t.kind ≠ .eof) :
    ¬ ∃ s', Step (.operator 0) t s' := by
  rintro ⟨s', hstep⟩
  cases hstep with
  | binary h =>
      have hlevel := below_cons.1 hbelow _ (Token.binaryOp?_of_spells h)
      exact Nat.not_lt_zero _ hlevel
  | eof h => exact hk h

/-- Before the end token there is always a token to come. -/
theorem Passes.exists_cons {s : Expectation} (h : Passes (.operand 0) taken s) (hs : s ≠ .nothing)
    (hlast : last.kind = .eof) (hsplit : tokens ++ [last] = taken ++ rest) :
    ∃ t after, rest = t :: after := by
  refine List.exists_cons_of_ne_nil ?_
  rintro rfl
  have hmem : last ∈ taken := by
    rw [List.append_nil] at hsplit
    rw [← hsplit]
    exact List.mem_append_right _ List.mem_cons_self
  exact h.kind_ne_eof hs last hmem hlast

/-- Out of range, a limit of depth is no cause to reject an expression. -/
theorem depth_of_ofTokens_rejected {e : Rejection} {maxDepth : Int}
    (h : ofTokens tokens maxDepth = .error (.rejected e)) :
    1 ≤ maxDepth ∧ maxDepth ≤ deepestLimit := by
  unfold ofTokens at h
  split at h
  · cases h
  · rename_i hrange
    simp only [Bool.or_eq_true, decide_eq_true_eq] at hrange
    omega

/-- What is expected at the point where a stream is refused for its form: it decides between the
three causes. -/
inductive Refused : Expectation → Cause → String → Prop where
  | operand (n : Nat) (expected found : String) :
      Refused (.operand n) (.unexpectedToken expected found) found
  | closing (n : Nat) (expected found : String) :
      Refused (.operator (n + 1)) (.expectedToken expected found) found
  | trailing (found : String) : Refused (.operator 0) (.trailingTokens found) found

/-- A stream that is refused for its form is refused at a token that may not come next. -/
theorem exists_refused {tokens : List Token} {maxDepth : Int} {cause : Cause} {pos : Option Int}
    {found : String} (hlast : last.kind = .eof) (htokens : ∀ t ∈ tokens, t.WellTyped)
    (hcause : cause.Misplaces found)
    (h : ofTokens (tokens ++ [last]) maxDepth = reject cause pos) :
    ∃ s before t after, tokens ++ [last] = before ++ t :: after ∧ pos = some t.pos ∧
      found = t.describe ∧ s ≠ .nothing ∧ Passes (.operand 0) before s ∧
      (¬ ∃ s', Step s t s') ∧ Refused s cause found := by
  obtain ⟨hpos, hle⟩ := depth_of_ofTokens_rejected h
  have htyped : ∀ t ∈ tokens ++ [last], t.WellTyped := by
    rw [List.forall_mem_append, List.forall_mem_singleton]
    exact ⟨htokens, by simp [Token.WellTyped, hlast]⟩
  rw [ofTokens_eq_tower hpos hle] at h
  cases hread : (Rules.tower last maxDepth (maxDepth.toNat + 1)).expression 0
    (tokens ++ [last]) with
  | error failure =>
    simp only [hread] at h
    have hblamed := (Rules.tower_blames hlast _).expression 0 (Nat.zero_le 7) htyped hread
    cases hblamed with
    | deep pos =>
      cases h
      cases hcause
    | @operand before rest m hsplit hpasses hno =>
      cases h
      cases hcause
      obtain ⟨t, after, rfl⟩ := hpasses.exists_cons (by simp) hlast hsplit
      exact ⟨.operand m, before, t, after, hsplit, rfl, rfl, by simp, hpasses,
        by rwa [exists_step_operand_iff], .operand m _ _⟩
    | @closing before rest m hsplit hpasses hbelow hno =>
      cases h
      cases hcause
      obtain ⟨t, after, rfl⟩ := hpasses.exists_cons (by simp) hlast hsplit
      exact ⟨.operator (m + 1), before, t, after, hsplit, rfl, rfl, by simp, hpasses,
        not_exists_step_operator_succ hbelow hno, .closing m _ _⟩
  | ok p =>
    obtain ⟨e, rest⟩ := p
    simp only [hread] at h
    split at h
    · contradiction
    · rename_i hno
      cases h
      cases hcause
      obtain ⟨⟨before, hsplit, ⟨D⟩⟩, hbelow⟩ :=
        (Rules.tower_sound hlast _).expression (Nat.zero_le 7) htyped hread
      have hpasses := D.passes 0
      obtain ⟨t, after, rfl⟩ := hpasses.exists_cons (by simp) hlast hsplit
      exact ⟨.operator 0, before, t, after, hsplit, rfl, rfl, by simp, hpasses,
        not_exists_step_operator_zero hbelow hno, .trailing _⟩

/-- A stream that is refused for its form is refused at the first token with which no stream of
the grammar can go on, and the cause says why: nothing but an operand could stand there, or the
end of a group that holds a complete expression, or nothing after a complete expression. -/
theorem ofTokens_blames_first_impossible {tokens : List Token} {maxDepth : Int} {cause : Cause}
    {pos : Option Int} {found : String} (hlast : last.kind = .eof)
    (htokens : ∀ t ∈ tokens, t.WellTyped ∧ t.kind ≠ .eof) (hcause : cause.Misplaces found)
    (h : ofTokens (tokens ++ [last]) maxDepth = reject cause pos) :
    ∃ before t after, tokens ++ [last] = before ++ t :: after ∧ pos = some t.pos ∧
      found = t.describe ∧ Viable before ∧ ¬ Viable (before ++ [t]) ∧
      ((∃ expected, cause = .unexpectedToken expected found) ↔ AwaitsOperand before) ∧
      ((∃ expected, cause = .expectedToken expected found) ↔ AwaitsClosing before) ∧
      (cause = .trailingTokens found ↔ IsComplete before) := by
  obtain ⟨s, before, t, after, hsplit, hpos, hfound, hs, hpasses, hno, hrefused⟩ :=
    exists_refused hlast (fun t ht => (htokens t ht).1) hcause h
  refine ⟨before, t, after, hsplit, hpos, hfound, viable_iff_exists_passes.2 ⟨s, hpasses⟩,
    fun hviable => hno (hpasses.exists_step_of_viable hviable), ?_⟩
  rw [hpasses.awaitsOperand_iff hs, hpasses.awaitsClosing_iff, hpasses.isComplete_iff]
  cases hrefused <;> simp

/-- The tokens of `(a + ) b`. -/
def brokenTokens : List Token :=
  [⟨.opening, .text "(", 0⟩, ⟨.ident, .text "a", 1⟩, ⟨.operator, .text "+", 3⟩,
    ⟨.closing, .text ")", 5⟩, ⟨.ident, .text "b", 7⟩]

/-- The sum in the group lacks its right operand, which is blamed on the parenthesis. -/
theorem brokenTokens_blamed :
    (∀ t ∈ brokenTokens, t.WellTyped ∧ t.kind ≠ .eof) ∧
      ofTokens (brokenTokens ++ [⟨.eof, .text "", 8⟩]) 3 =
        reject (.unexpectedToken "number, boolean, identifier or '('" "')'") (some 5) ∧
      ∃ before t after, brokenTokens ++ [⟨.eof, .text "", 8⟩] = before ++ t :: after ∧
        some (5 : Int) = some t.pos ∧ Viable before ∧ ¬ Viable (before ++ [t]) ∧
        AwaitsOperand before := by
  have htokens : ∀ t ∈ brokenTokens, t.WellTyped ∧ t.kind ≠ .eof := by
    simp [brokenTokens, Token.WellTyped]
  have hlast : (⟨.eof, .text "", 8⟩ : Token).kind = .eof := rfl
  have hrefused : ofTokens (brokenTokens ++ [⟨.eof, .text "", 8⟩]) 3 =
      reject (.unexpectedToken "number, boolean, identifier or '('" "')'") (some 5) := rfl
  obtain ⟨before, t, after, hsplit, hpos, _, hviable, hno, hoperand, _⟩ :=
    ofTokens_blames_first_impossible hlast htokens (.unexpectedToken _) hrefused
  exact ⟨htokens, hrefused, before, t, after, hsplit, hpos, hviable, hno, hoperand.1 ⟨_, rfl⟩⟩

end Expr

end Criterion
