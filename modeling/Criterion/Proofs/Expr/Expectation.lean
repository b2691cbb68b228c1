import Criterion.Proofs.Expr.Grammar

/-!
# What may come next in a stream

At every point of a stream either an operand is expected, or one is complete and an operator, a
closing parenthesis or the end may follow. Besides this only the number of open groups matters, so
the beginnings of the streams of the grammar are recognised by counting. Each step keeps the reason
why a beginning can be completed, hence every beginning that is passed has a completion.
-/

namespace Criterion

/-- A token that an operand of the grammar can begin with. -/
inductive Token.BeginsOperand (t : Token) : Prop where
  | atom {e : Expr} (h : Expr.Atom t e)
  | opening (h : t.kind = .opening)
  | unary {op : UnaryOp} (h : t.Spells op.symbol)

/-- Operators, closing parentheses and end tokens begin an operand only as prefix operators. -/
theorem Token.BeginsOperand.exists_spells {t : Token} (h : t.BeginsOperand)
    (hk : t.kind = .operator ∨ t.kind = .closing ∨ t.kind = .eof) :
    ∃ op : UnaryOp, t.Spells op.symbol := by
  cases h with
  | atom h => cases h <;> simp at hk
  | opening h => simp [h] at hk
  | unary h => exact ⟨_, h⟩

namespace Expr

/-- Some tokens are the beginning of a stream of the grammar that ends in an end token. -/
def Viable (before : List Token) : Prop :=
  ∃ after tokens e last, Derives 1 tokens e ∧ last.kind = .eof ∧ before ++ after = tokens ++ [last]

/-- Nothing but an operand can follow. -/
def AwaitsOperand (before : List Token) : Prop :=
  ∀ t, Viable (before ++ [t]) → t.BeginsOperand

/-- Some tokens are a complete expression. -/
def IsComplete (tokens : List Token) : Prop := ∃ e, Derives 1 tokens e

/-- A group is open that holds a complete expression. -/
def AwaitsClosing (before : List Token) : Prop :=
  ∃ outer opening inner, before = outer ++ opening :: inner ∧ opening.kind = .opening ∧
    IsComplete inner

/-- What is expected at a point of a stream, with the number of groups that are open there. -/
inductive Expectation where
  | operand (opened : Nat)
  | operator (opened : Nat)
  | nothing

/-- The tokens that may come next, and what is expected after each of them. -/
inductive Step : Expectation → Token → Expectation → Prop where
  | atom {n : Nat} {t : Token} {e : Expr} (h : Atom t e) : Step (.operand n) t (.operator n)
  | opening {n : Nat} {t : Token} (h : t.kind = .opening) : Step (.operand n) t (.operand (n + 1))
  | unary {n : Nat} {t : Token} {op : UnaryOp} (h : t.Spells op.symbol) :
      Step (.operand n) t (.operand n)
  | binary {n : Nat} {t : Token} {op : BinaryOp} (h : t.Spells op.symbol) :
      Step (.operator n) t (.operand n)
  | closing {n : Nat} {t : Token} (h : t.kind = .closing) :
      Step (.operator (n + 1)) t (.operator n)
  | eof {t : Token} (h : t.kind = .eof) : Step (.operator 0) t .nothing

/-- The tokens of a stream come one after the other as they may. -/
inductive Passes : Expectation → List Token → Expectation → Prop where
  | nil (s : Expectation) : Passes s [] s
  | cons {s s' s'' : Expectation} {t : Token} {tokens : List Token} (h : Step s t s')
      (hrest : Passes s' tokens s'') : Passes s (t :: tokens) s''

variable {s s' s'' : Expectation} {t : Token} {tokens before after : List Token} {e : Expr}
  {k n m : Nat}

/-! ## Steps -/

/-- What is expected after a token of a kind, if it may come at all. -/
def Expectation.next : Expectation → Token.Kind → Expectation
  | operand n, .opening => operand (n + 1)
  | operand n, .operator => operand n
  | operand n, _ => operator n
  | operator n, .closing => operator (n - 1)
  | operator _, .eof => nothing
  | operator n, _ => operand n
  | nothing, _ => nothing

/-- What is expected after a token depends on nothing but its kind. -/
theorem Step.eq_next (h : Step s t s') : s' = s.next t.kind := by
  cases h with
  | atom h => cases h <;> rfl
  | opening h => rw [h]; rfl
  | unary h => rw [h.1]; rfl
  | binary h => rw [h.1]; rfl
  | closing h => rw [h]; rfl
  | eof h => rw [h]; rfl

/-- What is expected after a token is determined. -/
theorem Step.unique (h : Step s t s') (h' : Step s t s'') : s' = s'' :=
  h.eq_next.trans h'.eq_next.symm

/-- Only the end of a stream leads to where nothing is expected. -/
theorem Step.kind_ne_eof (h : Step s t s') (hs : s' ≠ .nothing) : t.kind ≠ .eof := by
  intro hk
  cases h with
  | atom h => cases h <;> contradiction
  | opening h => exact absurd (h.symm.trans hk) (by decide)
  | unary h => exact absurd (h.1.symm.trans hk) (by decide)
  | binary h => exact absurd (h.1.symm.trans hk) (by decide)
  | closing h => exact absurd (h.symm.trans hk) (by decide)
  | eof _ => contradiction

/-- A single token passes by its step. -/
theorem Step.passes (h : Step s t s') : Passes s [t] s' := .cons h (.nil s')

/-- Streams pass one after the other. -/
theorem Passes.append (h : Passes s before s') (h' : Passes s' after s'') :
    Passes s (before ++ after) s'' := by
  induction h with
  | nil s => exact h'
  | cons hstep _ ih => exact .cons hstep (ih h')

/-- Of a stream that passes each part passes. -/
theorem Passes.split (h : Passes s (before ++ after) s'') :
    ∃ s', Passes s before s' ∧ Passes s' after s'' := by
  induction before generalizing s with
  | nil => exact ⟨s, .nil s, h⟩
  | cons t before ih =>
      cases h with
      | cons hstep hrest =>
        obtain ⟨s', hbefore, hafter⟩ := ih hrest
        exact ⟨s', .cons hstep hbefore, hafter⟩

/-- What is expected after a stream is determined. -/
theorem Passes.unique (h : Passes s tokens s') (h' : Passes s tokens s'') : s' = s'' := by
  induction h with
  | nil s =>
      cases h'
      rfl
  | cons hstep _ ih =>
      cases h' with
      | cons hstep' hrest' =>
        obtain rfl := hstep.unique hstep'
        exact ih hrest'

/-- Before a point at which something is expected stands no end token. -/
theorem Passes.kind_ne_eof (h : Passes s tokens s') (hs : s' ≠ .nothing) :
    ∀ t ∈ tokens, t.kind ≠ .eof := by
  induction h with
  | nil s =>
      intro t ht
      contradiction
  | @cons s s' s'' t tokens hstep hrest ih =>
      rw [List.forall_mem_cons]
      refine ⟨hstep.kind_ne_eof ?_, ih hs⟩
      -- Nothing passes after the end.
      rintro rfl
      cases hrest with
      | nil => exact hs rfl
      | cons hnext _ => cases hnext

/-- Where an operand is expected the tokens that may come are those that begin one. -/
theorem exists_step_operand_iff : (∃ s', Step (.operand n) t s') ↔ t.BeginsOperand := by
  constructor
  · rintro ⟨s', hstep⟩
    cases hstep with
    | atom h => exact .atom h
    | opening h => exact .opening h
    | unary h => exact .unary h
  · intro hbegins
    cases hbegins with
    | atom h => exact ⟨_, .atom h⟩
    | opening h => exact ⟨_, .opening h⟩
    | unary h => exact ⟨_, .unary h⟩

/-! ## Streams of the grammar pass -/

/-- What the grammar derives passes as an operand does, whatever groups are open around it. -/
theorem Derivation.passes (D : Derivation k tokens e) (n : Nat) :
    Passes (.operand n) tokens (.operator n) := by
  induction D generalizing n with
  | atom h => exact (Step.atom h).passes
  | group hopening hclosing _ ih =>
      exact .cons (.opening hopening) ((ih (n + 1)).append (Step.closing hclosing).passes)
  | unary h _ ih => exact .cons (.unary h) (ih n)
  | loosen _ _ _ ih => exact ih n
  | binary h _ _ _ ihl ihr => exact (ihl n).append (.cons (.binary h) (ihr n))

/-- A viable beginning passes. -/
theorem Viable.exists_passes (h : Viable before) : ∃ s, Passes (.operand 0) before s := by
  obtain ⟨after, tokens, e, last, ⟨D⟩, hlast, hsplit⟩ := h
  have hwhole : Passes (.operand 0) (tokens ++ [last]) .nothing :=
    (D.passes 0).append (Step.eof hlast).passes
  rw [← hsplit] at hwhole
  obtain ⟨s, hbefore, _⟩ := hwhole.split
  exact ⟨s, hbefore⟩

/-! ## What passes can be completed -/

/-- Some tokens become a complete expression with every operand that follows them. -/
def LacksOperand (tokens : List Token) : Prop :=
  ∀ operand e, Derives 7 operand e → IsComplete (tokens ++ operand)

/-- An operator and an operand can follow every expression. They become a part of it wherever the
level of the operator puts them. -/
theorem Derivation.exists_snoc (D : Derivation k tokens e) {op : BinaryOp}
    (h : t.Spells op.symbol) {operand : List Token} {r : Expr} (hoperand : Derives 7 operand r) :
    ∃ e', Derives (min k op.level) (tokens ++ t :: operand) e' := by
  have hlevel := op.one_le_level
  have hlevel' := op.level_le
  -- An operator that binds no tighter takes the whole expression as its left operand.
  have hloose {k : Nat} {tokens : List Token} {e : Expr} (D : Derivation k tokens e) (hk : k ≤ 7)
      (hle : op.level ≤ k) : ∃ e', Derives (min k op.level) (tokens ++ t :: operand) e' := by
    obtain ⟨L⟩ := Derives.loosen hlevel hle hk ⟨D⟩
    obtain ⟨R⟩ := hoperand.loosen (k := op.level + 1) (by omega) (by omega) (Nat.le_refl 7)
    rw [Nat.min_eq_right hle]
    exact ⟨_, ⟨.binary h rfl L R⟩⟩
  induction D with
  | atom hatom => exact hloose (.atom hatom) (Nat.le_refl 7) (by omega)
  | group hopening hclosing inner _ =>
      exact hloose (.group hopening hclosing inner) (Nat.le_refl 7) (by omega)
  | unary hunary D _ => exact hloose (.unary hunary D) (Nat.le_refl 7) (by omega)
  | @loosen k tokens e hpos hle D ih =>
      by_cases hk : op.level ≤ k
      · exact hloose (.loosen hpos hle D) (by omega) hk
      · obtain ⟨e', hsnoc⟩ := ih
        exact ⟨e', hsnoc.loosen (by omega) (by omega) (by omega)⟩
  | @binary u op' k leftTokens rightTokens l r hspells hop L R _ ihr =>
      have hop' := op'.level_le
      by_cases hk : op.level ≤ k
      · exact hloose (.binary hspells hop L R) (by omega) hk
      · -- An operator that binds tighter goes into the right operand.
        obtain ⟨r', hsnoc⟩ := ihr
        rw [Nat.min_eq_left (by omega)] at hsnoc
        obtain ⟨R'⟩ := hsnoc
        rw [Nat.min_eq_left (by omega), List.append_assoc, List.cons_append]
        exact ⟨_, ⟨.binary hspells hop L R'⟩⟩

/-- After an operator an expression lacks an operand. -/
theorem IsComplete.lacksOperand {op : BinaryOp} (hcomplete : IsComplete tokens)
    (h : t.Spells op.symbol) : LacksOperand (tokens ++ [t]) := by
  intro operand r hoperand
  obtain ⟨e, ⟨D⟩⟩ := hcomplete
  obtain ⟨e', hsnoc⟩ := D.exists_snoc h hoperand
  rw [Nat.min_eq_left op.one_le_level] at hsnoc
  rw [List.append_assoc, List.singleton_append]
  exact ⟨e', hsnoc⟩

/-- An expression in parentheses is what an operand is lacked for. -/
theorem LacksOperand.group {opening closing : Token} {inner : List Token}
    (h : LacksOperand tokens) (hopening : opening.kind = .opening)
    (hclosing : closing.kind = .closing) (hinner : IsComplete inner) :
    IsComplete (tokens ++ (opening :: inner ++ [closing])) := by
  obtain ⟨e, ⟨D⟩⟩ := hinner
  exact h _ e ⟨.group hopening hclosing D⟩

/-- The tokens in front of a number of open groups, the innermost of which is still empty. Each
group stands where an operand is lacking. -/
inductive Opened : Nat → List Token → Prop where
  | none : Opened 0 []
  | group {n : Nat} {outer tokens : List Token} {opening : Token} (houter : Opened n outer)
      (htokens : LacksOperand tokens) (h : opening.kind = .opening) :
      Opened (n + 1) (outer ++ tokens ++ [opening])

/-- What an expectation says of the tokens before it. -/
def Expectation.Holds : Expectation → List Token → Prop
  | operand n, before => ∃ outer inner, before = outer ++ inner ∧ Opened n outer ∧
      LacksOperand inner
  | operator n, before => ∃ outer inner, before = outer ++ inner ∧ Opened n outer ∧
      IsComplete inner
  | nothing, before => ∃ tokens last, before = tokens ++ [last] ∧ last.kind = .eof ∧
      IsComplete tokens

/-- A step leads from what holds to what holds. -/
theorem Step.holds (h : Step s t s') (hs : s.Holds before) : s'.Holds (before ++ [t]) := by
  cases h with
  | atom h =>
      obtain ⟨outer, inner, rfl, houter, hinner⟩ := hs
      exact ⟨outer, inner ++ [t], List.append_assoc .., houter, hinner [t] _ ⟨.atom h⟩⟩
  | opening h =>
      obtain ⟨outer, inner, rfl, houter, hinner⟩ := hs
      refine ⟨outer ++ inner ++ [t], [], (List.append_nil _).symm, .group houter hinner h, ?_⟩
      intro operand e hoperand
      exact ⟨e, hoperand.loosen (Nat.le_refl 1) (by decide) (Nat.le_refl 7)⟩
  | unary h =>
      obtain ⟨outer, inner, rfl, houter, hinner⟩ := hs
      refine ⟨outer, inner ++ [t], List.append_assoc .., houter, ?_⟩
      rintro operand e ⟨D⟩
      rw [List.append_assoc, List.singleton_append]
      exact hinner _ _ ⟨.unary h D⟩
  | binary h =>
      obtain ⟨outer, inner, rfl, houter, hinner⟩ := hs
      exact ⟨outer, inner ++ [t], List.append_assoc .., houter, hinner.lacksOperand h⟩
  | closing h =>
      obtain ⟨outer, inner, rfl, houter, hinner⟩ := hs
      cases houter with
      | @group _ outer tokens opening houter htokens hopening =>
        refine ⟨outer, tokens ++ (opening :: inner ++ [t]), ?_, houter,
          htokens.group hopening h hinner⟩
        simp only [List.append_assoc, List.cons_append, List.nil_append]
  | eof h =>
      obtain ⟨outer, inner, rfl, houter, hinner⟩ := hs
      cases houter
      exact ⟨inner, t, rfl, h, hinner⟩

/-- Where a stream that passes leads to, the expectation holds. -/
theorem Passes.holds (h : Passes s after s') (hs : s.Holds before) :
    s'.Holds (before ++ after) := by
  induction h generalizing before with
  | nil s => rwa [List.append_nil]
  | cons hstep _ ih =>
      rw [List.append_cons]
      exact ih (hstep.holds hs)

private theorem holds_nil : (Expectation.operand 0).Holds [] := by
  refine ⟨[], [], rfl, .none, fun operand e hoperand => ?_⟩
  exact ⟨e, hoperand.loosen (Nat.le_refl 1) (by decide) (Nat.le_refl 7)⟩

/-- What is passed from the beginning of a stream is as the expectation says. -/
theorem Passes.holds_of_start (h : Passes (.operand 0) before s) : s.Holds before :=
  h.holds holds_nil

/-! ## Viable beginnings -/

/-- A beginning of a viable beginning is viable. -/
theorem Viable.of_append (h : Viable (before ++ after)) : Viable before := by
  obtain ⟨more, tokens, e, last, htokens, hlast, hsplit⟩ := h
  exact ⟨after ++ more, tokens, e, last, htokens, hlast, by rw [← hsplit, List.append_assoc]⟩

/-- After an operand the open groups can be closed one by one. -/
theorem Passes.viable_of_operator (h : Passes (.operand 0) before (.operator n)) :
    Viable before := by
  induction n generalizing before with
  | zero =>
      have hend := h.append (Step.eof (t := ⟨.eof, .text "", 0⟩) rfl).passes
      obtain ⟨tokens, last, hsplit, hlast, e, htokens⟩ := hend.holds_of_start
      exact ⟨_, tokens, e, last, htokens, hlast, hsplit⟩
  | succ n ih =>
      have hclosed := h.append (Step.closing (t := ⟨.closing, .text ")", 0⟩) rfl).passes
      exact (ih hclosed).of_append

/-- The viable beginnings are those that pass. -/
theorem viable_iff_exists_passes : Viable before ↔ ∃ s, Passes (.operand 0) before s := by
  refine ⟨Viable.exists_passes, fun ⟨s, h⟩ => ?_⟩
  cases s with
  | operand n =>
      have hoperand := h.append (Step.atom (.boolean true 0)).passes
      exact hoperand.viable_of_operator.of_append
  | operator n => exact h.viable_of_operator
  | nothing =>
      obtain ⟨tokens, last, hsplit, hlast, e, htokens⟩ := h.holds_of_start
      exact ⟨[], tokens, e, last, htokens, hlast, by rw [List.append_nil, hsplit]⟩

/-- A viable beginning goes on with a token that may come next. -/
theorem Passes.exists_step_of_viable (h : Passes (.operand 0) before s)
    (hviable : Viable (before ++ [t])) : ∃ s', Step s t s' := by
  obtain ⟨s'', hsnoc⟩ := hviable.exists_passes
  obtain ⟨s', hbefore, hlast⟩ := hsnoc.split
  obtain rfl := h.unique hbefore
  cases hlast with
  | cons hstep _ => exact ⟨_, hstep⟩

/-! ## The three reasons -/

/-- The sign of a product goes on after an operand, but it begins none. -/
theorem not_beginsOperand_of_multiply (h : t.Spells BinaryOp.multiply.symbol) :
    ¬ t.BeginsOperand := by
  intro hbegins
  obtain ⟨op, hop⟩ := hbegins.exists_spells (.inl h.1)
  have hsymbol : op.symbol = BinaryOp.multiply.symbol := Datum.text.inj (hop.2.symm.trans h.2)
  cases op <;> exact absurd hsymbol (by decide)

/-- Nothing but an operand can follow exactly where one is expected, unless the stream has ended. -/
theorem Passes.awaitsOperand_iff (h : Passes (.operand 0) before s) (hs : s ≠ .nothing) :
    AwaitsOperand before ↔ ∃ n, s = .operand n := by
  constructor
  · intro hawaits
    cases s with
    | operand n => exact ⟨n, rfl⟩
    | operator n =>
      have hproduct : (⟨.operator, .text "*", 0⟩ : Token).Spells BinaryOp.multiply.symbol :=
        ⟨rfl, rfl⟩
      have hviable := viable_iff_exists_passes.2 ⟨_, h.append (Step.binary hproduct).passes⟩
      exact absurd (hawaits _ hviable) (not_beginsOperand_of_multiply hproduct)
    | nothing => contradiction
  · rintro ⟨n, rfl⟩ t hviable
    exact exists_step_operand_iff.1 (h.exists_step_of_viable hviable)

/-- A complete expression passes and leaves no group open. -/
theorem IsComplete.passes (h : IsComplete tokens) (n : Nat) :
    Passes (.operand n) tokens (.operator n) := by
  obtain ⟨e, ⟨D⟩⟩ := h
  exact D.passes n

/-- A group is opened where an operand is expected, and so is one in the group. -/
theorem Step.of_opening (h : Step s t s') (hk : t.kind = .opening) :
    ∃ n, s = .operand n ∧ s' = .operand (n + 1) := by
  cases h with
  | opening _ => exact ⟨_, rfl, rfl⟩
  | atom h => cases h <;> contradiction
  | unary h => exact absurd (hk.symm.trans h.1) (by decide)
  | binary h => exact absurd (hk.symm.trans h.1) (by decide)
  | closing h => exact absurd (hk.symm.trans h) (by decide)
  | eof h => exact absurd (hk.symm.trans h) (by decide)

/-- A group awaits its end exactly where an operand is complete and a group is open. -/
theorem Passes.awaitsClosing_iff (h : Passes (.operand 0) before s) :
    AwaitsClosing before ↔ ∃ n, s = .operator (n + 1) := by
  constructor
  · rintro ⟨outer, opening, inner, rfl, hopening, hinner⟩
    obtain ⟨s', _, hgroup⟩ := h.split
    cases hgroup with
    | cons hstep hrest =>
      obtain ⟨n, rfl, rfl⟩ := hstep.of_opening hopening
      exact ⟨n, hrest.unique (hinner.passes (n + 1))⟩
  · rintro ⟨n, rfl⟩
    obtain ⟨outer, inner, rfl, houter, hinner⟩ := h.holds_of_start
    cases houter with
    | @group _ outer tokens opening _ _ hopening =>
      refine ⟨outer ++ tokens, opening, inner, ?_, hopening, hinner⟩
      simp only [List.append_assoc, List.cons_append, List.nil_append]

/-- An expression is complete exactly where an operand is complete and no group is open. -/
theorem Passes.isComplete_iff (h : Passes (.operand 0) before s) :
    IsComplete before ↔ s = .operator 0 := by
  constructor
  · intro hcomplete
    exact h.unique (hcomplete.passes 0)
  · rintro rfl
    obtain ⟨outer, inner, rfl, houter, hinner⟩ := h.holds_of_start
    cases houter
    exact hinner

end Expr

end Criterion
