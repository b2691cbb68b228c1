import Criterion.Proofs.Expr.Grammar

/-!
# Precedence climbing reads the grammar

The parser has one loop with a threshold where the grammar has six left-recursive levels. The two
agree because of what the loop knows about the next token: an expression that has just been read
at a level is never followed by an operator that binds tighter than that level. `Below` states it,
soundness carries it through the loop, and completeness asks it of the tokens that follow.
-/

namespace Criterion

/-! ## Operators of tokens -/

namespace Token

variable {t : Token}

/-- Operators hold texts. -/
theorem WellTyped.exists_text (ht : t.WellTyped) (hk : t.kind = .operator) :
    ∃ s, t.value = .text s := by
  simpa only [WellTyped, hk] using ht

/-- The spelling of a binary operator is read as that operator. -/
theorem binaryOp?_of_spells {op : BinaryOp} (h : t.Spells op.symbol) : t.binaryOp? = some op := by
  rw [binaryOp?, if_pos h.1, h.2]
  exact BinaryOp.ofSymbol?_symbol op

/-- What is read as a binary operator is spelled as one. -/
theorem WellTyped.spells_of_binaryOp? (ht : t.WellTyped) {op : BinaryOp}
    (h : t.binaryOp? = some op) : t.Spells op.symbol := by
  unfold binaryOp? at h
  split at h
  · rename_i hk
    obtain ⟨s, hs⟩ := ht.exists_text hk
    rw [hs] at h
    have hsymbol : op.symbol = s := BinaryOp.symbol_of_ofSymbol? h
    exact ⟨hk, by rw [hs, hsymbol]⟩
  · contradiction

/-- Only operator tokens are binary operators. -/
theorem binaryOp?_eq_none (hk : t.kind ≠ .operator) : t.binaryOp? = none := if_neg hk

/-- Only operator tokens are prefix operators. -/
theorem unaryOp?_eq_none (hk : t.kind ≠ .operator) : t.unaryOp? = .ok none := if_neg hk

/-- The spelling of a prefix operator is read as that operator. -/
theorem unaryOp?_of_spells {op : UnaryOp} (h : t.Spells op.symbol) :
    t.unaryOp? = .ok (some op) := by
  rw [unaryOp?, if_pos h.1, h.2]
  exact congrArg _ (UnaryOp.ofSymbol?_symbol op)

/-- Looking for a prefix operator in a well-typed token never fails. -/
theorem WellTyped.unaryOp?_cases (ht : t.WellTyped) :
    t.unaryOp? = .ok none ∨ ∃ op, t.unaryOp? = .ok (some op) ∧ t.Spells op.symbol := by
  by_cases hk : t.kind = .operator
  · obtain ⟨s, hs⟩ := ht.exists_text hk
    have he : t.unaryOp? = .ok (UnaryOp.ofSymbol? s) := by rw [unaryOp?, if_pos hk, hs]
    cases hop : UnaryOp.ofSymbol? s with
    | none => exact Or.inl (he.trans (congrArg _ hop))
    | some op =>
        refine Or.inr ⟨op, he.trans (congrArg _ hop), hk, ?_⟩
        rw [hs, UnaryOp.symbol_of_ofSymbol? hop]
  · exact Or.inl (unaryOp?_eq_none hk)

end Token

namespace Expr

/-! ## What comes next -/

/-- If an operator comes next, its level lies below a given one. -/
def Below (k : Nat) (rest : List Token) : Prop :=
  ∀ t ∈ rest.head?, ∀ op, t.binaryOp? = some op → op.level < k

theorem Below.mono {k m : Nat} {rest : List Token} (h : Below k rest) (hkm : k ≤ m) :
    Below m rest := fun t ht op hop => Nat.lt_of_lt_of_le (h t ht op hop) hkm

/-- Every operator lies below the operands. -/
theorem below_seven (rest : List Token) : Below 7 rest :=
  fun _ _ op _ => Nat.lt_succ_of_le op.level_le

/-- At the end of a stream nothing comes next. -/
theorem below_nil (k : Nat) : Below k [] := fun t ht => by contradiction

theorem below_cons {k : Nat} {t : Token} {rest : List Token} :
    Below k (t :: rest) ↔ ∀ op, t.binaryOp? = some op → op.level < k := by
  simp only [Below, List.head?_cons, Option.mem_some_iff, forall_eq']

/-- A token of another kind bounds no level. -/
theorem below_of_kind_ne {t : Token} (hk : t.kind ≠ .operator) (k : Nat) (rest : List Token) :
    Below k (t :: rest) := by
  rw [below_cons, Token.binaryOp?_eq_none hk]
  intro op hop
  contradiction

/-- Before an operator lie the levels above its own. -/
theorem below_of_spells {t : Token} {op : BinaryOp} (h : t.Spells op.symbol)
    (rest : List Token) : Below (op.level + 1) (t :: rest) := by
  rw [below_cons, Token.binaryOp?_of_spells h]
  rintro _ ⟨⟩
  exact Nat.lt_succ_self _

/-! ## The loop -/

/-- The loop stops at an operator below its threshold, and before whatever is no operator. -/
theorem chain_stop {deeper : Rules} {floor : Nat} {rest : List Token} (h : Below floor rest)
    (turns : List Token) (left : Expr) : chain deeper floor turns left rest = .ok (left, rest) := by
  cases turns with
  | nil => rfl
  | cons _ turns =>
    cases rest with
    | nil => rfl
    | cons t rest =>
      rw [below_cons] at h
      cases hop : t.binaryOp? with
      | none => simp only [chain, hop]
      | some op => simp only [chain, hop, if_neg (Nat.not_le.mpr (h op hop))]

/-- The loop joins the right operand of an operator that reaches its threshold. -/
theorem chain_join {deeper : Rules} {floor : Nat} {t u : Token} {op : BinaryOp}
    (hop : t.binaryOp? = some op) (hfloor : floor ≤ op.level) (turns : List Token) (left : Expr)
    (rest : List Token) :
    chain deeper floor (u :: turns) left (t :: rest) =
      match deeper.expression (op.level + 1) rest with
      | .ok (right, rest) => chain deeper floor turns (.binary op left right) rest
      | .error failure => .error failure := by
  cases hright : deeper.expression (op.level + 1) rest with
  | error failure => simp only [chain, hop, if_pos hfloor, hright]
  | ok p =>
      obtain ⟨right, rest⟩ := p
      simp only [chain, hop, if_pos hfloor, hright]

/-- The loop joins the operator that comes next, or what comes next lies below its threshold. -/
theorem exists_join_or_below (floor : Nat) (t : Token) (rest : List Token) :
    (∃ op, t.binaryOp? = some op ∧ floor ≤ op.level) ∨ Below floor (t :: rest) := by
  by_cases hjoin : ∃ op, t.binaryOp? = some op ∧ floor ≤ op.level
  · exact .inl hjoin
  · refine .inr (below_cons.mpr fun op hop => ?_)
    exact Nat.lt_of_not_le fun hle => hjoin ⟨op, hop, hle⟩

/-! ## Soundness -/

/-- A tree is read off the front of a stream at a level, and the rest is left. -/
def Reads (k : Nat) (tokens : List Token) (e : Expr) (rest : List Token) : Prop :=
  ∃ taken, tokens = taken ++ rest ∧ Derives k taken e

/-- Rules read nothing but the grammar. What an expression leaves does not begin with an operator
that the expression should have taken. -/
structure Rules.Sound (rules : Rules) : Prop where
  operand {tokens : List Token} {e : Expr} {rest : List Token}
    (ht : ∀ t ∈ tokens, t.WellTyped) (h : rules.operand tokens = .ok (e, rest)) :
    Reads 7 tokens e rest
  expression {floor : Nat} {tokens : List Token} {e : Expr} {rest : List Token}
    (hfloor : floor ≤ 7) (ht : ∀ t ∈ tokens, t.WellTyped)
    (h : rules.expression floor tokens = .ok (e, rest)) :
    Reads (max floor 1) tokens e rest ∧ Below floor rest

section Soundness

variable {last : Token} {limit : Int} {deeper : Rules}

/-- A group is closed by a closing parenthesis that was still to come. -/
theorem close_ok (hlast : last.kind = .eof) {e e' : Expr} {tokens rest : List Token}
    (h : close last e tokens = .ok (e', rest)) :
    e' = e ∧ ∃ t, tokens = t :: rest ∧ t.kind = .closing := by
  cases tokens with
  | nil => simp [close, current, hlast, reject] at h
  | cons t tokens =>
    by_cases hk : t.kind = .closing
    · simp only [close, current, List.headD_cons, hk, List.tail_cons, ite_true, Except.ok.injEq,
        Prod.mk.injEq] at h
      obtain ⟨rfl, rfl⟩ := h
      exact ⟨rfl, t, rfl, hk⟩
    · simp [close, current, hk, reject] at h

/-- Literals, variables and groups are operands of the grammar. -/
theorem primary_sound (hlast : last.kind = .eof) (hd : deeper.Sound) {tokens rest : List Token}
    {e : Expr} (ht : ∀ t ∈ tokens, t.WellTyped)
    (h : primary last deeper tokens = .ok (e, rest)) : Reads 7 tokens e rest := by
  cases tokens with
  | nil => simp [primary, current, hlast, reject] at h
  | cons t tokens =>
    obtain ⟨htyped, htail⟩ := List.forall_mem_cons.mp ht
    obtain ⟨kind, value, pos⟩ := t
    cases kind with
    | number =>
      obtain ⟨x, rfl⟩ := htyped
      cases h
      exact ⟨[_], rfl, ⟨.atom (.number x pos)⟩⟩
    | boolean =>
      obtain ⟨b, rfl⟩ := htyped
      cases h
      exact ⟨[_], rfl, ⟨.atom (.boolean b pos)⟩⟩
    | ident =>
      obtain ⟨s, rfl⟩ := htyped
      cases h
      exact ⟨[_], rfl, ⟨.atom (.ident s pos)⟩⟩
    | opening =>
      simp only [primary, current, List.headD_cons, List.tail_cons] at h
      cases hinner : deeper.expression 0 tokens with
      | error failure => simp [hinner] at h
      | ok p =>
        obtain ⟨inner, after⟩ := p
        simp only [hinner] at h
        obtain ⟨rfl, closing, rfl, hclosing⟩ := close_ok hlast h
        obtain ⟨⟨taken, htaken, ⟨D⟩⟩, _⟩ := hd.expression (Nat.zero_le 7) htail hinner
        refine ⟨⟨.opening, value, pos⟩ :: taken ++ [closing], ?_, ⟨.group rfl hclosing D⟩⟩
        rw [htaken, List.cons_append, List.cons_append, List.append_assoc, List.singleton_append]
    | operator => simp [primary, current, reject] at h
    | closing => simp [primary, current, reject] at h
    | eof => simp [primary, current, reject] at h

/-- Prefix operators are operators of the grammar. -/
theorem operand_sound (hlast : last.kind = .eof) (hd : deeper.Sound) {tokens rest : List Token}
    {e : Expr} (ht : ∀ t ∈ tokens, t.WellTyped)
    (h : operand last deeper tokens = .ok (e, rest)) : Reads 7 tokens e rest := by
  have hprimary (hnone : (current last tokens).unaryOp? = .ok none) : Reads 7 tokens e rest := by
    rw [operand, hnone] at h
    exact primary_sound hlast hd ht h
  cases tokens with
  | nil => exact hprimary (Token.unaryOp?_eq_none (by simp [current, hlast]))
  | cons t tokens =>
    obtain ⟨htyped, htail⟩ := List.forall_mem_cons.mp ht
    rcases htyped.unaryOp?_cases with hnone | ⟨op, hop, hspells⟩
    · exact hprimary hnone
    · simp only [operand, current, List.headD_cons, List.tail_cons, hop] at h
      cases hinner : deeper.operand tokens with
      | error failure => simp [hinner, Except.map] at h
      | ok p =>
        obtain ⟨inner, after⟩ := p
        simp only [hinner, Except.map, Except.ok.injEq, Prod.mk.injEq] at h
        obtain ⟨rfl, rfl⟩ := h
        obtain ⟨taken, rfl, ⟨D⟩⟩ := hd.operand htail hinner
        exact ⟨t :: taken, rfl, ⟨.unary hspells D⟩⟩

/-- Where the loop stops, its left operand is the result. -/
private theorem chain_sound_of_below {floor m : Nat} {taken tokens rest turns : List Token}
    {left e : Expr} (hm : 1 ≤ m) (hfloor : floor ≤ m) (hm' : m ≤ 7) (hleft : Derives m taken left)
    (hbelow : Below floor tokens) (h : chain deeper floor turns left tokens = .ok (e, rest)) :
    Below floor rest ∧
      ∃ more, tokens = more ++ rest ∧ Derives (max floor 1) (taken ++ more) e := by
  rw [chain_stop hbelow] at h
  cases h
  refine ⟨hbelow, [], rfl, ?_⟩
  rw [List.append_nil]
  exact hleft.loosen (Nat.le_max_right floor 1) (Nat.max_le.mpr ⟨hfloor, hm⟩) hm'

/-- The loop extends a left operand along the grammar. Its level sinks to that of the operator
joined last, and no operator that comes next binds tighter. -/
theorem chain_sound (hd : deeper.Sound) {floor m : Nat} {taken tokens rest turns : List Token}
    {left e : Expr} (hm : 1 ≤ m) (hfloor : floor ≤ m) (hm' : m ≤ 7) (hleft : Derives m taken left)
    (hbelow : Below (m + 1) tokens) (hturns : tokens.length ≤ turns.length)
    (ht : ∀ t ∈ tokens, t.WellTyped)
    (h : chain deeper floor turns left tokens = .ok (e, rest)) :
    Below floor rest ∧
      ∃ more, tokens = more ++ rest ∧ Derives (max floor 1) (taken ++ more) e := by
  induction turns generalizing m taken tokens left with
  | nil =>
    obtain rfl : tokens = [] := List.eq_nil_of_length_eq_zero (Nat.le_zero.mp hturns)
    exact chain_sound_of_below hm hfloor hm' hleft (below_nil floor) h
  | cons turn turns ih =>
    cases tokens with
    | nil => exact chain_sound_of_below hm hfloor hm' hleft (below_nil floor) h
    | cons t tokens =>
      obtain ⟨htyped, htail⟩ := List.forall_mem_cons.mp ht
      rcases exists_join_or_below floor t tokens with ⟨op, hop, hle⟩ | hbelow'
      · have hlevel : op.level ≤ m := Nat.lt_succ_iff.mp (below_cons.mp hbelow op hop)
        rw [chain_join hop hle] at h
        cases hright : deeper.expression (op.level + 1) tokens with
        | error failure => simp [hright] at h
        | ok p =>
          obtain ⟨right, after⟩ := p
          simp only [hright] at h
          obtain ⟨⟨takenRight, rfl, hR⟩, hafter⟩ :=
            hd.expression (Nat.succ_le_succ op.level_le) htail hright
          obtain ⟨L⟩ := hleft.loosen op.one_le_level hlevel hm'
          obtain ⟨R⟩ := hR
          rw [Nat.max_eq_left (Nat.le_add_left 1 op.level)] at R
          have hnew : Derives op.level (taken ++ t :: takenRight) (.binary op left right) :=
            ⟨.binary (htyped.spells_of_binaryOp? hop) rfl L R⟩
          have hlength : after.length ≤ turns.length := by
            simp only [List.length_cons, List.length_append] at hturns
            omega
          obtain ⟨hrest, more, rfl, hmore⟩ := ih op.one_le_level hle (Nat.le_succ_of_le op.level_le)
            hnew hafter hlength (List.forall_mem_append.mp htail).2 h
          refine ⟨hrest, t :: takenRight ++ more, ?_, ?_⟩
          · simp only [List.cons_append, List.append_assoc]
          · rwa [← List.append_assoc]
      · exact chain_sound_of_below hm hfloor hm' hleft hbelow' h

/-- Rules built on sound rules are sound. -/
theorem Rules.Sound.above (hlast : last.kind = .eof) (hd : deeper.Sound) :
    (Rules.above last deeper).Sound where
  operand := operand_sound hlast hd
  expression {floor tokens e rest} hfloor ht h := by
    simp only [Rules.above] at h
    cases hleft : Expr.operand last deeper tokens with
    | error failure => simp [hleft] at h
    | ok p =>
      obtain ⟨left, after⟩ := p
      simp only [hleft] at h
      obtain ⟨taken, rfl, hL⟩ := operand_sound hlast hd ht hleft
      obtain ⟨hrest, more, rfl, hmore⟩ := chain_sound hd (by decide) hfloor (Nat.le_refl 7) hL
        ((below_seven after).mono (by decide)) (Nat.le_refl _) (List.forall_mem_append.mp ht).2 h
      exact ⟨⟨taken ++ more, (List.append_assoc ..).symm, hmore⟩, hrest⟩

/-- The rules of every height are sound. -/
theorem Rules.tower_sound (hlast : last.kind = .eof) (levels : Nat) :
    (Rules.tower last limit levels).Sound := by
  induction levels with
  | zero =>
    constructor
    · intro tokens e rest _ h
      contradiction
    · intro floor tokens e rest _ _ h
      contradiction
  | succ levels ih => exact ih.above hlast

end Soundness

end Expr

end Criterion
