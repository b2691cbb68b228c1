import Criterion.Proofs.Expr.Acceptance
import Criterion.Proofs.Expr.Semantics

/-!
# Inlining an expression for a variable

A variable can be replaced in a stream, by the tokens of an expression in parentheses, and in a
tree, by the tree of the expression. The parentheses make the two agree: an operand of the grammar
takes the place of an operand, so that no operator around it changes its operands, and the nesting
grows by no more than the group that is put in.
-/

namespace Criterion

/-- Whether a token is a given variable. -/
def Token.isVariable (name : String) (t : Token) : Bool :=
  match t.kind, t.value with
  | .ident, .text s => s == name
  | _, _ => false

namespace Expr

/-- The tree in which a variable is replaced by a tree. -/
def substitute (name : String) (inner : Expr) : Expr → Expr
  | number x => number x
  | boolean b => boolean b
  | ident s => if s = name then inner else ident s
  | unary op operand => unary op (substitute name inner operand)
  | binary op left right => binary op (substitute name inner left) (substitute name inner right)

/-- The stream in which every token of a variable is replaced by the tokens of a group. -/
def inlineTokens (name : String) (group tokens : List Token) : List Token :=
  tokens.flatMap fun t => if t.isVariable name then group else [t]

variable {name : String} {group tokens innerTokens : List Token} {e inner : Expr}
  {env : Environment} {v : Value}

/-! ## Streams -/

theorem inlineTokens_append (name : String) (group before after : List Token) :
    inlineTokens name group (before ++ after) =
      inlineTokens name group before ++ inlineTokens name group after :=
  List.flatMap_append

/-- A token of another kind stays. -/
theorem inlineTokens_cons_of_kind_ne {t : Token} (hk : t.kind ≠ .ident) (name : String)
    (group rest : List Token) :
    inlineTokens name group (t :: rest) = t :: inlineTokens name group rest := by
  have hvariable : t.isVariable name = false := by
    unfold Token.isVariable
    split
    · contradiction
    · rfl
  simp only [inlineTokens, List.flatMap_cons, hvariable, Bool.false_eq_true, ite_false,
    List.singleton_append]

private theorem inlineTokens_ident (name s : String) (pos : Int) (group : List Token) :
    inlineTokens name group [⟨.ident, .text s, pos⟩] =
      if s = name then group else [⟨.ident, .text s, pos⟩] := by
  by_cases h : s = name
  · simp [inlineTokens, Token.isVariable, h]
  · simp [inlineTokens, Token.isVariable, h]

/-- An operand put in for a variable leaves every derivation in place. Where the nesting grows, it
grows by that of the operand. -/
theorem Derivation.exists_inlined {k : Nat} (D : Derivation k tokens e)
    (G : Derivation 7 group inner) (name : String) :
    ∃ D' : Derivation k (inlineTokens name group tokens) (substitute name inner e),
      D'.need ≤ D.need + G.need := by
  induction D with
  | @atom t e h =>
      cases h with
      | number x pos => exact ⟨.atom (.number x pos), Nat.zero_le _⟩
      | boolean b pos => exact ⟨.atom (.boolean b pos), Nat.zero_le _⟩
      | ident s pos =>
        rw [inlineTokens_ident, substitute]
        by_cases h : s = name
        · rw [if_pos h, if_pos h]
          exact ⟨G, Nat.le_add_left _ _⟩
        · rw [if_neg h, if_neg h]
          exact ⟨.atom (.ident s pos), Nat.zero_le _⟩
  | @group opening closing tokens e hopening hclosing D ih =>
      obtain ⟨D', hneed⟩ := ih
      have htokens : inlineTokens name group (opening :: tokens ++ [closing]) =
          opening :: inlineTokens name group tokens ++ [closing] := by
        rw [inlineTokens_append, inlineTokens_cons_of_kind_ne (by simp [hopening]),
          inlineTokens_cons_of_kind_ne (by simp [hclosing])]
        rfl
      rw [htokens]
      refine ⟨.group hopening hclosing D', ?_⟩
      simp only [Derivation.need]
      omega
  | @unary t op tokens e h D ih =>
      obtain ⟨D', hneed⟩ := ih
      rw [inlineTokens_cons_of_kind_ne (by simp [h.1])]
      refine ⟨.unary h D', ?_⟩
      simp only [Derivation.need]
      omega
  | loosen hpos hle D ih =>
      obtain ⟨D', hneed⟩ := ih
      exact ⟨.loosen hpos hle D', hneed⟩
  | @binary t op k leftTokens rightTokens l r h hlevel L R ihl ihr =>
      obtain ⟨L', hleft⟩ := ihl
      obtain ⟨R', hright⟩ := ihr
      rw [inlineTokens_append, inlineTokens_cons_of_kind_ne (by simp [h.1])]
      refine ⟨.binary h hlevel L' R', ?_⟩
      simp only [Derivation.need]
      omega

/-! ## Trees -/

private theorem find?_bind_self (env : Environment) (name : String) (v : Value) :
    (env.bind name v).find? name = some v := by
  simp [Environment.find?, Environment.bind]

private theorem find?_bind_of_ne (env : Environment) {name s : String} (h : s ≠ name) (v : Value) :
    (env.bind name v).find? s = env.find? s := by
  simp [Environment.find?, Environment.bind, h.symm]

/-- Replacing a variable by a tree means to bind it to the value of the tree. -/
theorem denote_substitute (hinner : inner.denote env = .ok v) (name : String) (e : Expr) :
    (substitute name inner e).denote env = e.denote (env.bind name v) := by
  induction e with
  | number x => rfl
  | boolean b => rfl
  | ident s =>
      by_cases h : s = name
      · rw [substitute, if_pos h, hinner, denote, h, find?_bind_self]
      · rw [substitute, if_neg h, denote, denote, find?_bind_of_ne env h]
  | unary op operand ih => simp only [substitute, denote, ih]
  | binary op left right ihl ihr => simp only [substitute, denote, ihl, ihr]

/-! ## Inlining -/

/-- An expression in parentheses may be put in for a variable of another expression. The limit of
depth that accepts both, one on top of the other and with a level for the parentheses, accepts the
result, which is the tree with the variable replaced; and where the expression that was put in has
a value, the result has the outcome of the other one with the variable bound to that value. -/
theorem ofTokens_inlineTokens {last innerLast outerLast opening closing : Token}
    {innerDepth outerDepth : Int} {outerTokens : List Token} {outer : Expr}
    (hlast : last.kind = .eof) (hinnerLast : innerLast.kind = .eof)
    (houterLast : outerLast.kind = .eof) (hopening : opening.kind = .opening)
    (hclosing : closing.kind = .closing)
    (hinnerTokens : ∀ t ∈ innerTokens, t.WellTyped ∧ t.kind ≠ .eof)
    (houterTokens : ∀ t ∈ outerTokens, t.WellTyped ∧ t.kind ≠ .eof)
    (hinner : ofTokens (innerTokens ++ [innerLast]) innerDepth = .ok inner)
    (houter : ofTokens (outerTokens ++ [outerLast]) outerDepth = .ok outer)
    (hdepth : innerDepth + outerDepth + 1 ≤ deepestLimit) (name : String) :
    ofTokens (inlineTokens name (opening :: innerTokens ++ [closing]) outerTokens ++ [last])
        (innerDepth + outerDepth + 1) = .ok (substitute name inner outer) ∧
      ∀ env v, inner.evaluate env = .ok v →
        (substitute name inner outer).evaluate env = outer.evaluate (env.bind name v) := by
  constructor
  · obtain ⟨I, hI⟩ := exists_derivation_of_ofTokens hinnerLast hinnerTokens hinner
    obtain ⟨O, hO⟩ := exists_derivation_of_ofTokens houterLast houterTokens houter
    have hinnerPos := (depth_of_ofTokens hinner).1
    have houterPos := (depth_of_ofTokens houter).1
    obtain ⟨D, hD⟩ := O.exists_inlined (.group hopening hclosing I) name
    refine ofTokens_of_need_le hlast (by omega) hdepth D ?_
    rw [Derivation.need] at hD
    omega
  · intro env v hv
    rw [evaluate, run_start] at hv
    rw [evaluate, evaluate, run_start, run_start, denote_substitute hv]

/-- The tokens of `x || y`. -/
def choiceTokens : List Token :=
  [⟨.ident, .text "x", 0⟩, ⟨.operator, .text "||", 2⟩, ⟨.ident, .text "y", 5⟩]

/-- The tokens of `x && !x`. -/
def contradictionTokens : List Token :=
  [⟨.ident, .text "x", 0⟩, ⟨.operator, .text "&&", 2⟩, ⟨.operator, .text "!", 5⟩,
    ⟨.ident, .text "x", 6⟩]

/-- The tree of `x || y`. -/
def choiceTree : Expr := .binary .or (.ident "x") (.ident "y")

/-- The tree of `x && !x`. -/
def contradictionTree : Expr := .binary .and (.ident "x") (.unary .not (.ident "x"))

/-- The choice is put in for both occurrences of `x`, though it holds an `x` of its own, which
keeps the value of the environment. -/
theorem contradictionTokens_inlined :
    (∀ t ∈ choiceTokens, t.WellTyped ∧ t.kind ≠ .eof) ∧
      (∀ t ∈ contradictionTokens, t.WellTyped ∧ t.kind ≠ .eof) ∧
      ofTokens (choiceTokens ++ [⟨.eof, .text "", 6⟩]) 1 = .ok choiceTree ∧
      ofTokens (contradictionTokens ++ [⟨.eof, .text "", 7⟩]) 2 = .ok contradictionTree ∧
      (1 : Int) + 2 + 1 ≤ deepestLimit ∧
      ofTokens (inlineTokens "x" (⟨.opening, .text "(", 0⟩ :: choiceTokens ++
        [⟨.closing, .text ")", 7⟩]) contradictionTokens ++ [⟨.eof, .text "", 21⟩]) (1 + 2 + 1) =
          .ok (substitute "x" choiceTree contradictionTree) ∧
      choiceTree.evaluate ⟨[("x", .boolean false), ("y", .boolean true)]⟩ = .ok (.boolean true) ∧
      (substitute "x" choiceTree contradictionTree).evaluate
          ⟨[("x", .boolean false), ("y", .boolean true)]⟩ =
        contradictionTree.evaluate
          (Environment.bind ⟨[("x", .boolean false), ("y", .boolean true)]⟩ "x" (.boolean true)) := by
  have hchoice : ∀ t ∈ choiceTokens, t.WellTyped ∧ t.kind ≠ .eof := by
    simp [choiceTokens, Token.WellTyped]
  have hcontradiction : ∀ t ∈ contradictionTokens, t.WellTyped ∧ t.kind ≠ .eof := by
    simp [contradictionTokens, Token.WellTyped]
  have hinner : ofTokens (choiceTokens ++ [⟨.eof, .text "", 6⟩]) 1 = .ok choiceTree := rfl
  have houter : ofTokens (contradictionTokens ++ [⟨.eof, .text "", 7⟩]) 2 =
      .ok contradictionTree := rfl
  have hdepth : (1 : Int) + 2 + 1 ≤ deepestLimit := by decide
  have hvalue : choiceTree.evaluate ⟨[("x", .boolean false), ("y", .boolean true)]⟩ =
      .ok (.boolean true) := (run_start _ choiceTree).trans rfl
  have hlast : (⟨.eof, .text "", 21⟩ : Token).kind = .eof := rfl
  have hopening : (⟨.opening, .text "(", 0⟩ : Token).kind = .opening := rfl
  have hclosing : (⟨.closing, .text ")", 7⟩ : Token).kind = .closing := rfl
  obtain ⟨htree, houtcome⟩ := ofTokens_inlineTokens hlast rfl rfl hopening hclosing hchoice
    hcontradiction hinner houter hdepth "x"
  exact ⟨hchoice, hcontradiction, hinner, houter, hdepth, htree, hvalue, houtcome _ _ hvalue⟩

end Expr

end Criterion
