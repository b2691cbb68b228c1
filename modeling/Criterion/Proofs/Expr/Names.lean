import Criterion.Expr.Basic
import Criterion.Proofs.Expr.Grammar
import Criterion.Proofs.Expr.Semantics
import Mathlib.Data.List.Nodup

/-!
# The names that an expression reads

The names of a tree from left to right are those of its tokens, since neither parentheses nor
precedence change their order. Its variables are gathered from a stack, each once and in another
order, and are the same names. They are all that an evaluation asks an environment for: the first
of them without a value is the one that is missed, and if there is none the tree has a value.
-/

namespace Criterion

/-- The name of a token that is a variable. -/
def Token.name? (t : Token) : Option String :=
  match t.kind, t.value with
  | .ident, .text name => some name
  | _, _ => none

/-- A token of another kind has no name. -/
theorem Token.name?_eq_none {t : Token} (hk : t.kind ≠ .ident) : t.name? = none := by
  unfold Token.name?
  split
  · contradiction
  · rfl

namespace Expr

/-- The names of an expression's variables from left to right, repetitions included. -/
def names : Expr → List String
  | number _ | boolean _ => []
  | ident name => [name]
  | unary _ operand => operand.names
  | binary _ left right => left.names ++ right.names

variable {name : String} {known : List String} {e : Expr} {env env' : Environment}

/-! ## Names in order -/

@[simp] theorem names_number (x : Float) : (number x).names = [] := rfl

@[simp] theorem names_boolean (b : Bool) : (boolean b).names = [] := rfl

@[simp] theorem names_ident (name : String) : (ident name).names = [name] := rfl

@[simp] theorem names_unary (op : UnaryOp) (operand : Expr) :
    (unary op operand).names = operand.names := rfl

@[simp] theorem names_binary (op : BinaryOp) (left right : Expr) :
    (binary op left right).names = left.names ++ right.names := rfl

/-- The names of a tree are those of its tokens, in their order. -/
theorem Derivation.filterMap_name? {k : Nat} {tokens : List Token} (D : Derivation k tokens e) :
    tokens.filterMap Token.name? = e.names := by
  refine D.filterMap_eq ?_ ?_ names_unary names_binary
  · intro t e h
    cases h <;> rfl
  · intro t hk
    refine Token.name?_eq_none fun hident => ?_
    simp [hident] at hk

/-! ## Names as a set -/

/-- The names of the tree on top of a stack are gathered before the rest of the stack is looked
at. -/
theorem gather_cons (known : List String) (e : Expr) (rest : List Expr) :
    gather known (e :: rest) = gather (e.names ∪ known) rest := by
  induction e generalizing known rest with
  | number x => rw [gather, names_number, List.nil_union]
  | boolean b => rw [gather, names_boolean, List.nil_union]
  | ident name => rw [gather, names_ident, List.cons_union, List.nil_union]
  | unary op operand ih => rw [gather, ih, names_unary]
  | binary op left right ihl ihr =>
    have hboth : (left.names ++ right.names) ∪ known = left.names ∪ (right.names ∪ known) :=
      List.foldr_append
    rw [gather, ihr, ihl, names_binary, hboth]

/-- The names gathered from one tree are its names, each once. -/
theorem gather_singleton (e : Expr) : gather [] [e] = e.names ∪ [] := by
  rw [gather_cons, gather]

/-- The variables of a tree are its names. -/
theorem mem_variableNames : name ∈ e.variableNames ↔ name ∈ e.names := by
  rw [variableNames, List.mem_mergeSort, gather_singleton, List.mem_union_iff,
    or_iff_left List.not_mem_nil]

/-- The variables of a tree are listed once each, in the order of their code points. -/
theorem pairwise_variableNames (e : Expr) : e.variableNames.Pairwise (· < ·) := by
  have htrans (a b c : String) (hab : decide (a ≤ b) = true) (hbc : decide (b ≤ c) = true) :
      decide (a ≤ c) = true :=
    decide_eq_true (String.le_trans (of_decide_eq_true hab) (of_decide_eq_true hbc))
  have htotal (a b : String) : (decide (a ≤ b) || decide (b ≤ a)) = true := by
    rw [Bool.or_eq_true, decide_eq_true_eq, decide_eq_true_eq]
    exact String.le_total a b
  have hsorted := List.pairwise_mergeSort htrans htotal (gather [] [e])
  have honce : e.variableNames.Nodup := by
    rw [variableNames, (List.mergeSort_perm _ _).nodup_iff, gather_singleton]
    exact List.Nodup.union e.names List.nodup_nil
  refine hsorted.imp₂ (fun a b hle hne => ?_) honce
  exact String.not_le.1 fun hback => hne (String.le_antisymm (of_decide_eq_true hle) hback)

/-! ## What an evaluation asks for -/

/-- A tree all of whose names have values has a value. -/
theorem exists_denote_eq_ok (h : ∀ name ∈ e.names, env.find? name ≠ none) :
    ∃ v, e.denote env = .ok v := by
  induction e with
  | number x => exact ⟨_, rfl⟩
  | boolean b => exact ⟨_, rfl⟩
  | ident name =>
      obtain ⟨v, hv⟩ := Option.ne_none_iff_exists'.1 (h name (by simp))
      exact ⟨v, by rw [denote, hv]⟩
  | unary op operand ih =>
      obtain ⟨v, hv⟩ := ih h
      exact ⟨op.apply v, by rw [denote, hv]; rfl⟩
  | binary op left right ihl ihr =>
      rw [names_binary, List.forall_mem_append] at h
      obtain ⟨v, hv⟩ := ihl h.1
      obtain ⟨w, hw⟩ := ihr h.2
      exact ⟨op.apply v w, by rw [denote, hv, hw]; rfl⟩

/-- The first name of a tree that has no value is the one that is missed. -/
theorem denote_of_first_missing (h : e.names.find? (fun s => (env.find? s).isNone) = some name) :
    e.denote env = reject (.undefinedVariable name) none := by
  induction e with
  | number x => contradiction
  | boolean b => contradiction
  | ident s =>
      rw [names_ident, List.find?_singleton] at h
      split at h
      · rename_i hmissing
        cases h
        rw [denote, Option.isNone_iff_eq_none.1 hmissing]
      · contradiction
  | unary op operand ih =>
      rw [denote, ih h]
      rfl
  | binary op left right ihl ihr =>
      rw [names_binary, List.find?_append] at h
      cases hleft : left.names.find? (fun s => (env.find? s).isNone) with
      | some s =>
        rw [hleft, Option.some_or, Option.some.injEq] at h
        rw [denote, ihl (hleft.trans (congrArg some h))]
        rfl
      | none =>
        rw [hleft, Option.none_or] at h
        have hall : ∀ s ∈ left.names, env.find? s ≠ none := by
          simpa using hleft
        obtain ⟨v, hv⟩ := exists_denote_eq_ok hall
        rw [denote, hv, ihr h]
        rfl

/-- Environments that agree on the names of a tree give it the same outcome. -/
theorem denote_congr (h : ∀ name ∈ e.names, env.find? name = env'.find? name) :
    e.denote env = e.denote env' := by
  induction e with
  | number x => rfl
  | boolean b => rfl
  | ident name => rw [denote, denote, h name (by simp)]
  | unary op operand ih => rw [denote, denote, ih h]
  | binary op left right ihl ihr =>
      rw [names_binary, List.forall_mem_append] at h
      rw [denote, denote, ihl h.1, ihr h.2]

end Expr

end Criterion
