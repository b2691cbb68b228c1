import Criterion.Proofs.Expr.Nesting

/-!
# What the parser accepts

On a stream that ends in its only end token the parser returns a tree exactly if the grammar
derives it and its nesting is within the limit. Every other outcome on a stream that the grammar
derives is the refusal of its depth.
-/

namespace Criterion.Expr

variable {tokens : List Token} {last : Token} {maxDepth : Int} {e : Expr}

/-- Within the range of limits the outcome is that of the tower, once the end token is reached. -/
theorem ofTokens_eq_tower (hpos : 1 ≤ maxDepth) (hle : maxDepth ≤ deepestLimit) :
    ofTokens (tokens ++ [last]) maxDepth =
      match (Rules.tower last maxDepth (maxDepth.toNat + 1)).expression 0 (tokens ++ [last]) with
      | .error failure => .error failure
      | .ok (e, rest) =>
        if (current last rest).kind = .eof then .ok e
        else reject (.trailingTokens (current last rest).describe)
          (some (current last rest).pos) := by
  have hrange : ¬ (maxDepth < 1 ∨ (deepestLimit : Int) < maxDepth) := by omega
  cases hread : (Rules.tower last maxDepth (maxDepth.toNat + 1)).expression 0
    (tokens ++ [last]) with
  | error failure =>
      simp only [ofTokens, Bool.or_eq_true, decide_eq_true_eq, if_neg hrange,
        List.getLast?_concat, hread]
  | ok p =>
      obtain ⟨e, rest⟩ := p
      simp only [ofTokens, Bool.or_eq_true, decide_eq_true_eq, if_neg hrange,
        List.getLast?_concat, hread]

/-- A whole stream is read up to its end token by more levels than its nesting. -/
theorem Derivation.tower_eq (limit : Int) (hlast : last.kind = .eof)
    (D : Derivation 1 tokens e) {levels : Nat} (hneed : D.need ≤ levels) :
    (Rules.tower last limit (levels + 1)).expression 0 (tokens ++ [last]) = .ok (e, [last]) := by
  have hbelow (k : Nat) : Below k [last] := below_of_kind_ne (by simp [hlast]) k []
  have hread : ReadAt last limit levels 1 tokens e [last] := D.readAt hneed [last]
  exact (hread.expression (Nat.zero_le 1) (hbelow 2)).expression_eq (hbelow 0)

/-- A stream of nesting within the limit has its tree. -/
theorem ofTokens_of_need_le (hlast : last.kind = .eof) (hpos : 1 ≤ maxDepth)
    (hle : maxDepth ≤ deepestLimit) (D : Derivation 1 tokens e) (hneed : D.need ≤ maxDepth) :
    ofTokens (tokens ++ [last]) maxDepth = .ok e := by
  have hneed' : D.need ≤ maxDepth.toNat := by omega
  rw [ofTokens_eq_tower hpos hle, D.tower_eq maxDepth hlast hneed']
  simp only [current, List.headD_cons, hlast, ite_true]

/-- A stream of greater nesting than the limit is refused for its depth. -/
theorem ofTokens_of_lt_need (hlast : last.kind = .eof) (hpos : 1 ≤ maxDepth)
    (hle : maxDepth ≤ deepestLimit) (D : Derivation 1 tokens e) (hneed : maxDepth < D.need) :
    ∃ pos, ofTokens (tokens ++ [last]) maxDepth = reject (.tooDeep maxDepth) (some pos) := by
  have hneed' : maxDepth.toNat + 1 ≤ D.need := by omega
  have hbelow : Below 2 [last] := below_of_kind_ne (by simp [hlast]) 2 []
  have hrefused : RefusedAt last maxDepth (maxDepth.toNat + 1) 1 tokens [last] :=
    D.refusedAt hneed' [last]
  obtain ⟨pos, he⟩ := hrefused.expression (Nat.zero_le 1) hbelow
  exact ⟨pos, by rw [ofTokens_eq_tower hpos hle, he]; rfl⟩

/-- The grammar gives no stream two trees: a tower that is high enough for both readings returns
each of them. -/
theorem Derives.unique {e' : Expr} (h : Derives 1 tokens e) (h' : Derives 1 tokens e') :
    e = e' := by
  obtain ⟨D⟩ := h
  obtain ⟨D'⟩ := h'
  have hlast : (⟨.eof, .text "", 0⟩ : Token).kind = .eof := rfl
  have hread := D.tower_eq 0 hlast (Nat.le_max_left D.need D'.need)
  rw [D'.tower_eq 0 hlast (Nat.le_max_right D.need D'.need)] at hread
  cases hread
  rfl

/-- The nesting is that of the stream: no reading of it nests deeper than another. -/
theorem Derivation.need_le {e' : Expr} (D : Derivation 1 tokens e) (D' : Derivation 1 tokens e') :
    D'.need ≤ D.need := by
  refine Nat.le_of_not_lt fun hlt => ?_
  have hlast : (⟨.eof, .text "", 0⟩ : Token).kind = .eof := rfl
  have hread := D.tower_eq 0 hlast (Nat.le_refl D.need)
  have hrefused : RefusedAt ⟨.eof, .text "", 0⟩ 0 (D.need + 1) 1 tokens [⟨.eof, .text "", 0⟩] :=
    D'.refusedAt hlt _
  obtain ⟨pos, he⟩ := hrefused.expression (Nat.zero_le 1) (below_of_kind_ne (by decide) 2 [])
  rw [hread] at he
  contradiction

/-- Only the last token of a stream ends it. -/
theorem eq_of_append_eof {taken rest : List Token} (hlast : last.kind = .eof)
    (htokens : ∀ t ∈ tokens, t.kind ≠ .eof) (htaken : ∀ t ∈ taken, t.kind ≠ .eof)
    (h : tokens ++ [last] = taken ++ rest) (hrest : (current last rest).kind = .eof) :
    tokens = taken := by
  rcases List.append_eq_append_iff.mp h with ⟨more, hmore, he⟩ | ⟨more, hmore, he⟩
  · cases more with
    | nil => rw [hmore, List.append_nil]
    | cons t more =>
      -- The end token itself would have been taken.
      obtain ⟨rfl, -⟩ := List.cons.inj he
      exact absurd hlast (htaken last (by simp [hmore]))
  · cases more with
    | nil => rw [hmore, List.append_nil]
    | cons t more =>
      rw [he] at hrest
      exact absurd hrest (htokens t (by simp [hmore]))

/-- Nothing but an expression of the grammar has a tree, and the tree is the derived one. -/
theorem derives_of_ofTokens (hlast : last.kind = .eof)
    (htokens : ∀ t ∈ tokens, t.WellTyped ∧ t.kind ≠ .eof) (hpos : 1 ≤ maxDepth)
    (hle : maxDepth ≤ deepestLimit) (h : ofTokens (tokens ++ [last]) maxDepth = .ok e) :
    Derives 1 tokens e := by
  rw [ofTokens_eq_tower hpos hle] at h
  cases hread : (Rules.tower last maxDepth (maxDepth.toNat + 1)).expression 0
    (tokens ++ [last]) with
  | error failure => simp [hread] at h
  | ok p =>
    obtain ⟨e', rest⟩ := p
    simp only [hread] at h
    split at h
    · rename_i hrest
      cases h
      have htyped : ∀ t ∈ tokens ++ [last], t.WellTyped := by
        rw [List.forall_mem_append, List.forall_mem_singleton]
        exact ⟨fun t ht => (htokens t ht).1, by simp [Token.WellTyped, hlast]⟩
      obtain ⟨⟨taken, htaken, ⟨D⟩⟩, -⟩ :=
        (Rules.tower_sound hlast _).expression (Nat.zero_le 7) htyped hread
      have he := eq_of_append_eof hlast (fun t ht => (htokens t ht).2) D.kind_ne_eof htaken hrest
      rw [he]
      exact ⟨D⟩
    · contradiction

/-- A tree is returned only within the range of limits. -/
theorem depth_of_ofTokens {tokens : List Token} (h : ofTokens tokens maxDepth = .ok e) :
    1 ≤ maxDepth ∧ maxDepth ≤ deepestLimit := by
  unfold ofTokens at h
  split at h
  · contradiction
  · rename_i hrange
    simp only [Bool.or_eq_true, decide_eq_true_eq] at hrange
    omega

/-- A stream has a tree only if it is derived within the limit of depth. -/
theorem exists_derivation_of_ofTokens (hlast : last.kind = .eof)
    (htokens : ∀ t ∈ tokens, t.WellTyped ∧ t.kind ≠ .eof)
    (h : ofTokens (tokens ++ [last]) maxDepth = .ok e) :
    ∃ D : Derivation 1 tokens e, D.need ≤ maxDepth := by
  obtain ⟨hpos, hle⟩ := depth_of_ofTokens h
  obtain ⟨D⟩ := derives_of_ofTokens hlast htokens hpos hle h
  refine ⟨D, Int.not_lt.1 fun hneed => ?_⟩
  obtain ⟨pos, hdeep⟩ := ofTokens_of_lt_need hlast hpos hle D hneed
  rw [hdeep] at h
  contradiction

/-- The parser accepts exactly the grammar, up to the depth limit, and builds its only tree. -/
theorem ofTokens_reads_grammar (hlast : last.kind = .eof)
    (htokens : ∀ t ∈ tokens, t.WellTyped ∧ t.kind ≠ .eof) (hpos : 1 ≤ maxDepth)
    (hle : maxDepth ≤ deepestLimit) :
    (∀ e, ofTokens (tokens ++ [last]) maxDepth = .ok e → Derives 1 tokens e) ∧
      (∀ e, Derives 1 tokens e → ofTokens (tokens ++ [last]) maxDepth = .ok e ∨
        ∃ pos, ofTokens (tokens ++ [last]) maxDepth = reject (.tooDeep maxDepth) (some pos)) ∧
      ∀ e e', Derives 1 tokens e → Derives 1 tokens e' → e = e' := by
  refine ⟨fun e h => derives_of_ofTokens hlast htokens hpos hle h, fun e ⟨D⟩ => ?_,
    fun e e' h h' => h.unique h'⟩
  by_cases hneed : D.need ≤ maxDepth
  · exact Or.inl (ofTokens_of_need_le hlast hpos hle D hneed)
  · exact Or.inr (ofTokens_of_lt_need hlast hpos hle D (by omega))

/-- The tokens of `a - -b * c`, where the minus sign is read both ways. -/
def differenceTokens : List Token :=
  [⟨.ident, .text "a", 0⟩] ++ ⟨.operator, .text "-", 2⟩ ::
    (⟨.operator, .text "-", 4⟩ :: [⟨.ident, .text "b", 5⟩] ++
      ⟨.operator, .text "*", 7⟩ :: [⟨.ident, .text "c", 9⟩])

/-- The product of the negation is the right operand of the difference. -/
def differenceTree : Expr :=
  .binary .subtract (.ident "a") (.binary .multiply (.unary .negate (.ident "b")) (.ident "c"))

/-- The stream has its tree at two levels of nesting. -/
theorem differenceTokens_derives :
    (∀ t ∈ differenceTokens, t.WellTyped ∧ t.kind ≠ .eof) ∧ (1 : Int) ≤ 2 ∧
      (2 : Int) ≤ deepestLimit ∧
      ofTokens (differenceTokens ++ [⟨.eof, .text "", 10⟩]) 2 = .ok differenceTree ∧
      Derives 1 differenceTokens differenceTree := by
  have htokens : ∀ t ∈ differenceTokens, t.WellTyped ∧ t.kind ≠ .eof := by
    simp [differenceTokens, Token.WellTyped]
  have hlast : (⟨.eof, .text "", 10⟩ : Token).kind = .eof := rfl
  have hpos : (1 : Int) ≤ 2 := by decide
  have hle : (2 : Int) ≤ deepestLimit := by decide
  exact ⟨htokens, hpos, hle, rfl, (ofTokens_reads_grammar hlast htokens hpos hle).1 _ rfl⟩

/-- The depth limit counts the nesting of the derivation, which is one for each stream, neither
more nor less. Chains of one level do not nest in their left operands, whatever their length. -/
theorem ofTokens_depth_exact (hlast : last.kind = .eof) (hpos : 1 ≤ maxDepth)
    (hle : maxDepth ≤ deepestLimit) :
    (∀ tokens e (D : Derivation 1 tokens e),
      (D.need ≤ maxDepth → ofTokens (tokens ++ [last]) maxDepth = .ok e) ∧
      (maxDepth < D.need →
        ∃ pos, ofTokens (tokens ++ [last]) maxDepth = reject (.tooDeep maxDepth) (some pos)) ∧
      ∀ e' (D' : Derivation 1 tokens e'), D'.need = D.need) ∧
      ∀ k tokens e, FlatChain k tokens e → ofTokens (tokens ++ [last]) 1 = .ok e := by
  constructor
  · intro tokens e D
    exact ⟨ofTokens_of_need_le hlast hpos hle D, ofTokens_of_lt_need hlast hpos hle D,
      fun e' D' => Nat.le_antisymm (D.need_le D') (D'.need_le D)⟩
  · intro k tokens e h
    obtain ⟨D, hneed⟩ := h.exists_derivation_one
    exact ofTokens_of_need_le hlast (Int.le_refl 1) (by decide) D (by omega)

/-- The product nests once, as a right operand, and the negation in it once more. -/
def differenceDerivation : Derivation 1 differenceTokens differenceTree :=
  have product : Derivation 6 (⟨.operator, .text "-", 4⟩ :: [⟨.ident, .text "b", 5⟩] ++
      ⟨.operator, .text "*", 7⟩ :: [⟨.ident, .text "c", 9⟩])
      (.binary .multiply (.unary .negate (.ident "b")) (.ident "c")) :=
    .binary ⟨rfl, rfl⟩ rfl (.loosen (by decide) (by decide)
      (.unary ⟨rfl, rfl⟩ (.atom (.ident "b" 5)))) (.atom (.ident "c" 9))
  have difference : Derivation 5 differenceTokens differenceTree :=
    .binary ⟨rfl, rfl⟩ rfl (.loosen (by decide) (by decide) (.loosen (by decide) (by decide)
      (.atom (.ident "a" 0)))) product
  .loosen (by decide) (by decide) (.loosen (by decide) (by decide)
    (.loosen (by decide) (by decide) (.loosen (by decide) (by decide) difference)))

/-- A limit of one is too low for the stream, which needs two. -/
theorem differenceTokens_tooDeep :
    (1 : Int) ≤ 1 ∧ (1 : Int) ≤ deepestLimit ∧ (1 : Int) < differenceDerivation.need ∧
      ∃ pos, ofTokens (differenceTokens ++ [⟨.eof, .text "", 10⟩]) 1 =
        reject (.tooDeep 1) (some pos) := by
  have hlast : (⟨.eof, .text "", 10⟩ : Token).kind = .eof := rfl
  have hpos : (1 : Int) ≤ 1 := by decide
  have hle : (1 : Int) ≤ deepestLimit := by decide
  have hneed : (1 : Int) < differenceDerivation.need := by decide
  exact ⟨hpos, hle, hneed,
    ((ofTokens_depth_exact hlast hpos hle).1 _ _ differenceDerivation).2.1 hneed⟩

end Criterion.Expr
