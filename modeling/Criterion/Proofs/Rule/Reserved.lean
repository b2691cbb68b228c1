import Criterion.Proofs.Expr.Leaves
import Criterion.Proofs.Failure.Stage
import Criterion.Proofs.Rule.Evaluation
import Criterion.Proofs.Rule.Needs

/-!
# Reserved names have no effect

A source with a reserved word is rejected by the lexer wherever the word stands, before anything is
parsed. Hence no tree has a reserved name, no evaluation looks one up, and what a caller supplies
under such a name has no influence.
-/

namespace Criterion

open Token

/-- A piece is a word that is reserved. -/
def Token.Piece.IsReserved (piece : Token.Piece) : Prop :=
  piece.kind = .word ∧ String.ofList piece.text ∈ reservedNames

/-- The words that are refused as identifiers are the reserved ones. -/
theorem Token.isReserved_iff {piece : Token.Piece} :
    piece.IsReserved ↔ ∃ name, piece.fault? = some (.blockedIdentifier name) := by
  obtain ⟨kind, text⟩ := piece
  cases kind with
  | word =>
    simp only [Piece.IsReserved, Piece.fault?]
    by_cases hreserved : String.ofList text ∈ reservedNames <;> simp [hreserved]
  | number =>
    simp only [Piece.IsReserved, Piece.fault?]
    split <;> simp
  | _ => simp [Piece.IsReserved, Piece.fault?]

/-- A source that is rejected for a blocked identifier has a reserved word. -/
theorem Token.Offence.exists_reserved {pieces : List Token.Piece} {rest : List Char}
    {name : String} {pos : Option Int}
    (h : Offence pieces rest (.rejected ⟨.blockedIdentifier name, pos⟩)) :
    ∃ p ∈ pieces, p.IsReserved := by
  generalize hfailure : Failure.rejected ⟨.blockedIdentifier name, pos⟩ = failure at h
  cases h with
  | fault hpieces _ hfault =>
    injection hfailure with hrejection
    injection hrejection with hcause
    refine ⟨_, ?_, isReserved_iff.2 ⟨name, hcause ▸ hfault⟩⟩
    rw [hpieces]
    exact List.mem_append_right _ List.mem_cons_self
  | character _ _ =>
    injection hfailure with hrejection
    injection hrejection with hcause
    contradiction

variable {source : String} {entries entries' : List (Datum × Datum)} {pieces : List Token.Piece}
  {rest : List Char} {limits : Limits}

/-- A source whose segmentation has a reserved word, or does not reach the end, is rejected by the
lexer, whatever else is wrong with it. -/
theorem Expr.reportedAt_lexing_of_segmentation (hseg : Segmentation source.toList pieces rest)
    (h : rest ≠ [] ∨ ∃ p ∈ pieces, p.IsReserved) (maxLength maxDepth : Int) :
    ∃ failure, Expr.ofSource source maxLength maxDepth = .error failure ∧
      failure.ReportedAt (some .lexing) := by
  cases hlexed : Token.ofSource source maxLength with
  | error failure =>
    refine ⟨failure, ?_, Token.reportedAt_of_ofSource hlexed⟩
    rw [Expr.ofSource, hlexed]
    rfl
  | ok tokens =>
    obtain ⟨hrest, hfaultless, _⟩ :=
      (Token.ofSource_eq_ok_iff (length_le_of_ofSource hlexed) hseg).1 hlexed
    rcases h with hne | ⟨p, hp, hreserved⟩
    · exact absurd hrest hne
    · obtain ⟨name, hfault⟩ := isReserved_iff.1 hreserved
      rw [hfaultless p hp] at hfault
      contradiction

/-- No name of a rule is reserved. -/
theorem Rule.isName_of_compile {rule : Rule} (h : (compile limits source).outcome = .ok rule) :
    ∀ name ∈ rule.expr.names, IsName name :=
  (Expr.leaves_of_ofSource (compile_eq_ok_iff.1 h).2).2

/-- Dictionaries whose items convert alike under all names that are not reserved give a rule the
same outcome. -/
theorem Rule.run_congr_of_not_reserved {rule : Rule} (h : Environment.Accepted entries)
    (h' : Environment.Accepted entries')
    (hagree : ∀ name ∉ reservedNames, Datum.lookup? entries name = Datum.lookup? entries' name)
    (hrule : (compile limits source).outcome = .ok rule) :
    rule.run (.dictionary entries) = rule.run (.dictionary entries') := by
  refine rule.run_congr h h' fun name hname => ?_
  rw [hagree name (isName_of_compile hrule name hname).free]

/-- Dictionaries that agree under all names that are not reserved give every source the same
outcome. -/
theorem evaluate_congr_of_not_reserved (h : Environment.Accepted entries)
    (h' : Environment.Accepted entries')
    (hagree : ∀ name ∉ reservedNames, Datum.lookup? entries name = Datum.lookup? entries' name) :
    evaluate limits source (.dictionary entries) =
      evaluate limits source (.dictionary entries') :=
  evaluate_congr h h' fun _ hrule => Rule.run_congr_of_not_reserved h h' hagree hrule

/-- Reserved names reach neither trees nor environments. Every variable of a tree is a word that is
not reserved and no truth value; a source with a reserved word anywhere in its segmentation, or one
that cannot be cut to its end, is rejected in lexing; and a supported item that is put under a
reserved name into an accepted dictionary changes no outcome. -/
theorem reserved_names_inert (source : String) :
    (∀ maxLength maxDepth e, Expr.ofSource source maxLength maxDepth = .ok e →
      ∀ name ∈ e.names, IsName name) ∧
    (∀ pieces rest, Segmentation source.toList pieces rest →
      (rest ≠ [] ∨ ∃ p ∈ pieces, p.IsReserved) → ∀ maxLength maxDepth,
        ∃ failure, Expr.ofSource source maxLength maxDepth = .error failure ∧
          failure.ReportedAt (some .lexing)) ∧
    ∀ entries name raw, Environment.Accepted entries → name ∈ reservedNames → raw.IsSupported →
      ∀ limits,
        evaluate limits source (.dictionary (Datum.putEntry entries (.text name) raw)) =
          evaluate limits source (.dictionary entries) ∧
        ∀ rule, (Rule.compile limits source).outcome = .ok rule →
          rule.run (.dictionary (Datum.putEntry entries (.text name) raw)) =
            rule.run (.dictionary entries) := by
  refine ⟨fun maxLength maxDepth e h => (Expr.leaves_of_ofSource h).2,
    fun pieces rest hseg h => Expr.reportedAt_lexing_of_segmentation hseg h, ?_⟩
  intro entries name raw haccepted hreserved hraw limits
  have haccepted' := haccepted.putEntry name hraw
  have hagree : ∀ other ∉ reservedNames,
      Datum.lookup? (Datum.putEntry entries (.text name) raw) other =
        Datum.lookup? entries other := by
    intro other hother
    refine Datum.lookup?_putEntry_of_ne ?_ raw entries
    rintro rfl
    exact hother hreserved
  exact ⟨evaluate_congr_of_not_reserved haccepted' haccepted hagree,
    fun rule => Rule.run_congr_of_not_reserved haccepted' haccepted hagree⟩

/-- A reserved word behind a misplaced parenthesis is rejected in lexing, and a variable of that
name has no influence on the conjunction, whose own variables are no reserved words. -/
theorem self_inert :
    (∃ pieces rest, Segmentation "1 + ) self".toList pieces rest ∧ (∃ p ∈ pieces, p.IsReserved) ∧
      ∃ failure, Expr.ofSource "1 + ) self" 10 1 = .error failure ∧
        failure.ReportedAt (some .lexing)) ∧
    (Rule.compile Limits.default "b && !a").outcome = .ok Rule.conjunction ∧
    (∀ name ∈ Rule.conjunction.expr.names, IsName name) ∧
    Environment.Accepted [(.text "a", .boolean false), (.text "b", .boolean true)] ∧
    "self" ∈ reservedNames ∧ (Datum.integer 7).IsSupported ∧
    Rule.conjunction.run (.dictionary (Datum.putEntry
      [(.text "a", .boolean false), (.text "b", .boolean true)] (.text "self") (.integer 7))) =
    Rule.conjunction.run (.dictionary
      [(.text "a", .boolean false), (.text "b", .boolean true)]) := by
  have hlength : (("1 + ) self" : String).length : Int) ≤ 10 := by decide
  have hfails : Token.ofSource "1 + ) self" 10 = reject (.blockedIdentifier "self") (some 6) := rfl
  obtain ⟨pieces, rest, hseg⟩ := exists_segmentation "1 + ) self".toList
  have hreserved : ∃ p ∈ pieces, p.IsReserved :=
    ((Token.ofSource_eq_error_iff hlength hseg).1 hfails).exists_reserved
  have hcompile : (Rule.compile Limits.default "b && !a").outcome = .ok Rule.conjunction := rfl
  have hparse : Expr.ofSource "b && !a" Limits.default.maxLength Limits.default.maxDepth =
      .ok Rule.conjunction.expr := rfl
  have haccepted : Environment.Accepted
      [(.text "a", .boolean false), (.text "b", .boolean true)] := by
    simp [Environment.Accepted, Datum.IsSupported]
  have hself : "self" ∈ reservedNames := by decide
  have hseven : (Datum.integer 7).IsSupported := by
    change Binary64.ofInt? 7 ≠ none
    decide +kernel
  exact ⟨⟨pieces, rest, hseg, hreserved,
      (reserved_names_inert "1 + ) self").2.1 pieces rest hseg (.inr hreserved) 10 1⟩,
    hcompile, (reserved_names_inert "b && !a").1 _ _ _ hparse, haccepted, hself, hseven,
    ((reserved_names_inert "b && !a").2.2 _ _ _ haccepted hself hseven Limits.default).2 _ hcompile⟩

end Criterion
