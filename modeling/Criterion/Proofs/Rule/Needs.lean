import Criterion.Proofs.Expr.Names
import Criterion.Proofs.Expr.Source
import Criterion.Proofs.Rule.Evaluation
import Criterion.Proofs.Value.Supply

/-!
# What a rule needs to run

The variables of a rule are the names that stand in its source. A run of the rule succeeds exactly
if all of them are supplied, and otherwise misses the one that stands first. Whatever else is
supplied has no influence on a run.
-/

namespace Criterion

variable {name : String} {names : List String} {entries entries' : List (Datum × Datum)}
  {env env' : Environment}

/-! ## Supplied names -/

namespace Environment

/-- A variable has a value exactly if the dictionary supplies one. -/
theorem Holds.find?_ne_none_iff (h : env.Holds entries) (name : String) :
    env.find? name ≠ none ↔ Datum.Supplies entries name := by
  have hsome : (Datum.lookup? entries name).isSome = (env.find? name).isSome := by
    have hmap := congrArg Option.isSome (h name)
    rwa [Option.isSome_map, Option.isSome_map] at hmap
  rw [← isSome_lookup?_iff, hsome, Option.isSome_iff_ne_none]

/-- Dictionaries whose items under a name convert alike give a variable the same value. -/
theorem Holds.find?_eq (h : env.Holds entries) (h' : env'.Holds entries')
    (hname : (Datum.lookup? entries name).map (Value.ofDatum (.text name)) =
      (Datum.lookup? entries' name).map (Value.ofDatum (.text name))) :
    env.find? name = env'.find? name := by
  rw [h name, h' name] at hname
  exact Option.map_injective (fun _ _ => Except.ok.inj) hname

end Environment

namespace Rule

open Datum (Supplies)

variable {limits : Limits} {source : String} {rule : Rule} {tokens : List Token}

/-! ## What a rule is compiled from -/

/-- The tree of a rule has the names of the tokens of its source, in their order. -/
theorem names_of_compile (h : (compile limits source).outcome = .ok rule) :
    ∃ tokens, Token.ofSource source limits.maxLength = .ok tokens ∧
      tokens.filterMap Token.name? = rule.expr.names := by
  obtain ⟨hlength, pieces, hcut, hpieces, D, _⟩ :=
    Expr.pieces_of_ofSource (compile_eq_ok_iff.1 h).2
  have hend : (⟨.eof, .text "", source.length⟩ : Token).name? = none := rfl
  refine ⟨_, Token.ofSource_of_faultless hlength hcut hpieces, ?_⟩
  rw [List.filterMap_append, D.filterMap_name?, List.filterMap_cons_none hend, List.filterMap_nil,
    List.append_nil]

/-! ## Runs -/

/-- A run on an accepted dictionary is an evaluation in an environment that holds it. -/
theorem exists_run_eq_denote (rule : Rule) (h : Environment.Accepted entries) :
    ∃ env : Environment, env.Holds entries ∧
      rule.run (.dictionary entries) = rule.expr.denote env := by
  obtain ⟨env, henv, hholds⟩ := h.exists_environment
  refine ⟨env, hholds, ?_⟩
  rw [run, henv]
  exact Expr.run_start env rule.expr

/-- A run with all variables gives a value, and any other run misses the first variable that is
not supplied. -/
theorem run_succeeds_or_misses (rule : Rule) (h : Environment.Accepted entries) :
    ((∀ name ∈ rule.expr.names, Supplies entries name) ∧
        ∃ v, rule.run (.dictionary entries) = .ok v) ∨
      ∃ before name after, rule.expr.names = before ++ name :: after ∧
        (∀ s ∈ before, Supplies entries s) ∧ ¬ Supplies entries name ∧
        rule.run (.dictionary entries) = reject (.undefinedVariable name) none := by
  obtain ⟨env, hholds, hrun⟩ := rule.exists_run_eq_denote h
  rw [hrun]
  cases hfind : rule.expr.names.find? (fun s => (env.find? s).isNone) with
  | none =>
      have hall : ∀ name ∈ rule.expr.names, env.find? name ≠ none := by
        simpa using hfind
      exact .inl ⟨fun name hname => (hholds.find?_ne_none_iff name).1 (hall name hname),
        Expr.exists_denote_eq_ok hall⟩
  | some name =>
      obtain ⟨hmissing, before, after, hnames, hbefore⟩ := List.find?_eq_some_iff_append.1 hfind
      refine .inr ⟨before, name, after, hnames, ?_, ?_, Expr.denote_of_first_missing hfind⟩
      · intro s hs
        have hsome : (env.find? s).isSome := by simpa using hbefore s hs
        exact (hholds.find?_ne_none_iff s).1 (Option.isSome_iff_ne_none.1 hsome)
      · rw [← hholds.find?_ne_none_iff name, Option.isNone_iff_eq_none.1 hmissing]
        exact fun hne => hne rfl

/-- Dictionaries whose items convert alike under the names of a rule give it the same outcome. -/
theorem run_congr (rule : Rule) (h : Environment.Accepted entries)
    (h' : Environment.Accepted entries')
    (hnames : ∀ name ∈ rule.expr.names,
      (Datum.lookup? entries name).map (Value.ofDatum (.text name)) =
        (Datum.lookup? entries' name).map (Value.ofDatum (.text name))) :
    rule.run (.dictionary entries) = rule.run (.dictionary entries') := by
  obtain ⟨env, hholds, hrun⟩ := rule.exists_run_eq_denote h
  obtain ⟨env', hholds', hrun'⟩ := rule.exists_run_eq_denote h'
  rw [hrun, hrun']
  exact Expr.denote_congr fun name hname => hholds.find?_eq hholds' (hnames name hname)

/-- The variables of a rule are the names in its source, listed once each. A run on an accepted
dictionary succeeds exactly if all of them are supplied; it fails only for the first name in the
source that is not. Dictionaries that agree on the variables give the same outcome. -/
theorem run_needs_variables (h : (compile limits source).outcome = .ok rule) :
    ∃ tokens, Token.ofSource source limits.maxLength = .ok tokens ∧
      (∀ name, name ∈ rule.variableNames ↔ name ∈ tokens.filterMap Token.name?) ∧
      rule.variableNames.Pairwise (· < ·) ∧
      (∀ entries, Environment.Accepted entries →
        ((∃ v, rule.run (.dictionary entries) = .ok v) ↔
          ∀ name ∈ rule.variableNames, Supplies entries name) ∧
        ∀ failure, rule.run (.dictionary entries) = .error failure →
          ∃ before name after, tokens.filterMap Token.name? = before ++ name :: after ∧
            (∀ s ∈ before, Supplies entries s) ∧ ¬ Supplies entries name ∧
            failure = .rejected ⟨.undefinedVariable name, none⟩) ∧
      ∀ entries entries', Environment.Accepted entries → Environment.Accepted entries' →
        (∀ name ∈ rule.variableNames,
          (Datum.lookup? entries name).map (Value.ofDatum (.text name)) =
            (Datum.lookup? entries' name).map (Value.ofDatum (.text name))) →
        rule.run (.dictionary entries) = rule.run (.dictionary entries') := by
  obtain ⟨tokens, htokens, hnames⟩ := names_of_compile h
  have hmem : ∀ name, name ∈ rule.variableNames ↔ name ∈ rule.expr.names :=
    fun _ => Expr.mem_variableNames
  refine ⟨tokens, htokens, fun name => ?_, Expr.pairwise_variableNames rule.expr,
    fun entries haccepted => ?_, fun entries entries' haccepted haccepted' hagree => ?_⟩
  · rw [hmem, hnames]
  · rw [hnames]
    rcases rule.run_succeeds_or_misses haccepted with
      ⟨hall, v, hv⟩ | ⟨before, name, after, hsplit, hbefore, hmissing, hfails⟩
    · refine ⟨⟨fun _ name hname => hall name ((hmem name).1 hname), fun _ => ⟨v, hv⟩⟩, ?_⟩
      intro failure hfailure
      rw [hv] at hfailure
      contradiction
    · have hname : name ∈ rule.expr.names := by
        rw [hsplit]
        exact List.mem_append_right _ List.mem_cons_self
      rw [hfails]
      refine ⟨⟨fun ⟨v, hv⟩ => ?_, fun hall => ?_⟩, fun failure hfailure => ?_⟩
      · contradiction
      · exact absurd (hall name ((hmem name).2 hname)) hmissing
      · cases hfailure
        exact ⟨before, name, after, hsplit, hbefore, hmissing, rfl⟩
  · exact rule.run_congr haccepted haccepted' fun name hname =>
      hagree name ((hmem name).2 hname)

/-- The rule of `b && !a`, whose variables stand in another order than they are listed in. -/
def conjunction : Rule :=
  ⟨"b && !a", .binary .and (.ident "b") (.unary .not (.ident "a"))⟩

/-- The conjunction needs both of its variables and no more: without `a` it fails for it, and it
succeeds with both, whatever else is supplied. -/
theorem conjunction_needs_variables :
    (compile Limits.default "b && !a").outcome = .ok conjunction ∧
      (∀ name, name ∈ conjunction.variableNames ↔ name ∈ ["b", "a"]) ∧
      Environment.Accepted [(.text "b", .boolean true)] ∧
      Environment.Accepted
        [(.text "c", .boolean true), (.text "a", .boolean false), (.text "b", .boolean true)] ∧
      (¬ ∃ v, conjunction.run (.dictionary [(.text "b", .boolean true)]) = .ok v) ∧
      ∃ v, conjunction.run (.dictionary
        [(.text "c", .boolean true), (.text "a", .boolean false), (.text "b", .boolean true)]) =
          .ok v := by
  have hcompile : (compile Limits.default "b && !a").outcome = .ok conjunction := rfl
  have hone : Environment.Accepted [(.text "b", .boolean true)] := by
    simp [Environment.Accepted, Datum.IsSupported]
  have hmore : Environment.Accepted
      [(.text "c", .boolean true), (.text "a", .boolean false), (.text "b", .boolean true)] := by
    simp [Environment.Accepted, Datum.IsSupported]
  obtain ⟨tokens, htokens, hmem, _, hruns, _⟩ := run_needs_variables hcompile
  cases htokens
  have hnames : ∀ name, name ∈ conjunction.variableNames ↔ name ∈ ["b", "a"] := hmem
  refine ⟨hcompile, hnames, hone, hmore, ?_, (hruns _ hmore).1.2 ?_⟩
  · rw [(hruns _ hone).1]
    intro hall
    obtain ⟨raw, hraw⟩ := hall "a" ((hnames "a").2 (by simp))
    simp at hraw
  · intro name hname
    have hcases : name = "b" ∨ name = "a" := by simpa using (hnames name).1 hname
    rcases hcases with rfl | rfl
    · exact ⟨.boolean true, by simp⟩
    · exact ⟨.boolean false, by simp⟩

end Rule

/-- Accepted dictionaries that give the rule of a source the same outcome, if it has one, give the
source the same evaluation. -/
theorem evaluate_congr {limits : Limits} {source : String} (h : Environment.Accepted entries)
    (h' : Environment.Accepted entries')
    (hrun : ∀ rule, (Rule.compile limits source).outcome = .ok rule →
      rule.run (.dictionary entries) = rule.run (.dictionary entries')) :
    evaluate limits source (.dictionary entries) =
      evaluate limits source (.dictionary entries') := by
  cases hcompile : (Rule.compile limits source).outcome with
  | ok rule =>
    rw [evaluate_of_compile hcompile, evaluate_of_compile hcompile, hrun rule hcompile]
  | error failure =>
    obtain ⟨env, henv, _⟩ := h.exists_environment
    obtain ⟨env', henv', _⟩ := h'.exists_environment
    rw [evaluate_of_not_compiled hcompile, evaluate_of_not_compiled hcompile, henv, henv']

end Criterion
