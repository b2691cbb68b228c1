import Criterion.Proofs.CommandLine.Failing
import Criterion.Proofs.CommandLine.LastBinding

/-!
# Evaluation from the command line

The command for evaluation resolves limits and reads bindings, and then does what an evaluation of
the source does under these limits and with the last binding of each name. A limit that is misspelt
and a malformed binding, wherever it stands, are reported as a wrong call.
-/

namespace Criterion.CommandLine

open Environment (Accepted)
open Limits (IsDepth IsLength Spells depthVariable lengthVariable updated)

/-- Arguments that ask for a source to be evaluated under bindings and for the result as a text,
with limits from a file if one is named. -/
inductive AsksFor (config : Option String) (texts : List String) (source : String) :
    List String → Prop where
  | intro {args rest : List String} {verbose : Bool} {given : Given}
      (hargs : Invocation.ofArguments args = .command config verbose .eval rest)
      (hrest : takeOptions Command.eval.options true [] [] rest = some (given, [source]))
      (htexts : valuesOf given "--var" = texts) (hjson : isGiven given "--json" = false) :
      AsksFor config texts source args

/-- The option that names a file for limits, if there is one. -/
def configArguments : Option String → List String
  | some path => ["--config", path]
  | none => []

/-- The options that give bindings. -/
def bindingArguments (texts : List String) : List String :=
  texts.flatMap fun text => ["--var", text]

/-- The arguments that ask for a source to be evaluated under bindings. -/
def argumentsFor (config : Option String) (texts : List String) (source : String) : List String :=
  configArguments config ++ "eval" :: (bindingArguments texts ++ ["--", source])

/-- The limits of a file, if one is named, and else the default ones. -/
def BaseLimits (textOfFile : String → Option String) : Option String → Limits → Prop
  | none, base => base = .default
  | some path, base => Limits.ofFile (textOfFile path) = .ok base

/-- The environment has a text for a limit that spells no integer in its range. -/
def Misspelt (environ : String → Option String) : Prop :=
  (∃ text, environ lengthVariable = some text ∧ ¬Spells IsLength text) ∨
    ∃ text, environ depthVariable = some text ∧ ¬Spells IsDepth text

/-- How an evaluation is shown: its result is printed, and its rejection is reported on the
screen. -/
inductive ShownAs (screen : String → String) (source : String) (logged : Logged Value) :
    Outcome → Prop where
  | result {v : Value} (h : logged.outcome = .ok v) :
      ShownAs screen source logged (.finished 0 (v.text ++ "\n") "" logged.records)
  | rejection {e : Rejection} (h : logged.outcome = .error (.rejected e)) :
      ShownAs screen source logged (.finished 1 ""
        (screen ("Error: " ++ e.formatWithSource source) ++ "\n") logged.records)

variable {screen : String → String} {textOfFile environ : String → Option String}
  {config : Option String}
  {args args' texts texts' : List String} {source : String} {base limits : Limits}
  {entries : List (Datum × Datum)}

/-! ## The arguments -/

private theorem takeOptions_of_wanting {specs : List OptionSpec} {among : Bool} {given : Given}
    {others : List String} {arg name : String} (hne : arg ≠ "--")
    (hlooks : looksLikeOption arg.toList) (hread : readOption specs arg.toList = .wanting [] name)
    (value : String) (rest : List String) :
    takeOptions specs among given others (arg :: value :: rest) =
      takeOptions specs among (given ++ [(name, value)]) others rest := by
  rw [takeOptions, if_neg hne, if_pos hlooks, hread]
  dsimp only
  rw [List.append_nil]

private theorem takeOptions_bindings (given : Given) (texts : List String) (source : String) :
    takeOptions Command.eval.options true given [] (bindingArguments texts ++ ["--", source]) =
      some (given ++ texts.map fun text => ("--var", text), [source]) := by
  induction texts generalizing given with
  | nil =>
    rw [List.map_nil, List.append_nil]
    rfl
  | cons text texts ih =>
    have htake : takeOptions Command.eval.options true given []
        ("--var" :: text :: (bindingArguments texts ++ ["--", source])) =
          takeOptions Command.eval.options true (given ++ [("--var", text)]) []
            (bindingArguments texts ++ ["--", source]) :=
      takeOptions_of_wanting (by decide) (by decide) (by decide) text _
    change takeOptions _ _ _ _ ("--var" :: text :: (bindingArguments texts ++ ["--", source])) = _
    rw [htake, ih, List.map_cons, List.append_assoc, List.singleton_append]

/-- Every source may be asked for, under whatever bindings and with a file or without one. -/
theorem asksFor_argumentsFor (config : Option String) (texts : List String) (source : String) :
    AsksFor config texts source (argumentsFor config texts source) := by
  have hwords : Invocation.ofArguments (argumentsFor config texts source) =
      .command config false .eval (bindingArguments texts ++ ["--", source]) := by
    cases config <;> rfl
  refine .intro hwords (takeOptions_bindings [] texts source) ?_ ?_
  · simp [valuesOf, List.filter_map, Function.comp_def]
  · simp [isGiven]

/-! ## The limits -/

/-- Limits in force are the overridden ones of the file, if one is named, and else of the default
ones. -/
theorem limitsFor_eq (h : BaseLimits textOfFile config base) (environ : String → Option String) :
    limitsFor (config.map textOfFile) environ = base.override environ := by
  cases config with
  | none =>
    obtain rfl : base = .default := h
    rfl
  | some path => exact limitsFor_eq_override h environ

/-- A misspelt limit is reported as a wrong call. -/
theorem exists_usage_of_misspelt (h : AsksFor config texts source args)
    (hbase : BaseLimits textOfFile config base) (hmisspelt : Misspelt environ) :
    ∃ message, run textOfFile environ args screen = .usage message := by
  obtain ⟨hargs, _, _, _⟩ := h
  obtain ⟨problems, hinvalid⟩ := Limits.override_invalid_iff.2 hmisspelt
  exact exists_usage_of_isReported hargs ((limitsFor_eq hbase environ).trans hinvalid)
    (.invalid problems)

/-- Limits that are not misspelt override those of every file. -/
theorem exists_override_of_not_misspelt (base : Limits) (h : ¬Misspelt environ) :
    ∃ limits, base.override environ = .ok limits := by
  cases hlimits : base.override environ with
  | ok limits => exact ⟨limits, rfl⟩
  | error failure =>
    obtain ⟨problems, rfl⟩ := Limits.invalid_of_override hlimits
    exact absurd (Limits.override_invalid_iff.1 ⟨problems, hlimits⟩) h

/-! ## The evaluation -/

/-- Limits in hand, the source is evaluated. -/
theorem run_eq_runEval (h : AsksFor config texts source args)
    (hbase : BaseLimits textOfFile config base) (hlimits : base.override environ = .ok limits) :
    run textOfFile environ args screen = runEval screen limits source texts false := by
  obtain ⟨hargs, hrest, rfl, hjson⟩ := h
  rw [run_of_limitsFor hargs ((limitsFor_eq hbase environ).trans hlimits), Command.run, hrest]
  dsimp only
  rw [hjson]

/-- A malformed binding is reported as a wrong call, wherever it stands. -/
theorem exists_usage_of_malformed (limits : Limits) (source : String)
    (h : ∃ text ∈ texts, Malformed text) :
    ∃ message, runEval screen limits source texts false = .usage message := by
  rw [runEval]
  cases hread : texts.mapM Binding.parse with
  | error e => exact ⟨e.message, rfl⟩
  | ok bindings =>
    obtain ⟨text, hmem, hmalformed⟩ := h
    exact absurd hmalformed (exists_mapM_parse_iff.1 ⟨bindings, hread⟩ text hmem)

/-- Without a malformed binding, the command shows what an evaluation with any dictionary comes to
that collects the bindings. -/
theorem runEval_eq_conclude (limits : Limits) (source : String)
    (hfine : ∀ text ∈ texts, ¬Malformed text) (h : Collects texts entries) :
    runEval screen limits source texts false =
      conclude screen source (evaluate limits source (.dictionary entries)) fun v =>
        v.text ++ "\n" := by
  obtain ⟨bindings, hread⟩ := exists_mapM_parse_iff.2 hfine
  rw [runEval, hread]
  dsimp only
  rw [toDatum_eq_putBindings, (collects_putBindings hread).evaluate_eq h limits source]
  rfl

/-- An evaluation is shown. -/
theorem shownAs_conclude (limits : Limits) (source : String) (h : Accepted entries) :
    ShownAs screen source (evaluate limits source (.dictionary entries))
      (conclude screen source (evaluate limits source (.dictionary entries)) fun v =>
        v.text ++ "\n") := by
  rw [conclude]
  cases houtcome : (evaluate limits source (.dictionary entries)).outcome with
  | ok v => exact .result houtcome
  | error failure =>
    obtain ⟨e, rfl, _⟩ := exists_rejection_of_evaluate h.not_unreportable houtcome
    exact .rejection houtcome

theorem ShownAs.exitCode_ne {logged : Logged Value} {outcome : Outcome}
    (h : ShownAs screen source logged outcome) : outcome.exitCode ≠ 2 := by
  cases h <;> exact nofun

private theorem runEval_congr (limits : Limits) (source : String) (h : SameBindings texts texts') :
    (runEval screen limits source texts false).exitCode =
        (runEval screen limits source texts' false).exitCode ∧
      (runEval screen limits source texts false).printed =
        (runEval screen limits source texts' false).printed := by
  by_cases hmalformed : ∃ text ∈ texts, Malformed text
  · obtain ⟨message, husage⟩ := exists_usage_of_malformed limits source hmalformed
    obtain ⟨message', husage'⟩ :=
      exists_usage_of_malformed limits source (h.malformed.1 hmalformed)
    rw [husage, husage']
    exact ⟨rfl, rfl⟩
  · have hfine : ∀ text ∈ texts, ¬Malformed text := fun text hmem htext =>
      hmalformed ⟨text, hmem, htext⟩
    have hfine' : ∀ text ∈ texts', ¬Malformed text := fun text hmem htext =>
      hmalformed (h.malformed.2 ⟨text, hmem, htext⟩)
    obtain ⟨entries, hcollects⟩ := exists_collects hfine
    rw [runEval_eq_conclude limits source hfine hcollects,
      runEval_eq_conclude limits source hfine' (h.collects hcollects)]
    exact ⟨rfl, rfl⟩

/-! ## The program -/

/-- Without a misspelt limit and a malformed text, an evaluation under the resolved limits is
shown. -/
theorem exists_shownAs_run (h : AsksFor config texts source args)
    (hbase : BaseLimits textOfFile config base) (hspelt : ¬Misspelt environ)
    (hfine : ∀ text ∈ texts, ¬Malformed text) :
    ∃ limits : Limits,
      updated base.maxLength (environ lengthVariable) = some (limits.maxLength : Int) ∧
      updated base.maxDepth (environ depthVariable) = some (limits.maxDepth : Int) ∧
      ∀ entries, Collects texts entries →
        ShownAs screen source (evaluate limits source (.dictionary entries))
          (run textOfFile environ args screen) := by
  obtain ⟨limits, hlimits⟩ := exists_override_of_not_misspelt base hspelt
  obtain ⟨hlength, hdepth⟩ := Limits.override_eq_ok_iff.1 hlimits
  refine ⟨limits, hlength, hdepth, fun entries hcollects => ?_⟩
  rw [run_eq_runEval h hbase hlimits, runEval_eq_conclude limits source hfine hcollects]
  exact shownAs_conclude limits source hcollects.accepted

/-- A call is wrong exactly if a limit is misspelt or a text is malformed. -/
theorem exitCode_run_eq_two_iff (h : AsksFor config texts source args)
    (hbase : BaseLimits textOfFile config base) :
    (run textOfFile environ args screen).exitCode = 2 ↔
      Misspelt environ ∨ ∃ text ∈ texts, Malformed text := by
  by_cases hmisspelt : Misspelt environ
  · obtain ⟨message, husage⟩ := exists_usage_of_misspelt h hbase hmisspelt
    rw [husage]
    exact iff_of_true rfl (.inl hmisspelt)
  by_cases hmalformed : ∃ text ∈ texts, Malformed text
  · obtain ⟨limits, hlimits⟩ := exists_override_of_not_misspelt base hmisspelt
    obtain ⟨message, husage⟩ := exists_usage_of_malformed limits source hmalformed
    rw [run_eq_runEval h hbase hlimits, husage]
    exact iff_of_true rfl (.inr hmalformed)
  · have hfine : ∀ text ∈ texts, ¬Malformed text := by
      simpa only [not_exists, not_and] using hmalformed
    obtain ⟨entries, hcollects⟩ := exists_collects hfine
    obtain ⟨limits, _, _, hshown⟩ := exists_shownAs_run h hbase hmisspelt hfine
    exact iff_of_false (hshown entries hcollects).exitCode_ne (not_or_intro hmisspelt hmalformed)

/-- Runs under bindings that are the same in the end have the same exit code and print the same. -/
theorem run_eval_congr (h : AsksFor config texts source args)
    (h' : AsksFor config texts' source args') (hbase : BaseLimits textOfFile config base)
    (hsame : SameBindings texts texts') :
    (run textOfFile environ args screen).exitCode =
        (run textOfFile environ args' screen).exitCode ∧
      (run textOfFile environ args screen).printed =
        (run textOfFile environ args' screen).printed := by
  by_cases hmisspelt : Misspelt environ
  · obtain ⟨message, husage⟩ := exists_usage_of_misspelt h hbase hmisspelt
    obtain ⟨message', husage'⟩ := exists_usage_of_misspelt h' hbase hmisspelt
    rw [husage, husage']
    exact ⟨rfl, rfl⟩
  · obtain ⟨limits, hlimits⟩ := exists_override_of_not_misspelt base hmisspelt
    rw [run_eq_runEval h hbase hlimits, run_eq_runEval h' hbase hlimits]
    exact runEval_congr limits source hsame

/-- The command for evaluation shows what an evaluation comes to. It can be asked for every source
under whatever bindings, and ends with the exit code of a wrong call exactly if a limit is misspelt
in the environment or one of the texts is malformed. Otherwise the limits are those of the
environment in place of those of the file or the default ones, and the evaluation is one under these
limits with any dictionary that gives each name its last binding; there is such a dictionary.
Neither the order of bindings of different names nor a binding that a later one replaces has an
effect on the exit code or on what is printed. -/
theorem eval_shows_evaluation (screen : String → String) (source : String)
    (environ : String → Option String) (hbase : BaseLimits textOfFile config base) :
    (∀ texts, AsksFor config texts source (argumentsFor config texts source)) ∧
    (∀ texts args, AsksFor config texts source args →
      ((run textOfFile environ args screen).exitCode = 2 ↔
        Misspelt environ ∨ ∃ text ∈ texts, Malformed text) ∧
      (¬Misspelt environ → (∀ text ∈ texts, ¬Malformed text) →
        (∃ entries, Collects texts entries) ∧
        ∃ limits : Limits,
          updated base.maxLength (environ lengthVariable) = some (limits.maxLength : Int) ∧
          updated base.maxDepth (environ depthVariable) = some (limits.maxDepth : Int) ∧
          ∀ entries, Collects texts entries →
            ShownAs screen source (evaluate limits source (.dictionary entries))
              (run textOfFile environ args screen))) ∧
    ∀ texts texts' args args', AsksFor config texts source args →
      AsksFor config texts' source args' → Reordered texts texts' ∨ Replaced texts texts' →
        (run textOfFile environ args screen).exitCode =
            (run textOfFile environ args' screen).exitCode ∧
          (run textOfFile environ args screen).printed =
            (run textOfFile environ args' screen).printed := by
  refine ⟨fun texts => asksFor_argumentsFor config texts source, fun texts args hasks =>
    ⟨exitCode_run_eq_two_iff hasks hbase, fun hspelt hfine => ?_⟩, ?_⟩
  · exact ⟨exists_collects hfine, exists_shownAs_run hasks hbase hspelt hfine⟩
  · rintro texts texts' args args' hasks hasks' (hreordered | hreplaced)
    · exact run_eval_congr hasks hasks' hbase hreordered.sameBindings
    · exact run_eval_congr hasks hasks' hbase hreplaced.sameBindings

/-- An environment with a text for the length. -/
def lengthOnly (text : String) : String → Option String :=
  fun name => if name = lengthVariable then some text else none

/-- The length is the number of characters of the source, the depth comes from a file, and a name
that is bound twice has its later value. It makes no difference to leave the earlier binding out. -/
theorem boundTwice_shown :
    BaseLimits (fun _ => some "[safecond]\nmax_depth = 3\n") (some "limits.toml")
      ⟨Limits.defaultLength, 3, by decide, by decide, by decide⟩ ∧
    Replaced ["a=true", " b = true", "a=false"] [" b = true", "a=false"] ∧
    run (fun _ => some "[safecond]\nmax_depth = 3\n") (lengthOnly "7")
      (argumentsFor (some "limits.toml") ["a=true", " b = true", "a=false"] "b && !a") =
        .finished 0 "true\n" "" [] ∧
    (run (fun _ => some "[safecond]\nmax_depth = 3\n") (lengthOnly "7")
      (argumentsFor (some "limits.toml") [" b = true", "a=false"] "b && !a")).printed =
        "true\n" := by
  have hbase : BaseLimits (fun _ => some "[safecond]\nmax_depth = 3\n") (some "limits.toml")
      ⟨Limits.defaultLength, 3, by decide, by decide, by decide⟩ := by
    change Limits.ofFile (some "[safecond]\nmax_depth = 3\n") = _
    cbv
  have hlimits : Limits.override ⟨Limits.defaultLength, 3, by decide, by decide, by decide⟩
      (lengthOnly "7") = .ok ⟨7, 3, by decide, by decide, by decide⟩ := rfl
  have hread : ["a=true", " b = true", "a=false"].mapM Binding.parse =
      .ok [⟨"a", .boolean true⟩, ⟨"b", .boolean true⟩, ⟨"a", .boolean false⟩] := by
    decide +kernel
  have hcompile : (Rule.compile ⟨7, 3, by decide, by decide, by decide⟩ "b && !a").outcome =
      .ok Rule.conjunction := rfl
  have hevaluate : Rule.conjunction.run
      (.dictionary [(.text "a", .boolean false), (.text "b", .boolean true)]) =
        .ok (.boolean true) :=
    Expr.run_start ⟨[("a", .boolean false), ("b", .boolean true)]⟩ Rule.conjunction.expr
  have hshown : runEval onScreen ⟨7, 3, by decide, by decide, by decide⟩ "b && !a"
      ["a=true", " b = true", "a=false"] false = .finished 0 "true\n" "" [] := by
    rw [runEval, hread]
    dsimp only
    rw [evaluate_of_compile hcompile]
    change conclude _ _ (.of (Rule.conjunction.run
      (.dictionary [(.text "a", .boolean false), (.text "b", .boolean true)]))) _ = _
    rw [hevaluate]
    rfl
  have hname : BindsName "a=true" "a" := by decide +kernel
  have hlater : BindsName "a=false" "a" := by decide +kernel
  have hreplaced : Replaced ["a=true", " b = true", "a=false"] [" b = true", "a=false"] :=
    @Replaced.intro [] _ "a=true" "a" hname ⟨"a=false", by decide, hlater⟩
  obtain ⟨hasks, _, hchange⟩ := eval_shows_evaluation onScreen "b && !a" (lengthOnly "7") hbase
  have hsame := hchange _ _ _ _ (hasks _) (hasks _) (.inr hreplaced)
  have hrun := (run_eq_runEval (hasks _) hbase hlimits).trans hshown
  rw [hrun] at hsame
  exact ⟨hbase, hreplaced, hrun, hsame.2.symm⟩

end Criterion.CommandLine
