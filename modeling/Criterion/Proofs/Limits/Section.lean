import Criterion.Proofs.CommandLine.Failing
import Criterion.Proofs.Document.Root

/-!
# The section for limits

The section of a document stands at its top, or else in the table of tools, or nowhere. Where it is
a table, or absent, a limits file gives limits or is reported: as no document, or by validation. A
section of another type is not validated, and neither is what stands in place of the table of tools;
what comes of them may escape.
-/

namespace Criterion.Limits

open CommandLine (Command Invocation limitsFor run)

/-- Where a document has its section, as a table: at the top, or else in the table of tools, or
nowhere. -/
inductive Located (entries : List (Datum × Datum)) : Option (List (Datum × Datum)) → Prop where
  | top {settings : List (Datum × Datum)}
      (h : Datum.lookup? entries sectionName = some (.dictionary settings)) :
      Located entries (some settings)
  | tool {tools settings : List (Datum × Datum)} (htop : Datum.lookup? entries sectionName = none)
      (htool : Datum.lookup? entries toolName = some (.dictionary tools))
      (h : Datum.lookup? tools sectionName = some (.dictionary settings)) :
      Located entries (some settings)
  | nowhere (htop : Datum.lookup? entries sectionName = none)
      (h : ∀ d, Datum.lookup? entries toolName = some d →
        ∃ tools, d = .dictionary tools ∧ Datum.lookup? tools sectionName = none) :
      Located entries none

/-- Something else than a table stands in the place of the section, or of the table of tools in
which it is sought next. -/
inductive Displaced (entries : List (Datum × Datum)) : Prop where
  | top {d : Datum} (h : Datum.lookup? entries sectionName = some d)
      (hd : ∀ settings, d ≠ .dictionary settings) : Displaced entries
  | tools {d : Datum} (htop : Datum.lookup? entries sectionName = none)
      (h : Datum.lookup? entries toolName = some d) (hd : ∀ tools, d ≠ .dictionary tools) :
      Displaced entries
  | tool {tools : List (Datum × Datum)} {d : Datum}
      (htop : Datum.lookup? entries sectionName = none)
      (htool : Datum.lookup? entries toolName = some (.dictionary tools))
      (h : Datum.lookup? tools sectionName = some d) (hd : ∀ settings, d ≠ .dictionary settings) :
      Displaced entries

/-- The limits that a section gives; where there is none they are the default ones. -/
def GivenBy : (found : Option (List (Datum × Datum))) → Limits → Prop
  | some settings, limits => Gives settings limits
  | none, limits => limits = .default

/-- A text is no document, or one whose section is a table where there is one. -/
inductive Tabular (text : String) : Prop where
  | malformed (h : Document.ofText text = .error .malformed)
  | located {document : Document} {entries : List (Datum × Datum)}
      {found : Option (List (Datum × Datum))} (h : Document.ofText text = .ok document)
      (hentries : document.toDatum = .dictionary entries) (hfound : Located entries found)

/-- The limits that a text gives by the section of its document. -/
inductive GivenIn (text : String) (limits : Limits) : Prop where
  | intro {document : Document} {entries : List (Datum × Datum)}
      {found : Option (List (Datum × Datum))} (h : Document.ofText text = .ok document)
      (hentries : document.toDatum = .dictionary entries) (hfound : Located entries found)
      (hgiven : GivenBy found limits)

variable {limits : Limits} {text : String} {document : Document} {failure : Failure}
  {entries : List (Datum × Datum)} {found : Option (List (Datum × Datum))}

/-! ## The section -/

/-- A section that is a table, or absent, is found. -/
theorem Located.findSection_eq (h : Located entries found) :
    findSection entries = .ok (.dictionary (found.getD [])) := by
  cases h with
  | top h =>
    rw [findSection, h]
    rfl
  | tool htop htool h =>
    rw [findSection, htop, htool]
    simp only [sectionOf, h, dictionaryOf, Option.getD_some]
  | nowhere htop h =>
    rw [findSection, htop]
    cases htool : Datum.lookup? entries toolName with
    | none => rfl
    | some d =>
      obtain ⟨tools, rfl, hnone⟩ := h d htool
      simp only [sectionOf, hnone, Option.getD_none]

/-- The section is located unless something else stands in its place. -/
theorem exists_located_or_displaced (entries : List (Datum × Datum)) :
    (∃ found, Located entries found) ∨ Displaced entries := by
  -- What the table of tools has is looked at only if the section does not stand at the top.
  cases htop : Datum.lookup? entries sectionName with
  | some d =>
    by_cases hd : ∃ settings, d = .dictionary settings
    · obtain ⟨settings, rfl⟩ := hd
      exact .inl ⟨some settings, .top htop⟩
    · exact .inr (.top htop (not_exists.1 hd))
  | none =>
    cases htool : Datum.lookup? entries toolName with
    | none =>
      refine .inl ⟨none, .nowhere htop fun d hd => ?_⟩
      rw [htool] at hd
      contradiction
    | some d =>
      by_cases hd : ∃ tools, d = .dictionary tools
      · obtain ⟨tools, rfl⟩ := hd
        cases h : Datum.lookup? tools sectionName with
        | none =>
          refine .inl ⟨none, .nowhere htop fun d hd => ?_⟩
          rw [htool] at hd
          cases hd
          exact ⟨tools, rfl, h⟩
        | some d =>
          by_cases hd : ∃ settings, d = .dictionary settings
          · obtain ⟨settings, rfl⟩ := hd
            exact .inl ⟨some settings, .tool htop htool h⟩
          · exact .inr (.tool htop htool h (not_exists.1 hd))
      · exact .inr (.tools htop htool (not_exists.1 hd))

/-- Settings that set nothing give the default limits. -/
theorem gives_nil_iff : Gives [] limits ↔ limits = .default := by
  constructor
  · rintro ⟨hlength, hdepth, _⟩
    obtain ⟨maxLength, maxDepth, _, _, _⟩ := limits
    obtain rfl : maxLength = defaultLength := hlength
    obtain rfl : maxDepth = defaultDepth := hdepth
    rfl
  · rintro rfl
    exact ⟨rfl, rfl, nofun⟩

/-- A section gives the limits of its entries, of which an absent one has none. -/
theorem givenBy_iff : GivenBy found limits ↔ Gives (found.getD []) limits := by
  cases found with
  | none => exact gives_nil_iff.symm
  | some settings => exact Iff.rfl

/-- The limits of a document are those that its section gives. -/
theorem Located.ofDocument_eq (h : Located entries found)
    (hentries : document.toDatum = .dictionary entries) :
    ofDocument document = ofSettings (.dictionary (found.getD [])) := by
  have hempty : ofSettings (.dictionary []) = .ok default :=
    ofSettings_eq_ok_iff.2 (gives_nil_iff.2 rfl)
  rw [ofDocument, hentries]
  simp only [h.findSection_eq, bind, Except.bind]
  cases hfound : found.getD [] with
  | nil => exact hempty.symm
  | cons entry settings => rfl

/-! ## The file -/

theorem ofFile_eq_ofDocument (h : Document.ofText text = .ok document) :
    ofFile (some text) = ofDocument document := by
  simp only [ofFile, h]

/-- A file is reported as malformed exactly if it is no document. -/
theorem ofFile_malformed_iff :
    ofFile (some text) = .error .malformedDocument ↔ Document.ofText text = .error .malformed := by
  cases hread : Document.ofText text with
  | ok document =>
    rw [ofFile_eq_ofDocument hread]
    refine iff_of_false (fun h => ?_) nofun
    obtain ⟨m, hm, _⟩ | ⟨problems, hproblems⟩ := form_or_invalid_of_ofDocument h
    · contradiction
    · contradiction
  | error fault => cases fault <;> simp [ofFile, hread]

/-- Only an integer that is too long, or something else than a table in the place of the section,
keeps a text from being tabular. -/
theorem tabular_or_displaced (text : String) :
    Tabular text ∨ (∃ digits, Document.ofText text = .error (.integerTooLong digits)) ∨
      ∃ document entries, Document.ofText text = .ok document ∧
        document.toDatum = .dictionary entries ∧ Displaced entries := by
  cases hread : Document.ofText text with
  | error fault =>
    cases fault with
    | malformed => exact .inl (.malformed hread)
    | integerTooLong digits => exact .inr (.inl ⟨digits, rfl⟩)
  | ok document =>
    obtain ⟨entries, hentries⟩ := Document.exists_entries_of_ofText hread
    obtain ⟨found, hfound⟩ | hdisplaced := exists_located_or_displaced entries
    · exact .inl (.located hread hentries hfound)
    · exact .inr (.inr ⟨document, entries, rfl, hentries, hdisplaced⟩)

/-- The limits that a section gives are those of the file. -/
theorem GivenIn.ofFile_eq (h : GivenIn text limits) : ofFile (some text) = .ok limits := by
  obtain ⟨hread, hentries, hfound, hgiven⟩ := h
  rw [ofFile_eq_ofDocument hread, hfound.ofDocument_eq hentries]
  exact ofSettings_eq_ok_iff.2 (givenBy_iff.1 hgiven)

/-- Where the section is a table or absent, a file gives the limits of its section only. -/
theorem Tabular.givenIn (h : Tabular text) (hfile : ofFile (some text) = .ok limits) :
    GivenIn text limits := by
  cases h with
  | malformed h =>
    rw [ofFile_malformed_iff.2 h] at hfile
    contradiction
  | located hread hentries hfound =>
    rw [ofFile_eq_ofDocument hread, hfound.ofDocument_eq hentries] at hfile
    exact ⟨hread, hentries, hfound, givenBy_iff.2 (ofSettings_eq_ok_iff.1 hfile)⟩

/-- Where the section is a table or absent, a file without limits is reported. -/
theorem Tabular.isReported (h : Tabular text) (hfile : ofFile (some text) = .error failure) :
    failure.IsReported := by
  cases h with
  | malformed h =>
    rw [ofFile_malformed_iff.2 h] at hfile
    cases hfile
    exact .malformed
  | located hread hentries hfound =>
    rw [ofFile_eq_ofDocument hread, hfound.ofDocument_eq hentries] at hfile
    obtain ⟨problems, rfl⟩ := invalid_of_ofSettings hfile
    exact .invalid problems

/-- Where the section is a table or absent, limits that a run cannot have are reported. -/
theorem Tabular.isReported_of_limitsFor {environ : String → Option String} (h : Tabular text)
    (hlimits : limitsFor (some (some text)) environ = .error failure) : failure.IsReported := by
  cases hfile : ofFile (some text) with
  | ok base =>
    rw [CommandLine.limitsFor_eq_override hfile] at hlimits
    obtain ⟨problems, rfl⟩ := invalid_of_override hlimits
    exact .invalid problems
  | error failure' =>
    rw [CommandLine.limitsFor_eq_error hfile] at hlimits
    cases hlimits
    exact h.isReported hfile

/-- What a file fails with and is not reported concerns the form of its section, or an integer that
is too long to be read. -/
theorem exists_misuse_of_not_isReported {file : Option String}
    (hfile : ofFile file = .error failure) (hescapes : ¬failure.IsReported) :
    ∃ m, failure = .misuse m ∧ (m.ConcernsSection ∨ ∃ digits, m = .longInteger (some digits)) := by
  cases concernsFile_of_ofFile hfile with
  | malformed => exact absurd .malformed hescapes
  | longInteger digits => exact ⟨_, rfl, .inr ⟨digits, rfl⟩⟩
  | form hm => exact ⟨_, rfl, .inl hm⟩
  | invalid problems => exact absurd (.invalid problems) hescapes

/-- Where the section is a table or absent, a file gives limits in range, and exactly those of its
section, or is reported as no document or by validation; the program with such a file runs the
command or ends with the exit code of a wrong call, and nothing escapes. That is every file but one
with an integer that is too long, or with something else than a table in the place of the section or
of the tools. A file is reported as no document exactly if it is none. Whatever else a file fails
with concerns the form of its section or an integer that is too long, and escapes every command. -/
theorem file_reported (text : String) :
    (Tabular text →
      ((∃ limits, ofFile (some text) = .ok limits ∧ IsLength limits.maxLength ∧
          IsDepth limits.maxDepth) ∨
        ∃ failure, ofFile (some text) = .error failure ∧ failure.IsReported) ∧
      (∀ limits, ofFile (some text) = .ok limits ↔ GivenIn text limits) ∧
      ∀ textOfFile environ args screen path verbose cmd rest,
        Invocation.ofArguments args = .command (some path) verbose cmd rest →
          textOfFile path = some text →
            ((∃ limits, limitsFor (some (some text)) environ = .ok limits ∧
                run textOfFile environ args screen = cmd.run screen limits rest) ∨
              (run textOfFile environ args screen).exitCode = 2) ∧
            ∀ failure, run textOfFile environ args screen ≠ .failed failure) ∧
    (Tabular text ∨ (∃ digits, Document.ofText text = .error (.integerTooLong digits)) ∨
      ∃ document entries, Document.ofText text = .ok document ∧
        document.toDatum = .dictionary entries ∧ Displaced entries) ∧
    (ofFile (some text) = .error .malformedDocument ↔ Document.ofText text = .error .malformed) ∧
    ∀ failure, ofFile (some text) = .error failure → ¬failure.IsReported →
      (∃ m, failure = .misuse m ∧ (m.ConcernsSection ∨ ∃ digits, m = .longInteger (some digits))) ∧
      ∀ textOfFile environ args screen path verbose cmd rest,
        Invocation.ofArguments args = .command (some path) verbose cmd rest →
          textOfFile path = some text → run textOfFile environ args screen = .failed failure := by
  refine ⟨fun htabular => ⟨?_, fun limits => ⟨htabular.givenIn, GivenIn.ofFile_eq⟩, ?_⟩,
    tabular_or_displaced text, ofFile_malformed_iff, ?_⟩
  · cases hfile : ofFile (some text) with
    | ok limits =>
      exact .inl ⟨limits, rfl, Int.ofNat_le.2 limits.one_le_maxLength, limits.maxDepth_inRange⟩
    | error failure => exact .inr ⟨failure, rfl, htabular.isReported hfile⟩
  · intro textOfFile environ args screen path verbose cmd rest hargs htext
    have hconfig : (some path).map textOfFile = some (some text) := congrArg some htext
    cases hlimits : limitsFor (some (some text)) environ with
    | ok limits =>
      have hrun : run textOfFile environ args screen = cmd.run screen limits rest :=
        CommandLine.run_of_limitsFor hargs (hconfig.symm ▸ hlimits)
      refine ⟨.inl ⟨limits, rfl, hrun⟩, fun failure => ?_⟩
      rw [hrun]
      exact cmd.run_ne_failed limits rest failure
    | error failure =>
      have hreported := htabular.isReported_of_limitsFor hlimits
      obtain ⟨message, husage⟩ :=
        CommandLine.exists_usage_of_isReported hargs (hconfig.symm ▸ hlimits) hreported
      rw [husage]
      exact ⟨.inr rfl, fun failure' => nofun⟩
  · intro failure hfile hescapes
    refine ⟨exists_misuse_of_not_isReported hfile hescapes, ?_⟩
    intro textOfFile environ args screen path verbose cmd rest hargs htext
    have hconfig : (some path).map textOfFile = some (some text) := congrArg some htext
    have hlimits := CommandLine.limitsFor_eq_error hfile environ
    exact CommandLine.run_eq_failed hargs (hconfig.symm ▸ hlimits) hescapes

/-- A limit within the table of tools is given, and the program with the file shows its result. -/
theorem depthForTool_reported :
    Tabular "[tool.safecond]\nmax_depth = 3\n" ∧
      (∃ limits : Limits, limits.maxDepth = 3 ∧
        GivenIn "[tool.safecond]\nmax_depth = 3\n" limits) ∧
      ∀ failure, run (fun _ => some "[tool.safecond]\nmax_depth = 3\n") (fun _ => none)
        ["--config", "limits.toml", "eval", "1"] ≠ .failed failure := by
  have hread : Document.ofText "[tool.safecond]\nmax_depth = 3\n" = .ok (.table .declared
      [("tool", .table .passed [("safecond", .table .declared
        [("max_depth", .leaf (.integer 3))])])]) := by
    cbv
  have hfile : ofFile (some "[tool.safecond]\nmax_depth = 3\n") =
      .ok ⟨defaultLength, 3, by decide, by decide, by decide⟩ := by
    cbv
  have hargs : Invocation.ofArguments ["--config", "limits.toml", "eval", "1"] =
      .command (some "limits.toml") false .eval ["1"] := by
    cbv
  have htabular : Tabular "[tool.safecond]\nmax_depth = 3\n" :=
    .located hread rfl (.tool rfl rfl rfl)
  obtain ⟨hreported, _, _, _⟩ := file_reported "[tool.safecond]\nmax_depth = 3\n"
  obtain ⟨_, hgiven, hrun⟩ := hreported htabular
  exact ⟨htabular, ⟨_, rfl, (hgiven _).1 hfile⟩, (hrun _ _ _ _ _ _ _ _ hargs rfl).2⟩

/-- A section that is a number escapes from the reader of the file and from the program. -/
theorem numberForSection_escapes :
    ofFile (some "safecond = 5\n") = .error (.misuse (.notIterable "int")) ∧
      ¬((∃ limits, ofFile (some "safecond = 5\n") = .ok limits) ∨
        ∃ failure, ofFile (some "safecond = 5\n") = .error failure ∧ failure.IsReported) ∧
      run (fun _ => some "safecond = 5\n") (fun _ => none)
        ["--config", "limits.toml", "eval", "1"] = .failed (.misuse (.notIterable "int")) := by
  have hfile : ofFile (some "safecond = 5\n") = .error (.misuse (.notIterable "int")) := by cbv
  refine ⟨hfile, ?_, by cbv⟩
  rintro (⟨limits, hlimits⟩ | ⟨failure, hfailure, hreported⟩)
  · rw [hfile] at hlimits
    cases hlimits
  · rw [hfile] at hfailure
    cases hfailure
    cases hreported

end Criterion.Limits
