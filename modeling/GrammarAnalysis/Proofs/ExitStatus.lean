import GrammarAnalysis.Proofs.RequestedTasks
import GrammarAnalysis.Proofs.Viability
import GrammarAnalysis.Proofs.WalkedFiles

/-!
# How a run ends

A run ends with code zero or one. It ends with zero when its arguments are
written as options are and either ask for the usage text, or for an analysis
that succeeds on every file: the mode is one of the three, there is one path,
an input has an LL(1) analysis to parse it, the search for files does not fail,
and every file found is a grammar whose parser accepts the input, if there is
one (`code_runWith_eq_zero_iff`). What an analysis finds out about a grammar is
no failure: without an input it is enough that the file is a grammar.

Files do not influence one another. The standard output is put together
from one text for every file (`Workspace.textOf`), which depends on that
file alone and on whether there are others, and the summary counts the
files that have no report.

What arguments ask for is said of the options that are written there
(`Arguments.AsksFor`), and what is found of what a walk visits (`Finds`). So all
this is true with every library that reads options as they are documented, and
on every walk.
-/

namespace GrammarAnalysis

/-! ## One file -/

/-- An error of the first part ends the second one before it begins. -/
theorem ReportPart.error?_andThen (first second : ReportPart) :
    (first.andThen second).error? = first.error?.or second.error? := by
  unfold andThen
  cases h : first.error? with
  | none => rfl
  | some e => exact h

/-- **The LL(1) analysis fails only on an input**: if the grammar is not
LL(1), or if its parser does not accept. -/
theorem ReportPart.error?_lookahead_eq_none_iff (g : Grammar) (input : Option (List String)) :
    (lookahead g input).error? = none ↔ ∀ symbols, input = some symbols →
      ∃ p steps, PredictiveParser.ofAnalysis (LookaheadAnalysis.ofGrammar g) = .ok p
        ∧ p.parse symbols = .ok steps := by
  simp only [lookahead]
  generalize PredictiveParser.ofAnalysis (LookaheadAnalysis.ofGrammar g) = parser
  cases input with
  | none => cases parser <;> simp
  | some symbols =>
    cases parser with
    | error e => simp
    | ok p => cases h : (p.run symbols).error? <;> simp [PredictiveParser.parse, ParseRun.result, h]

/-- **What a report on a grammar can fail for.** A mode without the LL(1)
analysis comes with no input. -/
theorem ReportPart.error?_all_eq_none_iff (g : Grammar) {config : Config}
    (hvalid : config.isValid = true) : (all g config).error? = none ↔
      ∀ symbols, config.input = some symbols → (LookaheadAnalysis.ofGrammar g).isLL1 = true
        ∧ ∃ p steps, PredictiveParser.ofAnalysis (LookaheadAnalysis.ofGrammar g) = .ok p
          ∧ p.parse symbols = .ok steps := by
  have hprecedence : (if config.mode.includesPrecedence then precedence g else empty).error?
      = none := by
    split <;> rfl
  have hll : ∀ symbols, (∃ p steps, PredictiveParser.ofAnalysis (LookaheadAnalysis.ofGrammar g)
      = .ok p ∧ p.parse symbols = .ok steps) → (LookaheadAnalysis.ofGrammar g).isLL1 = true := by
    rintro symbols ⟨p, steps, hp, -⟩
    exact (PredictiveParser.exists_ofAnalysis_iff _).mp ⟨p, hp⟩
  rw [all, error?_andThen, error?_andThen, hprecedence, Option.or_none]
  show (none.or _) = none ↔ _
  rw [Option.none_or]
  split
  · rw [error?_lookahead_eq_none_iff]
    exact forall₂_congr fun symbols _ => (and_iff_right_of_imp (hll symbols)).symm
  · next hmode =>
    have hnone : config.input = none := by simpa [Config.isValid, hmode] using hvalid
    rw [hnone]
    exact iff_of_true rfl (by simp)

/-- When the analysis of a text has a report. -/
theorem exists_analyze_eq_ok_iff (text : String) {config : Config} :
    (∃ report, (analyze text config).result = .ok report) ↔
      ∃ g, Grammar.ofFile text = .ok g ∧ (ReportPart.all g config).error? = none := by
  unfold analyze
  cases Grammar.ofFile text with
  | error e => simp
  | ok g => cases h : (ReportPart.all g config).error? <;> simp [h]

namespace Workspace

variable {w w' : Workspace} {config : Config} {path file : String} {several : Bool}

/-- **A file succeeds** when it can be read, its text is a grammar, and, if
an input is given, the grammar is LL(1) and its parser accepts. -/
def Succeeds (w : Workspace) (input : Option (List String)) (file : String) : Prop :=
  ∃ text g, w.readText file = .ok text ∧ Grammar.ofFile text = .ok g
    ∧ ∀ symbols, input = some symbols → (LookaheadAnalysis.ofGrammar g).isLL1 = true
      ∧ ∃ p steps, PredictiveParser.ofAnalysis (LookaheadAnalysis.ofGrammar g) = .ok p
        ∧ p.parse symbols = .ok steps

/-- **The report on one file**, if it has one. -/
def report? (w : Workspace) (config : Config) (file : String) : Option String :=
  (w.readText file).toOption.bind fun text => (analyze text config).result.toOption

/-- What is printed to the standard output for one file: a line that names it
if it is one of several, and its report. -/
def textOf (w : Workspace) (config : Config) (several : Bool) (file : String) : String :=
  (if several then "==> " ++ w.shownPath file ++ " <==\n" else "") ++
    (w.report? config file).getD ""

theorem toOption_result_analyzeFile :
    (w.analyzeFile config file).result.toOption = w.report? config file := by
  unfold analyzeFile report?
  cases w.readText file with
  | error fault => rfl
  | ok text =>
    show ((analyze text config).result.mapError _).toOption = (analyze text config).result.toOption
    cases (analyze text config).result <;> rfl

theorem path_analyzeFile : (w.analyzeFile config file).path = file := by
  unfold analyzeFile
  split <;> rfl

/-- **What is printed for a file depends on that file alone.** -/
theorem textOf_congr (hread : w'.readText file = w.readText file)
    (hshown : w'.shownPath file = w.shownPath file) :
    w'.textOf config several file = w.textOf config several file := by
  rw [textOf, textOf, report?, report?, hread, hshown]

theorem stdoutOf_analyzeFile :
    CommandLine.stdoutOf w several (w.analyzeFile config file) = w.textOf config several file := by
  rw [CommandLine.stdoutOf, CommandLine.header, textOf, path_analyzeFile,
    toOption_result_analyzeFile]

/-- **Which files have a report**: those that succeed. -/
theorem exists_report?_iff (hvalid : config.isValid = true) :
    (∃ report, w.report? config file = some report) ↔ w.Succeeds config.input file := by
  have htoOption : ∀ text, (∃ report, (analyze text config).result.toOption = some report) ↔
      ∃ report, (analyze text config).result = .ok report := by
    intro text
    cases (analyze text config).result <;> simp [Except.toOption]
  unfold report? Succeeds
  cases w.readText file with
  | error fault => simp [Except.toOption]
  | ok text =>
    show (∃ report, (analyze text config).result.toOption = some report) ↔ _
    rw [htoOption, exists_analyze_eq_ok_iff]
    simp [ReportPart.error?_all_eq_none_iff _ hvalid]

end Workspace

/-! ## The summary -/

namespace Summary

variable {results : List FileResult}

theorem record_eq (s : Summary) (r : FileResult) : s.record r =
    ⟨s.analyzed + 1, s.failed + if r.result.toOption.isNone then 1 else 0⟩ := by
  unfold record
  cases r.result <;> rfl

/-- Recording results adds up the files and the failures among them. -/
theorem foldl_record (s : Summary) : results.foldl record s =
    ⟨s.analyzed + results.length, s.failed + results.countP (·.result.toOption.isNone)⟩ := by
  induction results generalizing s with
  | nil => rfl
  | cons r results ih =>
    rw [List.foldl_cons, ih, record_eq, List.length_cons, List.countP_cons, Summary.mk.injEq]
    constructor
    · show s.analyzed + 1 + results.length = _
      omega
    · show s.failed + _ + _ = _
      omega

/-- **The summary counts the files and those without a report.** -/
theorem ofResults_eq : ofResults results =
    ⟨results.length, results.countP (·.result.toOption.isNone)⟩ := by
  rw [ofResults, foldl_record]
  simp [empty]

theorem exitCode_eq (s : Summary) : s.exitCode = 0 ∨ s.exitCode = 1 := by
  unfold exitCode
  split
  · exact Or.inl rfl
  · exact Or.inr rfl

theorem exitCode_eq_zero_iff {s : Summary} : s.exitCode = 0 ↔ s.failed = 0 := by
  unfold exitCode
  split <;> simp_all

end Summary

namespace Workspace

variable {w : Workspace} {config : Config} {files : List String}

/-- **The summary after some files.** -/
theorem ofResults_take_analyzeFiles (k : Nat) :
    Summary.ofResults ((w.analyzeFiles config files).take k) = ⟨(files.take k).length,
      (files.take k).countP fun file => (w.report? config file).isNone⟩ := by
  rw [Summary.ofResults_eq, analyzeFiles, ← List.map_take, List.length_map, List.countP_map]
  simp only [Function.comp_def, toOption_result_analyzeFile]

end Workspace

/-! ## The whole run -/

namespace CommandLine

variable {libraries : Libraries} {w w' : Workspace} {config : Config} {path program : String}
  {level? : Option LogLevel} {a : Arguments} {request : Request} {arguments files : List String}

/-- The code of an analysis is zero when all files succeed. -/
theorem code_runAnalysis_eq_zero_iff (hvalid : config.isValid = true) :
    (runAnalysis libraries w path config level?).code = 0 ↔
      ∃ files, Finds libraries.walk w path files
        ∧ ∀ file ∈ files, w.Succeeds config.input file := by
  unfold runAnalysis
  cases hsearch : w.search libraries.walk path with
  | error message =>
    refine iff_of_false Nat.one_ne_zero ?_
    rintro ⟨files, hfiles, -⟩
    cases hsearch.symm.trans (Workspace.search_eq_ok_iff.mpr hfiles)
  | ok files =>
    have hfiles := Workspace.search_eq_ok_iff.mp hsearch
    have hcode : (Summary.ofResults (w.analyzeFiles config files)).exitCode = 0 ↔
        ∀ file ∈ files, w.Succeeds config.input file := by
      rw [Summary.exitCode_eq_zero_iff, Summary.ofResults_eq, Workspace.analyzeFiles,
        List.countP_map, List.countP_eq_zero]
      refine forall₂_congr fun file _ => ?_
      rw [← Workspace.exists_report?_iff hvalid, Function.comp_apply,
        Workspace.toOption_result_analyzeFile, ← Option.isSome_iff_exists]
      cases w.report? config file <;> simp
    constructor
    · exact fun h => ⟨files, hfiles, hcode.mp h⟩
    · rintro ⟨files', hfiles', h⟩
      obtain rfl := hfiles.unique hfiles'
      exact hcode.mpr h

/-- **The standard output of an analysis** is made of one text for every
file. -/
theorem stdout_runAnalysis (hfiles : Finds libraries.walk w path files) :
    (runAnalysis libraries w path config level?).stdout
      = String.join (files.map (w.textOf config (2 ≤ files.length))) := by
  unfold runAnalysis
  rw [Workspace.search_eq_ok_iff.mpr hfiles]
  show String.join ((w.analyzeFiles config files).map _) = _
  rw [Workspace.analyzeFiles, List.map_map]
  refine congrArg String.join (List.map_congr_left fun file _ => ?_)
  rw [Function.comp_apply, Workspace.stdoutOf_analyzeFile]
  rfl

/-- The text of one file between the texts of the others. -/
theorem stdout_runAnalysis_of_append {before after : List String} {file : String}
    (h : Finds libraries.walk w path (before ++ file :: after)) :
    (runAnalysis libraries w path config level?).stdout =
      String.join (before.map (w.textOf config (2 ≤ (before ++ file :: after).length)))
        ++ w.textOf config (2 ≤ (before ++ file :: after).length) file
        ++ String.join (after.map (w.textOf config (2 ≤ (before ++ file :: after).length))) := by
  rw [stdout_runAnalysis h, List.map_append, List.map_cons, String.join_append, String.join_cons,
    String.append_assoc]

/-- **A run that comes to an analysis.** -/
theorem runWith_eq_runAnalysis (h : libraries.ReadsOptions) (hwritten : IsWritten arguments a)
    (hunrepeated : a.IsUnrepeated) (hhelp : ¬ a.AsksForHelp) (hasks : a.AsksFor path config)
    (program : String) : ∃ level?, ∀ w, runWith libraries w program arguments
      = runAnalysis libraries w path config level? := by
  obtain ⟨request, hread, hrequest⟩ := h.reads hwritten hunrepeated
  obtain ⟨hhelp', -⟩ | ⟨-, ⟨path', config', hasks', htask⟩ | ⟨hnot, -⟩⟩ := taskOf_cases hrequest
  · exact absurd hhelp' hhelp
  · obtain ⟨rfl, rfl⟩ := hasks.unique hrequest hasks'
    refine ⟨logLevel? request.verbosity, fun w => ?_⟩
    rw [runWith, task, hread]
    show perform libraries w program (taskOf request) = _
    rw [htask]
    rfl
  · exact absurd hasks (hnot path config)

/-- **A walk that fails** ends a run with code one, and nothing is printed but
its first failure. -/
theorem runWith_of_failed {visits : List Visit} {message : String}
    {met : List (Except String Visit)} (h : libraries.ReadsOptions)
    (hwritten : IsWritten arguments a) (hunrepeated : a.IsUnrepeated) (hhelp : ¬ a.AsksForHelp)
    (hasks : a.AsksFor path config) (hdir : w.isDirectory path = true)
    (hwalk : libraries.walk w path = visits.map .ok ++ .error message :: met) (program : String) :
    runWith libraries w program arguments = ⟨1, "", message ++ "\n"⟩ := by
  obtain ⟨level?, hrun⟩ := runWith_eq_runAnalysis h hwritten hunrepeated hhelp hasks program
  rw [hrun, runAnalysis, Workspace.search, if_pos hdir, hwalk, grammarFilesOn_of_failed]

/-- **Every run ends with code zero or one.** -/
theorem code_runWith (h : libraries.ReadsOptions) (w : Workspace) (program : String)
    (arguments : List String) : (runWith libraries w program arguments).code = 0
      ∨ (runWith libraries w program arguments).code = 1 := by
  have hanalysis : ∀ path config level?, (runAnalysis libraries w path config level?).code = 0
      ∨ (runAnalysis libraries w path config level?).code = 1 := by
    intro path config level?
    unfold runAnalysis
    split
    · exact Or.inr rfl
    · exact Summary.exitCode_eq _
  unfold runWith task
  split
  · exact Or.inr rfl
  · next request hread =>
    obtain ⟨a, -, -, hrequest⟩ := h.exists_isWritten hread
    obtain ⟨-, htask⟩ | ⟨-, ⟨path, config, -, htask⟩ | ⟨-, ⟨m, htask⟩ | htask⟩⟩ :=
      taskOf_cases hrequest
    · exact Or.inl (by rw [htask]; rfl)
    · rw [htask]
      exact hanalysis path config _
    · exact Or.inr (by rw [htask]; rfl)
    · exact Or.inr (by rw [htask]; rfl)

/-- When the task set by a request ends with code zero. -/
theorem code_perform_taskOf_eq_zero_iff (h : a.Asks request) (w : Workspace) (program : String) :
    (perform libraries w program (taskOf request)).code = 0 ↔ a.AsksForHelp ∨ ∃ path config,
      a.AsksFor path config ∧ ∃ files, Finds libraries.walk w path files
        ∧ ∀ file ∈ files, w.Succeeds config.input file := by
  obtain ⟨hhelp, htask⟩ | ⟨hhelp, ⟨path, config, hasks, htask⟩ | ⟨hno, htask⟩⟩ := taskOf_cases h
  · rw [htask]
    exact iff_of_true rfl (Or.inl hhelp)
  · rw [htask, or_iff_right hhelp]
    show (runAnalysis libraries w path config _).code = 0 ↔ _
    rw [code_runAnalysis_eq_zero_iff (h.asksFor_iff.mp hasks).2.2.2]
    constructor
    · exact fun hfiles => ⟨path, config, hasks, hfiles⟩
    · rintro ⟨path', config', hasks', hfiles⟩
      obtain ⟨rfl, rfl⟩ := hasks.unique h hasks'
      exact hfiles
  · refine iff_of_false ?_ ?_
    · obtain ⟨m, htask⟩ | htask := htask
      · rw [htask]
        exact Nat.one_ne_zero
      · rw [htask]
        exact Nat.one_ne_zero
    · rintro (hhelp' | ⟨path, config, hasks, -⟩)
      · exact hhelp hhelp'
      · exact hno path config hasks

/-- **When a run ends with code zero.** -/
theorem code_runWith_eq_zero_iff (h : libraries.ReadsOptions) (w : Workspace) (program : String)
    (arguments : List String) : (runWith libraries w program arguments).code = 0 ↔
      ∃ a, IsWritten arguments a ∧ a.IsUnrepeated ∧ (a.AsksForHelp ∨ ∃ path config,
        a.AsksFor path config ∧ ∃ files, Finds libraries.walk w path files
          ∧ ∀ file ∈ files, w.Succeeds config.input file) := by
  have htask : ∀ (a : Arguments) request, libraries.read arguments = .ok request →
      a.Asks request →
      ((runWith libraries w program arguments).code = 0 ↔ a.AsksForHelp ∨ ∃ path config,
        a.AsksFor path config ∧ ∃ files, Finds libraries.walk w path files
          ∧ ∀ file ∈ files, w.Succeeds config.input file) := by
    intro a request hread hrequest
    rw [runWith, task, hread]
    exact code_perform_taskOf_eq_zero_iff hrequest w program
  constructor
  · intro hcode
    cases hread : libraries.read arguments with
    | error message =>
      rw [runWith, task, hread] at hcode
      exact absurd hcode Nat.one_ne_zero
    | ok request =>
      obtain ⟨a, hwritten, hunrepeated, hrequest⟩ := h.exists_isWritten hread
      exact ⟨a, hwritten, hunrepeated, (htask a request hread hrequest).mp hcode⟩
  · rintro ⟨a, hwritten, hunrepeated, hasks⟩
    obtain ⟨request, hread, hrequest⟩ := h.reads hwritten hunrepeated
    exact (htask a request hread hrequest).mpr hasks

/-- **What a run prints and how it ends**, with every library that reads options
as they are documented and on every walk through directories. A run ends with
code zero if and only if its arguments are written as options and free arguments
are and ask for the usage text, or for an analysis for which the search for files
does not fail and in which every file succeeds; otherwise it ends with code one.
If it comes to an analysis, the standard output has, for every file in order, a
line that names it if there are several, and then its report if the analysis of
this file alone succeeds. After `k` files the summary counts `k` files and those
of them without a report. Without an input, every grammar succeeds, and a
directory without grammar files ends a run with code zero. A file whose content
changes changes nothing before or after its own text. -/
theorem run_exact (h : libraries.ReadsOptions) (w : Workspace) (program : String)
    (arguments : List String) :
    ((runWith libraries w program arguments).code = 0
        ∨ (runWith libraries w program arguments).code = 1)
      ∧ ((runWith libraries w program arguments).code = 0 ↔
        ∃ a, IsWritten arguments a ∧ a.IsUnrepeated ∧ (a.AsksForHelp ∨ ∃ path config,
          a.AsksFor path config ∧ ∃ files, Finds libraries.walk w path files
            ∧ ∀ file ∈ files, w.Succeeds config.input file))
      ∧ ∀ a path config files, IsWritten arguments a → a.IsUnrepeated → ¬ a.AsksForHelp →
        a.AsksFor path config → Finds libraries.walk w path files →
          (runWith libraries w program arguments).stdout
              = String.join (files.map (w.textOf config (2 ≤ files.length)))
          ∧ (∀ file, (∃ report, w.report? config file = some report) ↔
              w.Succeeds config.input file)
          ∧ (∀ k ≤ files.length, Summary.ofResults ((w.analyzeFiles config files).take k)
              = ⟨k, (files.take k).countP fun file => (w.report? config file).isNone⟩)
          ∧ (config.input = none → ((runWith libraries w program arguments).code = 0 ↔
              ∀ file ∈ files, ∃ text g,
                w.readText file = .ok text ∧ Grammar.ofFile text = .ok g))
          ∧ (files = [] → (runWith libraries w program arguments).code = 0
              ∧ (runWith libraries w program arguments).stdout = "")
          ∧ ∀ (w' : Workspace) before file after, files = before ++ file :: after →
              Finds libraries.walk w' path files →
              (∀ other ∈ before ++ after, w'.readText other = w.readText other
                ∧ w'.shownPath other = w.shownPath other) →
              ∃ first last,
                (runWith libraries w program arguments).stdout
                  = first ++ w.textOf config (2 ≤ files.length) file ++ last
                ∧ (runWith libraries w' program arguments).stdout
                  = first ++ w'.textOf config (2 ≤ files.length) file ++ last := by
  refine ⟨code_runWith h w program arguments, code_runWith_eq_zero_iff h w program arguments,
    fun a path config files hwritten hunrepeated hhelp hasks hfiles => ?_⟩
  obtain ⟨request, -, hrequest⟩ := h.reads hwritten hunrepeated
  have hvalid : config.isValid = true := (hrequest.asksFor_iff.mp hasks).2.2.2
  obtain ⟨level?, hrun⟩ := runWith_eq_runAnalysis h hwritten hunrepeated hhelp hasks program
  have hcode : (runAnalysis libraries w path config level?).code = 0 ↔
      ∀ file ∈ files, w.Succeeds config.input file := by
    rw [code_runAnalysis_eq_zero_iff hvalid]
    constructor
    · rintro ⟨files', hfiles', hsucceed⟩
      obtain rfl := hfiles.unique hfiles'
      exact hsucceed
    · exact fun hsucceed => ⟨files, hfiles, hsucceed⟩
  simp only [hrun]
  refine ⟨stdout_runAnalysis hfiles, fun file => Workspace.exists_report?_iff hvalid,
    fun k hk => ?_, fun hinput => ?_, fun hnil => ?_, ?_⟩
  · rw [Workspace.ofResults_take_analyzeFiles, List.length_take_of_le hk]
  · rw [hcode, hinput]
    exact forall₂_congr fun file _ => by simp [Workspace.Succeeds]
  · rw [hcode, stdout_runAnalysis hfiles, hnil]
    exact ⟨by simp, rfl⟩
  · rintro w' before file after rfl hfiles' hsame
    have htexts : ∀ several, ∀ others : List String, others ⊆ before ++ after →
        others.map (w'.textOf config several) = others.map (w.textOf config several) :=
      fun several others hsubset => List.map_congr_left fun other hother =>
        Workspace.textOf_congr (hsame other (hsubset hother)).1 (hsame other (hsubset hother)).2
    refine ⟨_, _, stdout_runAnalysis_of_append hfiles, ?_⟩
    rw [stdout_runAnalysis_of_append hfiles', htexts _ before (List.subset_append_left ..),
      htexts _ after (List.subset_append_right ..)]

/-- A grammar file with one production of one terminal. -/
def oneWord : String :=
  "%nonterminals S\n%terminals a\n%start S\nS->a\n"

/-- The report on it, with the steps by which `a#` is accepted. -/
def oneWordReport : String :=
  "S -> a\n\nFIRST\n  S: \x7b a \x7d\nFOLLOW\n  S: \x7b # \x7d\nSELECT\n  S -> a: \x7b a \x7d\n" ++
    "LL(1): yes\n\n[S, a] S -> a\n\nexpand S -> a\nmatch  a\naccept\n"

/-- Three files with the names of grammar files, of which the second one has
given bytes. -/
def threeFiles (second : ByteArray) : Workspace where
  root := .directory [("c.grammar", .file oneWord.toUTF8), ("b.grammar", .file second),
    ("a.grammar", .file oneWord.toUTF8)]
  current := []
  rootName := "/"

theorem finds_threeFiles {second : ByteArray} (h : second ∈ [.empty, oneWord.toUTF8]) :
    Finds Workspace.walk (threeFiles second) "."
      ["./a.grammar", "./b.grammar", "./c.grammar"] := by
  rw [← Workspace.search_eq_ok_iff, Workspace.search_walk]
  revert second
  decide +kernel

/-- Options are read as before when another walk is taken. -/
theorem Libraries.ReadsOptions.withWalk (h : libraries.ReadsOptions)
    (walk : Workspace → String → List (Except String Visit)) :
    { libraries with walk := walk }.ReadsOptions :=
  ⟨h.reads, h.refuses⟩

/-- An empty file between two grammars fails: it has a header and no report, and
the run ends with code one. What it holds changes nothing but its own text. Help
comes before a bad mode, and a walk that fails ends a run with code one. -/
theorem run_exact_threeFiles :
    Libraries.standard.ReadsOptions
      ∧ Finds Workspace.walk (threeFiles .empty) "." ["./a.grammar", "./b.grammar", "./c.grammar"]
      ∧ (run (threeFiles .empty) "grammarscope" ["-mLl", ".", "--input", "a #"]).code = 1
      ∧ (run (threeFiles .empty) "grammarscope" ["-mLl", ".", "--input", "a #"]).stdout
        = "==> /a.grammar <==\n" ++ oneWordReport ++ "==> /b.grammar <==\n"
          ++ "==> /c.grammar <==\n" ++ oneWordReport
      ∧ Summary.ofResults (((threeFiles .empty).analyzeFiles ⟨.lookahead, some ["a", "#"]⟩
          ["./a.grammar", "./b.grammar", "./c.grammar"]).take 2) = ⟨2, 1⟩
      ∧ (∃ first last,
        (run (threeFiles .empty) "grammarscope" ["-mLl", ".", "--input", "a #"]).stdout
          = first ++ "==> /b.grammar <==\n" ++ last
        ∧ (run (threeFiles oneWord.toUTF8) "grammarscope" ["-mLl", ".", "--input", "a #"]).stdout
          = first ++ ("==> /b.grammar <==\n" ++ oneWordReport) ++ last)
      ∧ (run (threeFiles .empty) "grammarscope" ["--mode=lr", "-vh"]).code = 0
      ∧ (runWith { Libraries.standard with walk := fun _ _ => [.error "not permitted"] }
          (threeFiles oneWord.toUTF8) "grammarscope" ["."]).code = 1 := by
  have hlibraries := Libraries.readsOptions_standard
  have hfinds := finds_threeFiles (List.mem_cons_self : .empty ∈ [.empty, oneWord.toUTF8])
  obtain ⟨hwritten, hunrepeated⟩ := readArguments_eq_ok_iff.mp (by decide :
    readArguments ["-mLl", ".", "--input", "a #"]
      = .ok ⟨[⟨.mode, some "Ll"⟩, ⟨.input, some "a #"⟩], ["."]⟩)
  have hasks : Arguments.AsksFor ⟨[⟨.mode, some "Ll"⟩, ⟨.input, some "a #"⟩], ["."]⟩ "."
      ⟨.lookahead, some ["a", "#"]⟩ :=
    { mode := Or.inl ⟨"Ll", by decide, .cons (Or.inr rfl) (.cons (Or.inl rfl) .nil)⟩
      free := rfl
      input := Or.inl ⟨"a #", ["a", "#"], by decide, areWords_iff.mpr (by decide), rfl⟩
      compatible := Or.inr nofun }
  obtain ⟨hcode, -, hrun⟩ := run_exact hlibraries (threeFiles .empty) "grammarscope"
    ["-mLl", ".", "--input", "a #"]
  obtain ⟨hstdout, -, hsummary, -, -, hchange⟩ := hrun _ _ _ _ hwritten hunrepeated
    (by rintro ⟨value, hmem⟩; simp at hmem) hasks hfinds
  refine ⟨hlibraries, hfinds, ?_, ?_, ?_, ?_, ?_, ?_⟩
  · exact hcode.resolve_left (by decide +kernel)
  · exact hstdout.trans (by decide +kernel)
  · exact (hsummary 2 (by decide)).trans (by decide +kernel)
  · obtain ⟨first, last, hold, hnew⟩ := hchange (threeFiles oneWord.toUTF8) ["./a.grammar"] _
      ["./c.grammar"] rfl (finds_threeFiles (by simp)) (by decide +kernel)
    have htextOld : (threeFiles .empty).textOf ⟨.lookahead, some ["a", "#"]⟩ true
        "./b.grammar" = "==> /b.grammar <==\n" := by decide +kernel
    have htextNew : (threeFiles oneWord.toUTF8).textOf ⟨.lookahead, some ["a", "#"]⟩ true
        "./b.grammar" = "==> /b.grammar <==\n" ++ oneWordReport := by decide +kernel
    exact ⟨first, last, htextOld ▸ hold, htextNew ▸ hnew⟩
  · obtain ⟨hwritten, hunrepeated⟩ := readArguments_eq_ok_iff.mp (by decide :
      readArguments ["--mode=lr", "-vh"]
        = .ok ⟨[⟨.mode, some "lr"⟩, ⟨.verbose, none⟩, ⟨.help, none⟩], []⟩)
    obtain ⟨-, hzero, -⟩ := run_exact hlibraries (threeFiles .empty) "grammarscope"
      ["--mode=lr", "-vh"]
    exact hzero.mpr ⟨_, hwritten, hunrepeated, Or.inl ⟨none, by decide⟩⟩
  · have hfailing := run_exact (hlibraries.withWalk fun _ _ => [.error "not permitted"])
      (threeFiles oneWord.toUTF8) "grammarscope" ["."]
    exact hfailing.1.resolve_left (by decide +kernel)

end CommandLine

end GrammarAnalysis
