import GrammarAnalysis.Proofs.ExitStatus
import GrammarAnalysis.Proofs.ParsedLanguage
import GrammarAnalysis.Proofs.PrecedenceVerdict
import GrammarAnalysis.Proofs.PrintedSections

/-!
# The sections of a report

A report is made of sections, each printed as lines, with a blank line between
one section and the next. `Grammar.reportSections` lists the sections that are
asked for. They can be found again in the report if each is a paragraph: it has
at least one line, and none of its lines is blank.

No line that is printed has a line feed in it, as names have none, and every
section ends with a line that ends visibly: with a symbol, a brace, a quoted
name or a word. So nothing but its last line feed is trimmed from a section, and
the report is the sections with a blank line between them, whatever they are.

They are paragraphs with two exceptions (`report_exact`). A parsing table has a
line for each of its entries, so it is printed as nothing if no lookahead
selects any production. And the line of the column heads of a matrix is blank if
there are no columns, which is the case if no terminal is declared besides the
one that stands for the empty string. The grammar `S->S` has both.
-/

namespace GrammarAnalysis

variable {text : String} {g : Grammar} {config : Config}

namespace Grammar

/-- The parser with the table of the SELECT sets. -/
def tableParser (g : Grammar) : PredictiveParser :=
  ⟨g, .ofSelect g (LookaheadAnalysis.ofGrammar g).select⟩

/-- The sections of an LL(1) analysis: its sets and verdict, the table of an
LL(1) grammar, and the steps of the parser if an input is given. -/
def lookaheadSections (g : Grammar) (input : Option (List String)) : List (List String) :=
  let a := LookaheadAnalysis.ofGrammar g
  a.reportLines :: (if a.isLL1 then [g.tableParser.table.lines g] else [])
    ++ (input.map fun symbols => (g.tableParser.run symbols).steps.map (ParseStep.line g)).toList

/-- **The sections that are asked for**, each as the lines that it is printed
as: the grammar and its analyses. -/
def reportSections (g : Grammar) (config : Config) : List (List String) :=
  g.lines :: (if config.mode.includesLookahead then g.lookaheadSections config.input else [])
    ++ if config.mode.includesPrecedence then [(PrecedenceAnalysis.ofGrammar g).reportLines] else []

variable {P : List String → Prop} {input : Option (List String)}

theorem forall_mem_lookaheadSections :
    (∀ lines ∈ g.lookaheadSections input, P lines) ↔ P (LookaheadAnalysis.ofGrammar g).reportLines
      ∧ ((LookaheadAnalysis.ofGrammar g).isLL1 = true → P (g.tableParser.table.lines g))
      ∧ ∀ symbols, input = some symbols →
        P ((g.tableParser.run symbols).steps.map (ParseStep.line g)) := by
  simp only [lookaheadSections, List.forall_mem_append, List.forall_mem_cons, Option.mem_toList,
    and_assoc]
  refine and_congr_right fun _ => and_congr ?_ ?_
  · split <;> simp [*]
  · cases input <;> simp

theorem forall_mem_reportSections : (∀ lines ∈ g.reportSections config, P lines) ↔ P g.lines
      ∧ (config.mode.includesLookahead = true → ∀ lines ∈ g.lookaheadSections config.input, P lines)
      ∧ (config.mode.includesPrecedence = true →
        P (PrecedenceAnalysis.ofGrammar g).reportLines) := by
  simp only [reportSections, List.forall_mem_append, List.forall_mem_cons, and_assoc]
  refine and_congr_right fun _ => and_congr ?_ ?_
  · split <;> simp [*]
  · split <;> simp [*]

end Grammar

/-! ## What is reported -/

namespace ReportPart

theorem sections_andThen {first : ReportPart} (h : first.error? = none) (second : ReportPart) :
    (first.andThen second).sections = first.sections ++ second.sections := by
  rw [andThen, h]
  rfl

theorem sections_lookahead {input : Option (List String)} (h : (lookahead g input).error? = none) :
    (lookahead g input).sections = (g.lookaheadSections input).map unlines := by
  simp only [lookahead] at h ⊢
  simp only [Grammar.lookaheadSections]
  cases hp : PredictiveParser.ofAnalysis (LookaheadAnalysis.ofGrammar g) with
  | error e =>
    have hll : (LookaheadAnalysis.ofGrammar g).isLL1 ≠ true := fun hll => by
      obtain ⟨p, hok⟩ := (PredictiveParser.exists_ofAnalysis_iff _).mpr hll
      cases hp.symm.trans hok
    rw [if_neg hll]
    cases input with
    | none => rfl
    | some symbols =>
      rw [hp] at h
      cases h
  | ok p =>
    have hll := (PredictiveParser.exists_ofAnalysis_iff _).mp ⟨p, hp⟩
    obtain ⟨-, rfl⟩ := PredictiveParser.eq_of_ofAnalysis hp
    rw [if_pos hll]
    cases input <;> rfl

theorem error?_lookahead_of_all (h : (all g config).error? = none)
    (hmode : config.mode.includesLookahead = true) :
    (lookahead g config.input).error? = none := by
  simp only [all, error?_andThen, Option.or_eq_none_iff, if_pos hmode] at h
  exact h.1.2

/-- **The sections of a report without an error** are those that are asked
for. -/
theorem sections_all (h : (all g config).error? = none) :
    (all g config).sections = (g.reportSections config).map unlines := by
  have hlookahead :
      (if config.mode.includesLookahead then lookahead g config.input else empty).sections
        = (if config.mode.includesLookahead then g.lookaheadSections config.input else []).map
          unlines := by
    split
    · next hmode => exact sections_lookahead (error?_lookahead_of_all h hmode)
    · rfl
  have hprecedence : (if config.mode.includesPrecedence then precedence g else empty).sections
      = (if config.mode.includesPrecedence then [(PrecedenceAnalysis.ofGrammar g).reportLines]
        else []).map unlines := by
    split <;> rfl
  rw [all, error?_andThen, Option.or_eq_none_iff] at h
  rw [all, sections_andThen h.1, sections_andThen rfl, hlookahead, hprecedence,
    Grammar.reportSections, List.map_append, List.map_cons]
  rfl

end ReportPart

/-! ## When sections are paragraphs -/

section Sections

variable (hg : Grammar.ofFile text = .ok g)

include hg

/-- The steps by which an input is accepted are printed as a paragraph that ends
with the last of them. -/
theorem isSection_steps {p : PredictiveParser} {symbols : List String} {steps : List ParseStep}
    (hp : p.IsFor g) (h : p.parse symbols = .ok steps) :
    IsSection ((p.run symbols).steps.map (ParseStep.line g))
      ∧ IsParagraph ((p.run symbols).steps.map (ParseStep.line g)) := by
  obtain ⟨taken, -, -, rfl, -⟩ := hp.reaches_of_parse h
  have hlines : (p.run symbols).steps.map (ParseStep.line g)
      = taken.map (ParseStep.line g) ++ ["accept"] := by
    rw [PredictiveParser.result_eq_ok.mp h, List.map_append]
    rfl
  refine ⟨⟨List.forall_mem_map.mpr fun step _ => step.isLine_line hg, ?_⟩, ⟨?_, ?_⟩⟩
  · rw [hlines]
    exact linesEndVisibly_concat (by decide) _
  · rw [hlines]
    simp
  · exact List.forall_mem_map.mpr fun step _ => step.isBlankLine_line

omit hg in
/-- **A parsing table has an entry** if a lookahead selects a production. -/
theorem Grammar.WellFormed.entries_ne_nil_iff (h : g.WellFormed) :
    g.tableParser.table.entries ≠ [] ↔ ∃ p ∈ g.productions, ∃ t, g.Selects p t := by
  rw [← List.isEmpty_eq_false_iff, List.isEmpty_eq_false_iff_exists_mem]
  constructor
  · rintro ⟨e, he⟩
    obtain ⟨p, hp, -, ht⟩ := mem_entries_ofSelect.mp he
    have hmem := List.mem_of_getElem? hp
    exact ⟨p, hmem, e.lookahead, (h.mem_select_iff hmem).mp ht⟩
  · rintro ⟨p, hp, t, ht⟩
    obtain ⟨n, hn⟩ := List.mem_iff_getElem?.mp hp
    exact ⟨⟨p.lhs, t, n⟩, mem_entries_ofSelect.mpr ⟨p, hn, rfl, (h.mem_select_iff hp).mpr ht⟩⟩

/-- **The sections of an LL(1) analysis are paragraphs** unless its table is
empty. A grammar that is not LL(1) has no table, and lookaheads that it
conflicts on. -/
theorem forall_lookaheadSections {input : Option (List String)}
    (h : (ReportPart.lookahead g input).error? = none) :
    (∀ lines ∈ g.lookaheadSections input, IsSection lines)
      ∧ ((∀ lines ∈ g.lookaheadSections input, IsParagraph lines)
        ↔ ∃ p ∈ g.productions, ∃ t, g.Selects p t) := by
  have hwf := (Grammar.Constructed.ofFile hg).wellFormed
  have hreport := LookaheadAnalysis.isVisibleLine_of_mem_reportLines hg
  have htable := ParsingTable.isVisibleLine_of_mem_lines hg
  have hsteps : ∀ symbols, input = some symbols →
      IsSection ((g.tableParser.run symbols).steps.map (ParseStep.line g))
        ∧ IsParagraph ((g.tableParser.run symbols).steps.map (ParseStep.line g)) := by
    intro symbols hinput
    obtain ⟨p, steps, hp, hparse⟩ :=
      (ReportPart.error?_lookahead_eq_none_iff g input).mp h symbols hinput
    have hfor := PredictiveParser.isFor_of_ofAnalysis hwf hp
    obtain ⟨-, rfl⟩ := PredictiveParser.eq_of_ofAnalysis hp
    exact isSection_steps hg hfor hparse
  simp only [Grammar.forall_mem_lookaheadSections]
  refine ⟨⟨isSection_of_forall hreport, fun _ => isSection_of_forall htable,
    fun symbols hinput => (hsteps symbols hinput).1⟩, ?_⟩
  constructor
  · rintro ⟨-, hparagraph, -⟩
    by_contra hnone
    have hd : g.IsDeterministic g.select := fun m n p q hp _ _ t ht _ =>
      have hmem := List.mem_of_getElem? hp
      absurd ⟨p, hmem, t, (hwf.mem_select_iff hmem).mp ht⟩ hnone
    have hne := (hparagraph ((LookaheadAnalysis.isLL1_ofGrammar_iff hwf).mpr hd)).ne_nil
    exact hnone (hwf.entries_ne_nil_iff.mp (by simpa [ParsingTable.lines] using hne))
  · intro hselects
    refine ⟨isParagraph_of_forall (by simp [LookaheadAnalysis.reportLines]) hreport,
      fun _ => isParagraph_of_forall ?_ htable, fun symbols hinput => (hsteps symbols hinput).2⟩
    simpa [ParsingTable.lines] using hwf.entries_ne_nil_iff.mpr hselects

/-- **A matrix has rows** if a terminal is declared besides the one that stands
for the empty string. -/
theorem PrecedenceMatrix.terminals_ne_nil_iff {m : PrecedenceMatrix}
    (hm : (PrecedenceAnalysis.ofGrammar g).matrix? = some m) :
    m.terminals ≠ [] ↔ ∃ name ∈ g.terminals, name ≠ epsilonName := by
  have hwf := (Grammar.Constructed.ofFile hg).wellFormed
  rw [← List.isEmpty_eq_false_iff, List.isEmpty_eq_false_iff_exists_mem]
  simp only [mem_terminals_iff, PrecedenceAnalysis.covers_iff_of_matrix? hm]
  have hepsilon := Grammar.getElem?_epsilon hwf.epsilon_mem
  constructor
  · rintro ⟨⟨i⟩, hi, hne⟩
    refine ⟨g.terminals[i], List.getElem_mem hi, fun hname => hne ?_⟩
    have hi' : g.terminals[i]? = some epsilonName := by rw [List.getElem?_eq_getElem hi, hname]
    have hindex : i = g.epsilon.index :=
      (List.getElem?_inj hi hwf.terminals_nodup).mp (hi'.trans hepsilon.symm)
    rw [hindex]
  · rintro ⟨name, hname, hne⟩
    obtain ⟨i, hi⟩ := List.mem_iff_getElem?.mp hname
    refine ⟨⟨i⟩, (List.getElem?_eq_some_iff.mp hi).1, fun heq => hne ?_⟩
    rw [← Symbol.terminal.inj heq, hi] at hepsilon
    exact Option.some.inj hepsilon

/-- **The report of a precedence analysis is a paragraph** unless the matrix of an
operator-precedence grammar has no rows. -/
theorem PrecedenceAnalysis.isParagraph_reportLines_iff_exists_name :
    IsParagraph (ofGrammar g).reportLines ↔ ((ofGrammar g).isOperatorPrecedence = true →
      ∃ name ∈ g.terminals, name ≠ epsilonName) := by
  rw [isParagraph_reportLines_iff hg, isOperatorPrecedence, decide_eq_true_eq]
  cases hm : (ofGrammar g).matrix? with
  | none => exact iff_of_true nofun fun hv => absurd hv ((matrix?_eq_none_iff _).mp hm)
  | some m =>
    have hv : (ofGrammar g).verdict = .operatorPrecedence := by
      by_contra hv
      cases hm.symm.trans ((matrix?_eq_none_iff _).mpr hv)
    rw [forall_prop_of_true hv, ← PrecedenceMatrix.terminals_ne_nil_iff hg hm]
    simp

/-- **Every section of a report is printed as lines that end visibly**, and all
are paragraphs unless an empty table or a matrix without rows is among them. -/
theorem forall_reportSections (h : (ReportPart.all g config).error? = none) :
    (∀ lines ∈ g.reportSections config, IsSection lines)
      ∧ ((∀ lines ∈ g.reportSections config, IsParagraph lines)
        ↔ (config.mode.includesLookahead = true → ∃ p ∈ g.productions, ∃ t, g.Selects p t)
          ∧ (config.mode.includesPrecedence = true →
            (PrecedenceAnalysis.ofGrammar g).isOperatorPrecedence = true →
              ∃ name ∈ g.terminals, name ≠ epsilonName)) := by
  have hgrammar := Grammar.isVisibleLine_of_mem_lines hg
  have hne := (Grammar.Constructed.ofFile hg).lines_ne_nil
  have hlookahead := fun hmode =>
    forall_lookaheadSections hg (ReportPart.error?_lookahead_of_all h hmode)
  rw [Grammar.forall_mem_reportSections, Grammar.forall_mem_reportSections]
  refine ⟨⟨isSection_of_forall hgrammar, fun hmode => (hlookahead hmode).1, fun _ =>
    ⟨PrecedenceAnalysis.isLine_of_mem_reportLines hg,
      PrecedenceAnalysis.linesEndVisibly_reportLines hg⟩⟩, ?_⟩
  rw [and_iff_right (isParagraph_of_forall hne hgrammar)]
  exact and_congr (forall_congr' fun hmode => (hlookahead hmode).2) (forall_congr' fun _ =>
    PrecedenceAnalysis.isParagraph_reportLines_iff_exists_name hg)

end Sections

/-- **What a report is.** It is the sections that are asked for, with a blank line
between one and the next and a line feed at the end. The sections can be told
apart by the blank lines, with none of them empty and one line feed at the end,
unless one of two things is printed: the parsing table of a grammar no
production of which is selected by a lookahead, or the matrix of an
operator-precedence grammar that declares no terminal besides the one that
stands for the empty string. -/
theorem report_exact {report : String} (h : (analyze text config).result = .ok report) :
    ∃ g, Grammar.ofFile text = .ok g
      ∧ report = "\n\n".intercalate ((g.reportSections config).map ("\n".intercalate ·)) ++ "\n"
      ∧ (IsDividedInto report (g.reportSections config) ↔
        (config.mode.includesLookahead = true → ∃ p ∈ g.productions, ∃ t, g.Selects p t)
          ∧ (config.mode.includesPrecedence = true →
            (PrecedenceAnalysis.ofGrammar g).isOperatorPrecedence = true →
              ∃ name ∈ g.terminals, name ≠ epsilonName)) := by
  unfold analyze at h
  cases hg : Grammar.ofFile text with
  | error e =>
    rw [hg] at h
    cases h
  | ok g =>
    simp only [hg] at h
    split at h
    · cases h
    · next herror =>
      obtain ⟨hsections, hparagraphs⟩ := forall_reportSections hg herror
      have hreport : report = "\n\n".intercalate
          ((g.reportSections config).map ("\n".intercalate ·)) ++ "\n" := by
        rw [← Except.ok.inj h, ReportPart.sections_all herror, joinSections, List.map_map]
        have hmap := List.map_congr_left fun lines hlines =>
          (hsections lines hlines).endsVisibly.trimmedEnd_unlines
        rw [← hmap]
        rfl
      refine ⟨g, rfl, hreport, ?_⟩
      rw [hreport, isDividedInto_iff (by simp [Grammar.reportSections])
        (fun lines hlines => (hsections lines hlines).isLine)
        (fun lines hlines => (hsections lines hlines).endsVisibly), hparagraphs]

/-! ## A report with and one without its sections -/

/-- One production of two terminals. -/
def Grammar.pair : Grammar where
  nonterminals := ["S"]
  terminals := ["a", "b", "NULL"]
  start := ⟨0⟩
  rules := [⟨⟨0⟩, [[.terminal ⟨0⟩, .terminal ⟨1⟩]]⟩]

/-- The report on the grammar of pairs and the input `ab#` has five sections. -/
theorem report_exact_pair : ∃ report,
    (analyze "%nonterminals S\n%terminals a b\n%start S\nS->ab\n"
      ⟨.all, some ["a", "b", "#"]⟩).result = .ok report
    ∧ IsDividedInto report (Grammar.pair.reportSections ⟨.all, some ["a", "b", "#"]⟩)
    ∧ (Grammar.pair.reportSections ⟨.all, some ["a", "b", "#"]⟩).length = 5 := by
  obtain ⟨report, hreport⟩ : ∃ report,
      (analyze "%nonterminals S\n%terminals a b\n%start S\nS->ab\n"
        ⟨.all, some ["a", "b", "#"]⟩).result.toOption = some report :=
    Option.isSome_iff_exists.mp (by decide +kernel)
  have hread : (Grammar.ofFile "%nonterminals S\n%terminals a b\n%start S\nS->ab\n").toOption
      = some Grammar.pair := by decide +kernel
  obtain ⟨g, hg, -, hiff⟩ := report_exact (eq_ok_of_toOption hreport)
  obtain rfl : Grammar.pair = g := Except.ok.inj ((eq_ok_of_toOption hread).symm.trans hg)
  refine ⟨report, eq_ok_of_toOption hreport, hiff.mpr ⟨fun _ => ?_, fun _ _ => ?_⟩, ?_⟩
  · have hp : ⟨⟨0⟩, [.terminal ⟨0⟩, .terminal ⟨1⟩]⟩ ∈ Grammar.pair.productions := by decide
    have hwf := (Grammar.Constructed.ofFile hg).wellFormed
    exact ⟨_, hp, ⟨0⟩, (hwf.mem_select_iff hp).mp (by decide +kernel)⟩
  · exact ⟨"a", by decide, by decide⟩
  · decide +kernel

/-- A nonterminal that derives itself and nothing else. -/
def Grammar.selfLoop : Grammar where
  nonterminals := ["S"]
  terminals := ["NULL"]
  start := ⟨0⟩
  rules := [⟨⟨0⟩, [[.nonterminal ⟨0⟩]]⟩]

/-- **Not every report is divided into its sections.** The matrix of the grammar
`S->S` is printed as a blank line, and its table as nothing, for which the
report ends with three line feeds. -/
theorem not_isDividedInto_selfLoop :
    Grammar.ofFile "%nonterminals S\n%terminals NULL\n%start S\nS->S\n" = .ok Grammar.selfLoop
    ∧ (∃ report, (analyze "%nonterminals S\n%terminals NULL\n%start S\nS->S\n"
        ⟨.precedence, none⟩).result = .ok report
      ∧ ¬ IsDividedInto report (Grammar.selfLoop.reportSections ⟨.precedence, none⟩))
    ∧ ∃ report, (analyze "%nonterminals S\n%terminals NULL\n%start S\nS->S\n"
        ⟨.lookahead, none⟩).result = .ok report
      ∧ ∀ sections, ¬ IsDividedInto report sections := by
  have hread : (Grammar.ofFile "%nonterminals S\n%terminals NULL\n%start S\nS->S\n").toOption
      = some Grammar.selfLoop := by decide +kernel
  have hprecedence : (analyze "%nonterminals S\n%terminals NULL\n%start S\nS->S\n"
      ⟨.precedence, none⟩).result.toOption = some ("S -> S\n\nFIRSTVT\n  S: \x7b\x7d\nLASTVT\n" ++
        "  S: \x7b\x7d\nMATRIX\n\noperator precedence: yes\n") := by decide +kernel
  have hlookahead : (analyze "%nonterminals S\n%terminals NULL\n%start S\nS->S\n"
      ⟨.lookahead, none⟩).result.toOption = some ("S -> S\n\nFIRST\n  S: \x7b\x7d\nFOLLOW\n" ++
        "  S: \x7b # \x7d\nSELECT\n  S -> S: \x7b\x7d\nLL(1): yes\n\n\n") := by decide +kernel
  refine ⟨eq_ok_of_toOption hread, ⟨_, eq_ok_of_toOption hprecedence, ?_⟩,
    _, eq_ok_of_toOption hlookahead, ?_⟩
  · rintro ⟨body, -, -, -, hparagraphs⟩
    have hmem : (PrecedenceAnalysis.ofGrammar Grammar.selfLoop).reportLines
        ∈ Grammar.selfLoop.reportSections ⟨.precedence, none⟩ := .tail _ (.head _)
    have hblank : "" ∈ (PrecedenceAnalysis.ofGrammar Grammar.selfLoop).reportLines := by
      decide +kernel
    exact absurd ((hparagraphs _ hmem).visible _ hblank) (by decide)
  · rintro sections ⟨body, hbody, hlast, -⟩
    refine hlast ?_
    calc body.toList.getLast?
        = (body ++ "\n").toList.dropLast.getLast? := by
          rw [String.toList_append]
          exact congrArg List.getLast? List.dropLast_concat.symm
      _ = some '\n' := by
          rw [← hbody]
          decide +kernel

end GrammarAnalysis
