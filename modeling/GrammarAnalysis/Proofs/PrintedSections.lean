import GrammarAnalysis.Proofs.ConflictOrder
import GrammarAnalysis.Proofs.Neighbours
import GrammarAnalysis.Proofs.PrintedMatrix
import GrammarAnalysis.Proofs.PrintedProductions
import GrammarAnalysis.Predictive.Parser

/-!
# The lines of what is printed about a grammar

Every section of a report is printed as lines. No line that is printed has a
line feed in it, as names have none, and almost every line ends visibly
(`IsVisibleLine`): a rule with the symbols of its last alternative, a set with a
brace, a verdict with a quoted name or a word. Only two kinds of lines need not.
A step of the parser begins with what it does and ends with a name, and a line of
a precedence matrix is blank if its head and its cells are, which is true of the
line of the column heads if there are no columns
(`PrecedenceMatrix.forall_mem_gridLines_iff`).
-/

namespace GrammarAnalysis

variable {text : String} {g : Grammar}

/-! ## Lines and sections -/

/-- **A line that ends visibly.** -/
structure IsVisibleLine (line : String) : Prop where
  isLine : IsLine line
  endsVisibly : EndsVisibly line

/-- **What is printed as a section**: lines that end visibly. -/
structure IsSection (lines : List String) : Prop where
  isLine : ∀ line ∈ lines, IsLine line
  endsVisibly : LinesEndVisibly lines

theorem isSection_of_forall {lines : List String} (h : ∀ line ∈ lines, IsVisibleLine line) :
    IsSection lines where
  isLine := fun line hline => (h line hline).isLine
  endsVisibly := fun line hline => (h line (List.mem_of_getLast? hline)).endsVisibly

theorem isParagraph_of_forall {lines : List String} (hne : lines ≠ [])
    (h : ∀ line ∈ lines, IsVisibleLine line) : IsParagraph lines where
  ne_nil := hne
  visible := fun line hline => (h line hline).endsVisibly.isBlankLine_eq

/-! ## Names and texts -/

section Texts

variable (hg : Grammar.ofFile text = .ok g)

include hg

namespace Grammar

theorem isLine_terminalName (t : Terminal) : IsLine (g.terminalName t) := by
  unfold terminalName
  split
  · decide
  · cases hname : g.terminals[t.index]? with
    | none => exact (by decide : IsLine "")
    | some name => exact ((isWord_of_ofFile hg).2 name (List.mem_of_getElem? hname)).isLine

theorem isLine_nonterminalName (x : Nonterminal) : IsLine (g.nonterminalName x) := by
  unfold nonterminalName
  cases hname : g.nonterminals[x.index]? with
  | none => exact (by decide : IsLine "")
  | some name => exact ((isWord_of_ofFile hg).1 name (List.mem_of_getElem? hname)).isLine

theorem isLine_symbolsText (symbols : List Symbol) : IsLine (g.symbolsText symbols) := by
  refine isLine_join (List.forall_mem_map.mpr fun s _ => ?_)
  cases s with
  | nonterminal x => exact isLine_nonterminalName hg x
  | terminal t => exact isLine_terminalName hg t

theorem isLine_productionText (p : Production) : IsLine (g.productionText p) := by
  simp +decide [productionText, isLine_nonterminalName hg, isLine_symbolsText hg]

theorem isLine_productionTextAt (n : Nat) : IsLine (g.productionTextAt n) := by
  unfold productionTextAt
  cases g.productions[n]? with
  | none => exact (by decide : IsLine "")
  | some p => exact isLine_productionText hg p

theorem isLine_ruleText (r : Rule) : IsLine (g.ruleText r) := by
  have halternatives : IsLine (" | ".intercalate (r.alternatives.map g.symbolsText)) :=
    isLine_intercalate (by decide) (List.forall_mem_map.mpr fun rhs _ => isLine_symbolsText hg rhs)
  simp +decide [ruleText, isLine_nonterminalName hg, halternatives]

theorem isLine_setText (s : TerminalSet) : IsLine (g.setText s) := by
  have hnames : IsLine (", ".intercalate (g.setNames s)) :=
    isLine_intercalate (by decide) (List.forall_mem_map.mpr fun t _ => isLine_terminalName hg t)
  unfold setText
  split
  · decide
  · simp +decide [hnames]

end Grammar

end Texts

/-! ## How lines end -/

namespace Grammar

theorem endsVisibly_setText (s : TerminalSet) : EndsVisibly (g.setText s) := by
  unfold setText
  split
  · decide
  · exact (by decide : EndsVisibly " \x7d").append _

/-- The symbols of a production end visibly. -/
theorem Constructed.endsVisibly_symbolsText (h : g.Constructed) {p : Production}
    (hp : p ∈ g.productions) : EndsVisibly (g.symbolsText p.rhs) := by
  obtain ⟨hfree, -, hne⟩ := h.symbolsText_spec hp
  exact endsVisibly_of_free hne hfree

theorem Constructed.endsVisibly_ruleText (h : g.Constructed) {r : Rule} (hr : r ∈ g.rules) :
    EndsVisibly (g.ruleText r) := by
  have hne := h.wellFormed.alternatives_ne_nil r hr
  refine (endsVisibly_intercalate (by simpa using hne) fun s hs => ?_).append _
  obtain ⟨rhs, hrhs, rfl⟩ := List.mem_map.mp (List.mem_of_getLast? hs)
  have hp : (⟨r.lhs, rhs⟩ : Production) ∈ g.productions := mem_productions.mpr ⟨r, hr, rfl, hrhs⟩
  have hsymbols := h.endsVisibly_symbolsText hp
  exact hsymbols

end Grammar

/-! ## The lines of each section -/

section Sections

variable (hg : Grammar.ofFile text = .ok g)

include hg

/-- **The lines of a grammar** end with symbols. -/
theorem Grammar.isVisibleLine_of_mem_lines : ∀ line ∈ g.lines, IsVisibleLine line :=
  List.forall_mem_map.mpr fun r hr =>
    ⟨isLine_ruleText hg r, (Constructed.ofFile hg).endsVisibly_ruleText hr⟩

omit hg in
theorem Grammar.Constructed.lines_ne_nil (h : g.Constructed) : g.lines ≠ [] := by
  have hrule := (h.wellFormed.mem_lhs g.start).mpr h.wellFormed.start_declared
  obtain ⟨r, hr, -⟩ := List.mem_map.mp hrule
  exact List.ne_nil_of_mem (List.mem_map_of_mem hr)

theorem Grammar.isVisibleLine_of_mem_setLines (setOf : Nonterminal → TerminalSet) :
    ∀ line ∈ g.setLines setOf, IsVisibleLine line := by
  refine List.forall_mem_map.mpr fun x _ => ⟨?_, (endsVisibly_setText _).append _⟩
  simp +decide [isLine_nonterminalName hg, isLine_setText hg]

namespace LookaheadAnalysis

omit hg in
/-- Every production is listed with its SELECT set. -/
theorem selectLines_eq (g : Grammar) : (ofGrammar g).selectLines = g.productions.map fun p =>
    "  " ++ g.productionText p ++ ": " ++ g.setText (g.select p) := by
  show List.zipWith _ g.productions (g.productions.map g.select) = _
  rw [List.zipWith_map_right, List.zipWith_self]
  rfl

theorem isVisibleLine_of_mem_selectLines :
    ∀ line ∈ (ofGrammar g).selectLines, IsVisibleLine line := by
  rw [selectLines_eq]
  refine List.forall_mem_map.mpr fun p _ => ⟨?_, (Grammar.endsVisibly_setText _).append _⟩
  simp +decide [Grammar.isLine_productionText hg, Grammar.isLine_setText hg]

/-- A conflict is on a lookahead, with which its description ends. -/
theorem isVisibleLine_verdictLine : IsVisibleLine (ofGrammar g).verdictLine := by
  unfold verdictLine
  split
  · exact ⟨by decide, by decide⟩
  · next c hc =>
    have hmem : c ∈ (ofGrammar g).conflicts := List.mem_of_mem_head? hc
    have hne := ((Grammar.Constructed.ofFile hg).wellFormed.mem_all_iff.mp hmem).ne_nil
    have hnames : IsLine (", ".intercalate (c.lookaheads.map fun t => quoted (g.terminalName t))) :=
      isLine_intercalate (by decide) (List.forall_mem_map.mpr fun t _ => by
        simp [Grammar.isLine_terminalName hg])
    constructor
    · show IsLine ("LL(1): no, " ++ c.description g)
      simp +decide [Conflict.description, Grammar.isLine_productionTextAt hg, hnames]
    · refine ((endsVisibly_intercalate (by simpa using hne) fun s hs => ?_).append _).append _
      obtain ⟨t, -, rfl⟩ := List.mem_map.mp (List.mem_of_getLast? hs)
      exact (by decide : EndsVisibly "`").append _

theorem isVisibleLine_of_mem_reportLines :
    ∀ line ∈ (ofGrammar g).reportLines, IsVisibleLine line := by
  unfold reportLines
  simp only [List.forall_mem_append, List.forall_mem_cons]
  refine ⟨⟨⟨⟨⟨by decide, by decide⟩, ?_⟩, ⟨by decide, by decide⟩, ?_⟩,
    ⟨by decide, by decide⟩, ?_⟩, ?_⟩
  · exact Grammar.isVisibleLine_of_mem_setLines hg _
  · exact Grammar.isVisibleLine_of_mem_setLines hg _
  · exact isVisibleLine_of_mem_selectLines hg
  · exact ⟨isVisibleLine_verdictLine hg, nofun⟩

end LookaheadAnalysis

/-- **The lines of a parsing table** end with the symbols of a production. -/
theorem ParsingTable.isVisibleLine_of_mem_lines :
    ∀ line ∈ (ofSelect g (LookaheadAnalysis.ofGrammar g).select).lines g, IsVisibleLine line := by
  refine List.forall_mem_map.mpr fun e he => ?_
  obtain ⟨p, hp, -, -⟩ := Grammar.mem_entries_ofSelect.mp he
  have hproduction : g.productionTextAt e.production = g.productionText p := by
    rw [Grammar.productionTextAt, hp, Option.map_some, Option.getD_some]
  rw [hproduction]
  constructor
  · simp +decide [Grammar.isLine_nonterminalName hg, Grammar.isLine_terminalName hg,
      Grammar.isLine_productionText hg]
  · have hmem := List.mem_of_getElem? hp
    exact (((Grammar.Constructed.ofFile hg).endsVisibly_symbolsText hmem).append _).append _

theorem ParseStep.isLine_line (step : ParseStep) : IsLine (step.line g) := by
  cases step with
  | expand x n => simp +decide [line, Grammar.isLine_productionTextAt hg]
  | matched t => simp +decide [line, Grammar.isLine_terminalName hg]
  | accept => exact (by decide : IsLine "accept")

omit hg in
/-- A step is named at the beginning of its line. -/
theorem ParseStep.isBlankLine_line (step : ParseStep) : isBlankLine (step.line g) = false := by
  cases step with
  | expand x n => rw [line, isBlankLine_append]; rfl
  | matched t => rw [line, isBlankLine_append]; rfl
  | accept => exact (by decide : isBlankLine "accept" = false)

namespace PrecedenceMatrix

omit hg in
/-- **A line of the grid is blank** if its head and its cells are. -/
theorem isBlankLine_gridLine (width : Nat) (head : String) (cells : List String) :
    isBlankLine (gridLine width head cells) = (isBlankLine head && cells.all isBlankLine) := by
  have hcells : (isBlankLine ∘ fun cell => " " ++ alignRight width cell) = isBlankLine := by
    funext cell
    rw [Function.comp_apply, alignRight, isBlankLine_append, isBlankLine_append,
      isBlankLine_spaces, Bool.true_and]
    rfl
  rw [gridLine, isBlankLine_trimmedEnd, isBlankLine_append, isBlankLine_append, alignLeft,
    isBlankLine_append, isBlankLine_spaces, isBlankLine_join, List.all_map, Bool.and_true,
    hcells]
  rfl

/-- **A grid has no blank line** if it has rows; the line of the column heads is
blank if there are none. -/
theorem forall_mem_gridLines_iff {m : PrecedenceMatrix}
    (hm : (PrecedenceAnalysis.ofGrammar g).matrix? = some m) :
    (∀ line ∈ m.gridLines g, isBlankLine line = false) ↔ m.terminals ≠ [] := by
  have hwords : ∀ t ∈ m.terminals, isBlankLine (g.terminalName t) = false := fun t ht =>
    (isWord_of_mem_terminals hg hm ht).isBlankLine_eq
  rw [gridLines, List.forall_mem_cons, List.forall_mem_map]
  simp only [isBlankLine_gridLine]
  constructor
  · rintro ⟨hheader, -⟩ hnil
    rw [hnil] at hheader
    cases hheader
  · intro hne
    obtain ⟨t, ht⟩ := List.exists_mem_of_ne_nil _ hne
    refine ⟨?_, fun l hl => by rw [hwords l hl, Bool.false_and]⟩
    rw [Bool.and_eq_false_iff, List.all_eq_false]
    exact Or.inr ⟨_, List.mem_map_of_mem ht, by simp [hwords t ht]⟩

end PrecedenceMatrix

namespace PrecedenceAnalysis

/-- The verdict is described in one line. -/
theorem isVisibleLine_description (v : PrecedenceVerdict) :
    IsVisibleLine ("operator precedence: no, " ++ v.description g) := by
  cases v with
  | operatorPrecedence =>
    exact ⟨isLine_append.mpr ⟨by decide, (by decide : IsLine "operator-precedence grammar")⟩,
      (by decide : EndsVisibly "operator-precedence grammar").append _⟩
  | misshapen fault =>
    cases fault with
    | adjacentNonterminals n position =>
      constructor
      · simp +decide [PrecedenceVerdict.description, ShapeFault.description,
          Grammar.isLine_productionTextAt hg, Grammar.isLine_symbolsText hg]
      · exact ((by decide : EndsVisibly "`").append _).append _ |>.append _
    | epsilonProduction n =>
      constructor
      · simp +decide [PrecedenceVerdict.description, ShapeFault.description,
          Grammar.isLine_productionTextAt hg]
      · exact ((by decide : EndsVisibly " is an epsilon production").append _).append _
  | contradictory c =>
    have hsign : ∀ relation : Relation, IsLine relation.sign := by
      rintro (_ | _ | _) <;> decide
    constructor
    · simp +decide [PrecedenceVerdict.description, Contradiction.description, hsign,
        Grammar.isLine_productionTextAt hg, Grammar.isLine_terminalName hg]
    · exact ((by decide : EndsVisibly "`").append _).append _ |>.append _

/-- The lines of FIRSTVT and LASTVT end with sets. -/
theorem isVisibleLine_of_mem_edgeLines : ∀ line ∈ (ofGrammar g).edgeLines, IsVisibleLine line := by
  unfold edgeLines
  split
  · nofun
  · rw [grammar_ofGrammar]
    simp only [List.forall_mem_append, List.forall_mem_cons]
    exact ⟨⟨⟨by decide, by decide⟩, Grammar.isVisibleLine_of_mem_setLines hg _⟩,
      ⟨by decide, by decide⟩, Grammar.isVisibleLine_of_mem_setLines hg _⟩

omit hg in
theorem reportLines_of_some {m : PrecedenceMatrix} (hm : (ofGrammar g).matrix? = some m) :
    (ofGrammar g).reportLines
      = (ofGrammar g).edgeLines ++ ("MATRIX" :: m.gridLines g ++ ["operator precedence: yes"]) := by
  simp only [reportLines, hm, grammar_ofGrammar]

omit hg in
theorem reportLines_of_none (hm : (ofGrammar g).matrix? = none) :
    (ofGrammar g).reportLines = (ofGrammar g).edgeLines
      ++ ["operator precedence: no, " ++ (ofGrammar g).verdict.description g] := by
  simp only [reportLines, hm, grammar_ofGrammar]

theorem isLine_of_mem_reportLines : ∀ line ∈ (ofGrammar g).reportLines, IsLine line := by
  have hedges : ∀ line ∈ (ofGrammar g).edgeLines, IsLine line := fun line hline =>
    (isVisibleLine_of_mem_edgeLines hg line hline).isLine
  cases hm : (ofGrammar g).matrix? with
  | none =>
    rw [reportLines_of_none hm]
    exact List.forall_mem_append.mpr
      ⟨hedges, List.forall_mem_singleton.mpr (isVisibleLine_description hg _).isLine⟩
  | some m =>
    rw [reportLines_of_some hm]
    refine List.forall_mem_append.mpr ⟨hedges, List.forall_mem_append.mpr ⟨?_, ?_⟩⟩
    · exact List.forall_mem_cons.mpr ⟨by decide, PrecedenceMatrix.isLine_of_mem_gridLines hg hm⟩
    · exact List.forall_mem_singleton.mpr (by decide)

theorem linesEndVisibly_reportLines : LinesEndVisibly (ofGrammar g).reportLines := by
  cases hm : (ofGrammar g).matrix? with
  | none =>
    rw [reportLines_of_none hm]
    exact linesEndVisibly_concat (isVisibleLine_description hg _).endsVisibly _
  | some m =>
    rw [reportLines_of_some hm, ← List.append_assoc]
    exact linesEndVisibly_concat (by decide) _

/-- **The report of a precedence analysis is a paragraph** unless it prints a
matrix without rows. -/
theorem isParagraph_reportLines_iff : IsParagraph (ofGrammar g).reportLines
    ↔ ∀ m, (ofGrammar g).matrix? = some m → m.terminals ≠ [] := by
  have hedges : ∀ line ∈ (ofGrammar g).edgeLines, isBlankLine line = false := fun line hline =>
    (isVisibleLine_of_mem_edgeLines hg line hline).endsVisibly.isBlankLine_eq
  cases hm : (ofGrammar g).matrix? with
  | none =>
    rw [reportLines_of_none hm]
    refine iff_of_true ⟨by simp, List.forall_mem_append.mpr ⟨hedges, ?_⟩⟩ nofun
    exact List.forall_mem_singleton.mpr
      (isVisibleLine_description hg _).endsVisibly.isBlankLine_eq
  | some m =>
    have hrows : (∀ m', some m = some m' → m'.terminals ≠ []) ↔ m.terminals ≠ [] := by simp
    rw [reportLines_of_some hm, hrows, ← PrecedenceMatrix.forall_mem_gridLines_iff hg hm]
    constructor
    · rintro ⟨-, hvisible⟩ line hline
      exact hvisible line (List.mem_append_right _ (List.mem_append_left _ (.tail _ hline)))
    · intro hgrid
      refine ⟨by simp, List.forall_mem_append.mpr ⟨hedges, List.forall_mem_append.mpr ⟨?_, ?_⟩⟩⟩
      · exact List.forall_mem_cons.mpr ⟨by decide, hgrid⟩
      · exact List.forall_mem_singleton.mpr (by decide)

end PrecedenceAnalysis

end Sections

end GrammarAnalysis
