import GrammarAnalysis.Proofs.Acceptance
import GrammarAnalysis.Proofs.FileStatements

/-!
# Where an error points

An error in a grammar file has a span, and this module says what the bytes
of the span are. Every fault is either about a whole statement of the file
or about one word of a directive. `Fault.PointsAt` says which, fault by
fault: a symbol that is declared twice is pointed at where it stands again,
a clash of the two kinds of symbols at the terminal, and a fault of a
production at all of its line.

The proof follows the pieces from the file to the error. Faults of
directives are found line by line, and point at the line or a word of it.
All other faults are found among the declarations, which stand in the file
(`DirectiveFile.Stand`): a check fails at one of them and reports its span.
Only what is not there has none, and that is a start symbol in a file
without a start line.
-/

namespace GrammarAnalysis

/-! ## What a fault points at -/

/-- **What a fault points at**: the piece of the text at its span. -/
def Fault.PointsAt (text piece : String) (span : Span) : Fault → Prop
  | missingArrow production => piece = production ∧ IsProductionLine text piece span
      ∧ ¬ arrow <:+: piece.toList
  | emptyLhs production => piece = production ∧ IsProductionLine text piece span
      ∧ ∃ alternatives, IsProductionText piece "" alternatives
  | emptyAlternative lhs => IsProductionLine text piece span
      ∧ ∃ alternatives, IsProductionText piece lhs alternatives
        ∧ ∃ alternative ∈ alternatives, segment alternative = []
  | epsilonMixed alternative => IsProductionLine text piece span
      ∧ alternative.toList <:+: piece.toList
      ∧ ∃ lhs alternatives, IsProductionText piece lhs alternatives ∧ alternative ∈ alternatives
  | unknownSymbol name => IsProductionLine text piece span ∧ name.toList <:+: piece.toList
      ∧ ∃ lhs alternatives, IsProductionText piece lhs alternatives
        ∧ ∃ alternative ∈ alternatives, name ∈ segment alternative
  | notNonterminal lhs | duplicateProduction lhs => IsProductionLine text piece span
      ∧ ∃ alternatives, IsProductionText piece lhs alternatives
  | missingProductions name => piece = name ∧ IsDeclaredBy text "%nonterminals" name span
  | duplicateSymbol name => piece = name
      ∧ ∃ directive, (directive = "%nonterminals" ∨ directive = "%terminals")
        ∧ IsDeclaredBy text directive name span
        ∧ ∃ earlier, IsDeclaredBy text directive name earlier ∧ earlier.stop ≤ span.start
  | ambiguousSymbol name => piece = name
      ∧ ((IsDeclaredBy text "%terminals" name span
          ∧ ∃ other, IsDeclaredBy text "%nonterminals" name other)
        ∨ (name = epsilonName ∧ IsDeclaredBy text "%nonterminals" name span))
  | reservedSymbol name => piece = name ∧ name = endMarkerName
      ∧ (IsDeclaredBy text "%nonterminals" name span ∨ IsDeclaredBy text "%terminals" name span)
  | startNotNonterminal name | extraStartSymbol name => piece = name
      ∧ IsDeclaredBy text "%start" name span
  | missingStart | duplicateStart => IsStatement text piece span
      ∧ (wordsOf piece).head? = some "%start"
  | unknownDirective word => piece = word ∧ word ∉ ["%nonterminals", "%terminals", "%start"]
      ∧ ∃ line lineSpan, IsStatement text line lineSpan ∧ (wordsOf line).head? = some word
        ∧ word.toList <+: line.toList ∧ span = Span.behind lineSpan.start [] word.toList

namespace DirectiveFile

variable {text : String}

/-! ## Faults of directives -/

/-- **What is wrong with a line of directives.** A start line may be a
second one whatever its words are. -/
inductive Faulty : Line → GrammarError → Prop
  | unknown (name : Declared) : Faulty (.unknown name) ⟨.unknownDirective name.text, name.span⟩
  | duplicate (line : Declared) (words : List Declared) :
    Faulty (.start line words) ⟨.duplicateStart, line.span⟩
  | missing (line : Declared) : Faulty (.start line []) ⟨.missingStart, line.span⟩
  | extra (line word extra : Declared) (rest : List Declared) :
    Faulty (.start line (word :: extra :: rest)) ⟨.extraStartSymbol extra.text, extra.span⟩

theorem exists_faulty_of_firstFault? {started : Bool} {ls : List Line} {e : GrammarError}
    (h : firstFault? started ls = some e) : ∃ l ∈ ls, Faulty l e := by
  have hlater : ∀ {l₀ : Line} {ls : List Line}, (∃ l ∈ ls, Faulty l e) →
      ∃ l ∈ l₀ :: ls, Faulty l e := fun ⟨l, hl, hfaulty⟩ =>
    ⟨l, List.mem_cons_of_mem _ hl, hfaulty⟩
  fun_induction firstFault? started ls with
  | case1 => cases h
  | case2 started name rest =>
    obtain rfl := Option.some.inj h
    exact ⟨_, List.mem_cons_self, .unknown name⟩
  | case3 line words rest =>
    obtain rfl := Option.some.inj h
    exact ⟨_, List.mem_cons_self, .duplicate line words⟩
  | case4 started line rest =>
    obtain rfl := Option.some.inj h
    exact ⟨_, List.mem_cons_self, .missing line⟩
  | case5 started line rest _ word ih => exact hlater (ih h)
  | case6 started line rest _ word extra words =>
    obtain rfl := Option.some.inj h
    exact ⟨_, List.mem_cons_self, .extra line word extra words⟩
  | case7 started l rest _ _ ih => exact hlater (ih h)

/-- Where no directive is bad, a start line has one word. -/
theorem eq_singleton_of_firstFault? {started : Bool} {ls : List Line}
    (h : firstFault? started ls = none) {line : Declared} {words : List Declared}
    (hmem : Line.start line words ∈ ls) : ∃ word, words = [word] := by
  fun_induction firstFault? started ls with
  | case1 => cases hmem
  | case2 => cases h
  | case3 => cases h
  | case4 => cases h
  | case5 started line' rest _ word ih =>
    obtain heq | hmem := List.mem_cons.mp hmem
    · exact ⟨word, (Line.start.inj heq).2⟩
    · exact ih h hmem
  | case6 => cases h
  | case7 started l rest _ hstart ih =>
    obtain heq | hmem := List.mem_cons.mp hmem
    · exact absurd heq.symm (hstart line words)
    · exact ih h hmem

/-- **A fault of a directive has a span**, and points at the directive or
at a word of it. -/
theorem pointsAt_of_declarations {e : GrammarError} (h : declarations text = .error e) :
    ∃ piece span, e.span = some span ∧ e.fault.PointsAt text piece span := by
  unfold declarations at h
  split at h
  · next e' hfault =>
    obtain rfl := Except.error.inj h
    obtain ⟨l, hl, hfaulty⟩ := exists_faulty_of_firstFault? hfault
    cases hfaulty with
    | unknown name =>
      obtain ⟨hnot, line, lineSpan, hline, hword, hbegin, hspan⟩ := of_unknown_mem_lines hl
      exact ⟨name.text, _, hspan, rfl, hnot, line, lineSpan, hline, hword, hbegin, rfl⟩
    | duplicate line words =>
      obtain ⟨⟨span, hspan, hline⟩, -⟩ := of_start_mem_lines hl
      exact ⟨line.text, span, hspan, hline⟩
    | missing line =>
      obtain ⟨⟨span, hspan, hline⟩, -⟩ := of_start_mem_lines hl
      exact ⟨line.text, span, hspan, hline⟩
    | extra line word extra rest =>
      obtain ⟨-, hwords⟩ := of_start_mem_lines hl
      obtain ⟨span, hspan, hextra⟩ := hwords extra (by simp)
      exact ⟨extra.text, span, hspan, rfl, hextra⟩
  · cases h

/-! ## Faults of declarations -/

/-- **The declarations of a file** stand in it: the symbols in order, each
among the words of a directive of its kind, the start symbol in a start
line, and the productions in lines of their own. -/
structure Stand (text : String) (d : Declarations) : Prop where
  nonterminals : Listed text "%nonterminals" (Located.ofString text) d.nonterminals
  terminals : Listed text "%terminals" (Located.ofString text) d.terminals
  productions : ∀ c ∈ d.productions, ∃ span, c.span = some span
    ∧ IsProductionLine text c.text span
  start : ∀ c, d.start = some c → ∃ span, c.span = some span
    ∧ IsDeclaredBy text "%start" c.text span
  start_none : d.start = none → ∀ line span, IsStatement text line span →
    (wordsOf line).head? ≠ some "%start"

theorem stand_of_declarations {d : Declarations} (h : declarations text = .ok d) :
    Stand text d := by
  unfold declarations at h
  split at h
  · cases h
  next hnone =>
  obtain rfl := Except.ok.inj h
  unfold declared
  refine ⟨nonterminalWords_eq_declares ▸ listed_flatMap_declares text "%nonterminals",
    terminalWords_eq_declares ▸ listed_flatMap_declares text "%terminals", fun c hc => ?_,
    fun c hc => ?_, ?_⟩
  · obtain ⟨l, hl, hc⟩ := List.mem_filterMap.mp hc
    unfold Line.production? at hc
    split at hc
    · obtain rfl := Option.some.inj hc
      exact of_production_mem_lines hl
    · cases hc
  · obtain ⟨l, hl, hc⟩ := List.exists_of_findSome?_eq_some hc
    unfold Line.start? at hc
    split at hc
    · obtain rfl := Option.some.inj hc
      exact (of_start_mem_lines hl).2 _ List.mem_cons_self
    · cases hc
  · intro hstart line span hline hname
    obtain ⟨c, words, hmem⟩ := exists_start_mem_lines hline hname
    obtain ⟨word, rfl⟩ := eq_singleton_of_firstFault? hnone hmem
    exact absurd (List.findSome?_eq_none_iff.mp hstart _ hmem) (by simp [Line.start?])

end DirectiveFile

/-! ## Parts of a production line -/

/-- The alternatives of a production text stand in it. -/
theorem IsProductionText.infix_of_mem {text lhs alternative : String} {alternatives : List String}
    (h : IsProductionText text lhs alternatives) (hmem : alternative ∈ alternatives) :
    alternative.toList <:+: text.toList := by
  obtain ⟨before, after, htext, -, -, rfl⟩ := h
  obtain ⟨piece, hpiece, rfl⟩ := List.mem_map.mp hmem
  rw [List.splitOn, ← splitWhere_eq_splitOnP] at hpiece
  obtain ⟨left, right, hafter, -⟩ := mem_splitWhere_iff.mp hpiece
  rw [trimmed, String.toList_ofList, String.toList_ofList]
  have hbehind : after <:+: text.toList := ⟨before ++ arrow, [], by simp [htext]⟩
  have hpiece : piece <:+: after := ⟨left, right, hafter.symm⟩
  exact (isInfix_trimWhere isBlank piece).trans (hpiece.trans hbehind)

/-- The symbols of an alternative stand in it. -/
theorem infix_of_mem_segment {name alternative : String} (h : name ∈ segment alternative) :
    name.toList <:+: alternative.toList := by
  obtain ⟨piece, hpiece, rfl⟩ := List.mem_map.mp h
  obtain ⟨word, hword, hpiece⟩ := List.mem_flatMap.mp hpiece
  obtain ⟨-, before, after, heq, -⟩ := mem_wordsBy_iff.mp hword
  have hinfix := List.infix_of_mem_flatten hpiece
  rw [flatten_segmentWord] at hinfix
  rw [String.toList_ofList]
  exact hinfix.trans ⟨before, after, heq.symm⟩

namespace DirectiveFile

variable {text : String} {d : Declarations}

open Declarations in
/-- **A check of symbols that fails** points at one of them. -/
theorem pointsAt_of_checkKind {clash : String → Prop} [DecidablePred clash] {directive : String}
    {l : List Declared} {e : GrammarError}
    (hdirective : directive = "%nonterminals" ∨ directive = "%terminals")
    (hl : Listed text directive (Located.ofString text) l)
    (hclash : ∀ name span, IsDeclaredBy text directive name span → clash name →
      (Fault.ambiguousSymbol name).PointsAt text name span)
    (h : checkKind clash [] l = .error e) :
    ∃ piece span, e.span = some span ∧ e.fault.PointsAt text piece span := by
  obtain ⟨fault, place⟩ := e
  obtain ⟨before, c, after, seen, rfl, hplace, hseen, hrefused⟩ := checkKind_eq_error h
  have hc : c ∈ before ++ c :: after := List.mem_append_right before List.mem_cons_self
  obtain ⟨span, hspan, hdeclared⟩ := hl.exists_isDeclaredBy hc
  refine ⟨c.text, span, hplace.trans hspan, ?_⟩
  have hearlier := hl.pairwise_span
  generalize hname : c.text = name at hdeclared hrefused ⊢
  cases hrefused with
  | empty => exact absurd rfl hdeclared.ne_empty
  | reserved =>
    refine ⟨rfl, rfl, ?_⟩
    obtain rfl | rfl := hdirective
    · exact Or.inl hdeclared
    · exact Or.inr hdeclared
  | ambiguous hname => exact hclash name span hdeclared hname
  | duplicate hmem =>
    -- the same word stands earlier in the list, and so in the file
    obtain hmem | hmem := (hseen name).mp hmem
    · obtain ⟨b, hb, hbname⟩ := List.mem_map.mp hmem
      obtain ⟨earlier, hbspan, hbdeclared⟩ :=
        hl.exists_isDeclaredBy (List.mem_append_left (c :: after) hb)
      have hle := (List.pairwise_append.mp hearlier).2.2 b hb c List.mem_cons_self
        earlier hbspan span hspan
      exact ⟨rfl, directive, hdirective, hdeclared, earlier, hbname ▸ hbdeclared, hle⟩
    · cases hmem

open Declarations in
/-- **A production that is refused** is pointed at by all of its line. -/
theorem pointsAt_of_readRule {nonterminal? : String → Option Nonterminal}
    {symbol? : String → Option Symbol} {seen : List Nonterminal} {line : String} {span : Span}
    {fault : Fault} (hline : IsProductionLine text line span)
    (h : readRule nonterminal? symbol? seen line = .error fault) :
    fault.PointsAt text line span := by
  obtain hsplit | ⟨lhs, alternatives, hcut, hfault⟩ := readRule_eq_error h
  · obtain ⟨rfl, harrow⟩ | ⟨rfl, hempty⟩ := splitProduction_eq_error.mp hsplit
    · exact ⟨rfl, hline, harrow⟩
    · exact ⟨rfl, hline, hempty⟩
  obtain ⟨-, rfl⟩ | ⟨-, -, -, rfl⟩ | ⟨alternative, hmem, halt⟩ := hfault
  · exact ⟨hline, alternatives, hcut⟩
  · exact ⟨hline, alternatives, hcut⟩
  have hinfix := hcut.infix_of_mem hmem
  obtain ⟨rfl, hnil⟩ | ⟨rfl, -⟩ | ⟨name, hname, -, rfl⟩ := readAlternative_eq_error halt
  · exact ⟨hline, alternatives, hcut, alternative, hmem, hnil⟩
  · exact ⟨hline, hinfix, lhs, alternatives, hcut, hmem⟩
  · exact ⟨hline, (infix_of_mem_segment hname).trans hinfix, lhs, alternatives, hcut,
      alternative, hmem, hname⟩

/-- **A fault of declarations has a span**, unless there is no start
symbol, and points at what is declared there. -/
theorem pointsAt_of_toGrammar {e : GrammarError} (hd : Stand text d)
    (h : d.toGrammar = .error e) :
    (d.start = none ∧ e = ⟨.missingStart, none⟩)
      ∨ ∃ piece span, e.span = some span ∧ e.fault.PointsAt text piece span := by
  obtain h | h | ⟨-, h | ⟨start, h | ⟨rules, -, h⟩⟩⟩ := Declarations.toGrammar_eq_error h
  · rw [Declarations.checkNonterminals_eq_checkKind] at h
    exact Or.inr (pointsAt_of_checkKind (Or.inl rfl) hd.nonterminals
      (fun name span hdeclared hname => ⟨rfl, Or.inr ⟨hname, hdeclared⟩⟩) h)
  · rw [Declarations.checkTerminals_eq_checkKind] at h
    refine Or.inr (pointsAt_of_checkKind (Or.inr rfl) hd.terminals ?_ h)
    intro name span hdeclared hname
    obtain ⟨c, hc, rfl⟩ := List.mem_map.mp hname
    obtain ⟨other, -, hother⟩ := hd.nonterminals.exists_isDeclaredBy hc
    exact ⟨rfl, Or.inl ⟨hdeclared, other, hother⟩⟩
  · obtain h | ⟨c, hc, -, rfl⟩ := Declarations.startSymbol_eq_error h
    · exact Or.inl h
    · obtain ⟨span, hspan, hdeclared⟩ := hd.start c hc
      exact Or.inr ⟨c.text, span, hspan, rfl, hdeclared⟩
  · obtain ⟨before, c, after, _, seen, hl, hplace, -, -, hread⟩ :=
      Declarations.readRules_eq_error h
    obtain ⟨span, hspan, hline⟩ := hd.productions c (by simp [hl])
    exact Or.inr ⟨c.text, span, hplace.trans hspan, pointsAt_of_readRule hline hread⟩
  · obtain ⟨i, c, hc, -, rfl⟩ := Declarations.checkRules_eq_error h
    obtain ⟨span, hspan, hdeclared⟩ :=
      hd.nonterminals.exists_isDeclaredBy (List.mem_of_getElem? hc)
    exact Or.inr ⟨c.text, span, hspan, rfl, hdeclared⟩

end DirectiveFile

/-! ## Errors of a file -/

section Errors

variable {text piece : String} {span : Span} {fault : Fault}

/-- The first word of a statement is an excerpt. -/
theorem IsStatement.isExcerpt_first {line word : String} {lineSpan : Span}
    (h : IsStatement text line lineSpan) (hword : (wordsOf line).head? = some word)
    (hbegin : word.toList <+: line.toList) :
    IsExcerpt text word (Span.behind lineSpan.start [] word.toList) := by
  obtain ⟨chars, hchars, rfl⟩ := List.mem_map.mp (List.mem_of_mem_head? hword)
  obtain ⟨hne, _, _, -, hbetween⟩ := mem_wordsBy_iff.mp hchars
  obtain ⟨rest, hrest⟩ := hbegin
  refine h.isExcerpt_of_eq hrest.symm ?_ ?_
  · exact fun hempty => hne (by simpa using congrArg String.toList hempty)
  · rw [String.toList_ofList]
    exact isTight_of_forall hbetween.free

/-- **What a fault points at is an excerpt of the text.** -/
theorem Fault.PointsAt.isExcerpt (h : fault.PointsAt text piece span) :
    IsExcerpt text piece span := by
  cases fault with
  | missingArrow | emptyLhs => exact h.2.1.1.isExcerpt
  | emptyAlternative | epsilonMixed | unknownSymbol | notNonterminal | duplicateProduction =>
    exact h.1.1.isExcerpt
  | missingProductions | startNotNonterminal | extraStartSymbol =>
    obtain ⟨rfl, hdeclared⟩ := h
    exact hdeclared.isExcerpt
  | duplicateSymbol =>
    obtain ⟨rfl, _, -, hdeclared, -⟩ := h
    exact hdeclared.isExcerpt
  | ambiguousSymbol =>
    obtain ⟨rfl, ⟨hdeclared, -⟩ | ⟨-, hdeclared⟩⟩ := h
    · exact hdeclared.isExcerpt
    · exact hdeclared.isExcerpt
  | reservedSymbol =>
    obtain ⟨rfl, -, hdeclared | hdeclared⟩ := h
    · exact hdeclared.isExcerpt
    · exact hdeclared.isExcerpt
  | missingStart | duplicateStart => exact h.1.isExcerpt
  | unknownDirective =>
    obtain ⟨rfl, -, line, lineSpan, hline, hword, hbegin, rfl⟩ := h
    exact hline.isExcerpt_first hword hbegin

/-- **Errors point at the offending text.** An error in a grammar file has
no span if and only if there is no start symbol and no statement begins
with the name of the start directive. Otherwise the span is that of an
excerpt of the text, which is what the fault points at. -/
theorem Grammar.errorSpan_exact {e : GrammarError} (h : Grammar.ofFile text = .error e) :
    (e.span = none ↔ e.fault = .missingStart ∧ ∀ line span, IsStatement text line span →
        (wordsOf line).head? ≠ some "%start")
      ∧ ∀ span, e.span = some span →
        ∃ piece, IsExcerpt text piece span ∧ e.fault.PointsAt text piece span := by
  have hcases : (e = ⟨.missingStart, none⟩ ∧ ∀ line span, IsStatement text line span →
        (wordsOf line).head? ≠ some "%start")
      ∨ ∃ piece span, e.span = some span ∧ e.fault.PointsAt text piece span := by
    obtain h | ⟨d, hd, h⟩ := bind_eq_error.mp h
    · exact Or.inr (DirectiveFile.pointsAt_of_declarations h)
    · have hstand := DirectiveFile.stand_of_declarations hd
      exact (DirectiveFile.pointsAt_of_toGrammar hstand h).imp_left
        (fun ⟨hnone, he⟩ => ⟨he, hstand.start_none hnone⟩)
  obtain ⟨rfl, hnone⟩ | ⟨piece, span, hspan, hpoints⟩ := hcases
  · exact ⟨iff_of_true rfl ⟨rfl, hnone⟩, fun span hspan => by cases hspan⟩
  · refine ⟨iff_of_false (by simp [hspan]) ?_, fun span' hspan' => ⟨piece, ?_⟩⟩
    · rintro ⟨hfault, hnone⟩
      rw [hfault] at hpoints
      exact hnone piece span hpoints.1 hpoints.2
    · obtain rfl := Option.some.inj (hspan.symm.trans hspan')
      exact ⟨hpoints.isExcerpt, hpoints⟩

/-- A file with `é`, of two bytes, in a comment and twice among its
terminals, once behind an ideographic space. -/
def accents : String :=
  "// é\n%nonterminals S\n%terminals\u3000é\n %terminals a é \n%start S\nS->aé\n"

/-- In the file with accents the second `é` that is declared is pointed at,
not the first one and not the one in the comment. -/
theorem Grammar.errorSpan_exact_accents :
    Grammar.ofFile accents = .error ⟨.duplicateSymbol "é", some ⟨52, 54⟩⟩
      ∧ String.Pos.Raw.extract accents ⟨52⟩ ⟨54⟩ = "é"
      ∧ ∃ directive earlier, IsDeclaredBy accents directive "é" earlier ∧ earlier.stop ≤ 52 := by
  have h : Grammar.ofFile accents = .error ⟨.duplicateSymbol "é", some ⟨52, 54⟩⟩ := by
    decide +kernel
  obtain ⟨-, hspan⟩ := Grammar.errorSpan_exact h
  obtain ⟨piece, hexcerpt, rfl, directive, -, -, earlier, hearlier, hle⟩ := hspan ⟨52, 54⟩ rfl
  exact ⟨h, hexcerpt.extract_eq, directive, earlier, hearlier, hle⟩

end Errors

end GrammarAnalysis
