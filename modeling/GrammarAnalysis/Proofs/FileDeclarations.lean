import GrammarAnalysis.Proofs.FileReading

/-!
# What a grammar file declares

A grammar file is another way to write four lists. The words of all
directives of one name are one list, and the statements that are no
directives are another. Nothing else of the file counts: its grammar is that
of the four lists, and so is the fault that is reported, but for its place
(`Grammar.ofFile_exact`).

Faults are reported in stages. Directives are checked to the end of the file,
whatever is declared. Then the symbols are, and only after them it is noticed
that there is no start symbol. Each stage reports its first defect, and
`Reports` says that there is only one.

Places have no part in what is read: `Declarations.toGrammar` commutes with
forgetting them, check by check (`toGrammar_declarations`).
-/

namespace GrammarAnalysis

/-! ## Places -/

/-- An error without its place. -/
def GrammarError.withoutSpan (e : GrammarError) : GrammarError :=
  ⟨e.fault, none⟩

/-- A text that stands in no file, taken as it is. -/
def Declared.placeless (text : String) : Declared :=
  ⟨text, none⟩

@[simp] theorem Declared.text_placeless (text : String) : (placeless text).text = text := rfl

theorem Declared.map_text_placeless (l : List String) :
    (l.map placeless).map Declared.text = l := by
  rw [List.map_map]
  exact List.map_id l

/-- **Texts as declarations** that stand in no file. -/
def Texts.declarations (w : Texts) : Declarations where
  nonterminals := w.nonterminals.map Declared.placeless
  terminals := w.terminals.map Declared.placeless
  productions := w.productions.map Declared.placeless
  start := w.start.map Declared.placeless

theorem mapError_bind {ε α β : Type} (f : ε → ε) (x : Except ε α) (k : α → Except ε β) :
    (x >>= k).mapError f = x.mapError f >>= fun a => (k a).mapError f := by
  cases x <;> rfl

namespace Declarations

open Declared (placeless text_placeless map_text_placeless)
open GrammarError (withoutSpan)

theorem checkKind_withoutSpan (clash : String → Prop) [DecidablePred clash]
    (earlier : List String) (l : List Declared) : (checkKind clash earlier l).mapError withoutSpan
      = checkKind clash earlier ((l.map Declared.text).map placeless) := by
  induction l generalizing earlier with
  | nil => rfl
  | cons d l ih =>
    rw [List.map_cons, List.map_cons, checkKind_cons, checkKind_cons, text_placeless]
    cases refusal? clash earlier d.text with
    | some fault => rfl
    | none => exact ih _

theorem startSymbol_withoutSpan (nonterminals : List String) (start? : Option Declared) :
    (startSymbol nonterminals start?).mapError withoutSpan
      = startSymbol nonterminals ((start?.map Declared.text).map placeless) := by
  cases start? with
  | none => rfl
  | some d =>
    unfold startSymbol
    simp only [Option.map_some, text_placeless]
    cases nonterminals.idxOf? d.text with
    | none => rfl
    | some i => rfl

theorem readRules_withoutSpan (nonterminal? : String → Option Nonterminal)
    (symbol? : String → Option Symbol) (earlier : List Nonterminal) (l : List Declared) :
    (readRules nonterminal? symbol? earlier l).mapError withoutSpan
      = readRules nonterminal? symbol? earlier ((l.map Declared.text).map placeless) := by
  induction l generalizing earlier with
  | nil => rfl
  | cons d l ih =>
    rw [List.map_cons, List.map_cons, readRules, readRules, text_placeless]
    cases readRule nonterminal? symbol? earlier d.text with
    | error fault => rfl
    | ok r =>
      simp only
      rw [← ih, mapError_bind]
      rfl

theorem checkRules_withoutSpan (rules : List Rule) (index : Nat) (l : List Declared) :
    (checkRules rules index l).mapError withoutSpan
      = checkRules rules index ((l.map Declared.text).map placeless) := by
  induction l generalizing index with
  | nil => rfl
  | cons d l ih =>
    rw [List.map_cons, List.map_cons, checkRules, checkRules]
    split
    · exact ih _
    · rfl

/-- **Places have no part in what is read.** -/
theorem toGrammar_declarations (d : Declarations) :
    d.texts.declarations.toGrammar = d.toGrammar.mapError withoutSpan := by
  unfold toGrammar
  simp only [mapError_bind, checkNonterminals_eq_checkKind, checkTerminals_eq_checkKind,
    checkKind_withoutSpan, startSymbol_withoutSpan, readRules_withoutSpan, checkRules_withoutSpan]
  simp only [Texts.declarations, texts, map_text_placeless]
  rfl

end Declarations

namespace DirectiveFile

/-! ## The declarations of a file -/

theorem ofFile_of_firstFault? {text : String} {e : GrammarError}
    (h : firstFault? false (lines text) = some e) : Grammar.ofFile text = .error e := by
  unfold Grammar.ofFile declarations
  simp only [h]
  rfl

theorem ofFile_eq_toGrammar {text : String} (h : firstFault? false (lines text) = none) :
    Grammar.ofFile text = (declared (lines text)).toGrammar := by
  unfold Grammar.ofFile declarations
  simp only [h]
  rfl

/-- **What a file declares**, by its statements. -/
theorem texts_declared {text : String} (h : firstFault? false (lines text) = none) :
    (declared (lines text)).texts = ⟨declaredWords "%nonterminals" (statements text),
      declaredWords "%terminals" (statements text), productionLines (statements text),
      (declaredWords "%start" (statements text)).head?⟩ := by
  have hreading := reading_lines text
  unfold Declarations.texts declared
  rw [nonterminalWords_eq_declares, terminalWords_eq_declares,
    hreading.map_declares (by decide), hreading.map_declares (by decide),
    hreading.map_production?, ← hreading.map_declares (by decide : "%start" ∈ _),
    (flatMap_declares_start h).1]
  cases (lines text).findSome? Line.start? with
  | none => rfl
  | some d => rfl

/-- There is at most one word behind the names of start directives. -/
theorem head?_declaredWords_start {text start : String}
    (h : firstFault? false (lines text) = none)
    (hstart : start ∈ declaredWords "%start" (statements text)) :
    (declaredWords "%start" (statements text)).head? = some start := by
  rw [← (reading_lines text).map_declares (by decide), (flatMap_declares_start h).1] at hstart ⊢
  generalize (lines text).findSome? Line.start? = o at hstart ⊢
  cases o with
  | none => cases hstart
  | some d =>
    obtain rfl := List.mem_singleton.mp hstart
    rfl

end DirectiveFile

/-! ## Four lists -/

section FourLists

variable {text line directive word : String} {lines : List String}

theorem trimmed_of_mem_wordsOf (h : word ∈ wordsOf line) : trimmed word = word := by
  obtain ⟨chars, hchars, rfl⟩ := List.mem_map.mp h
  obtain ⟨-, before, after, -, hbetween⟩ := mem_wordsBy_iff.mp hchars
  refine trimmed_eq_self ?_
  rw [String.toList_ofList]
  exact isTight_of_forall hbetween.free

theorem trimmed_of_mem_statements (h : line ∈ statements text) : trimmed line = line := by
  obtain ⟨chars, -, rfl⟩ := List.mem_map.mp (List.mem_filter.mp h).1
  refine trimmed_eq_self ?_
  rw [trimmed, String.toList_ofList]
  exact isTight_trimWhere isBlank _

theorem trimmed_of_mem_declaredWords (h : word ∈ declaredWords directive lines) :
    trimmed word = word := by
  obtain ⟨line, -, hword⟩ := List.mem_flatMap.mp h
  split at hword
  · exact trimmed_of_mem_wordsOf (List.mem_of_mem_tail hword)
  · cases hword

/-- **Trimmed texts** are declared as they are. -/
theorem ofLists_eq_toGrammar {nonterminals terminals productions : List String} {start : String}
    (hnonterminals : ∀ name ∈ nonterminals, trimmed name = name)
    (hterminals : ∀ name ∈ terminals, trimmed name = name)
    (hproductions : ∀ line ∈ productions, trimmed line = line) (hstart : trimmed start = start) :
    Grammar.ofLists nonterminals terminals productions start
      = (Texts.mk nonterminals terminals productions (some start)).declarations.toGrammar := by
  have hlist : ∀ l : List String, (∀ text ∈ l, trimmed text = text) →
      l.map Declared.ofText = l.map Declared.placeless := fun l hl =>
    List.map_congr_left fun text htext => by rw [Declared.ofText, hl text htext]; rfl
  unfold Grammar.ofLists Declarations.ofLists Texts.declarations
  rw [hlist _ hnonterminals, hlist _ hterminals, hlist _ hproductions, Declared.ofText, hstart]
  rfl

/-- **A start line that is not bad** has one word. -/
theorem Flawless.wordsOf_eq (h : Flawless BadDirective lines) (hline : line ∈ lines)
    (hstart : (wordsOf line).head? = some "%start") :
    ∃ start, wordsOf line = ["%start", start] ∧ start ∈ declaredWords "%start" lines := by
  obtain ⟨before, after, hlines⟩ := List.append_of_mem hline
  have hgood := h before line after hlines
  obtain ⟨words, hwords⟩ := List.head?_eq_some_iff.mp hstart
  simp only [BadDirective.start_iff hwords] at hgood
  have hfirst : ¬ HasStart before := fun hbefore => hgood _ (Or.inl ⟨hbefore, rfl⟩)
  match words with
  | [] => exact absurd (Or.inr ⟨hfirst, Or.inl ⟨rfl, rfl⟩⟩) (hgood .missingStart)
  | [start] =>
    refine ⟨start, hwords, List.mem_flatMap.mpr ⟨line, hline, ?_⟩⟩
    rw [if_pos hstart, hwords]
    exact List.mem_singleton_self start
  | word :: extra :: rest =>
    exact absurd (Or.inr ⟨hfirst, Or.inr ⟨word, extra, rest, rfl, rfl⟩⟩)
      (hgood (.extraStartSymbol extra))

end FourLists

/-! ## The two ways to declare a grammar -/

/-- **One fault is described, and it is what is reported.** -/
def Reports (result : Except GrammarError Grammar) (described : Fault → Prop) : Prop :=
  ∃ fault, result = .error ⟨fault, none⟩ ∧ ∀ other, described other ↔ other = fault

/-- Where each fault that is described would be reported, there is only one. -/
theorem Reports.of_forall {result : Except GrammarError Grammar} {described : Fault → Prop}
    (hexists : ∃ fault, described fault)
    (h : ∀ fault, described fault → result = .error ⟨fault, none⟩) : Reports result described := by
  obtain ⟨fault, hfault⟩ := hexists
  refine ⟨fault, h fault hfault, fun other => ⟨fun hother => ?_, fun heq => heq ▸ hfault⟩⟩
  have herror := (h other hother).symm.trans (h fault hfault)
  exact congrArg GrammarError.fault (Except.error.inj herror)

/-- **A grammar file says what four lists say.** If a directive is bad, the
first one is reported, whatever is declared. Otherwise a start line has one
word, and the file is read as the words of its directives and its other
statements are as lists, or refused for the same fault. Without a start line
the first defect of the symbols is reported, and if there is none, that the
start symbol is missing. -/
theorem Grammar.ofFile_exact (text : String) :
    let lines := statements text
    let nonterminals := declaredWords "%nonterminals" lines
    let terminals := declaredWords "%terminals" lines
    let result := (Grammar.ofFile text).mapError GrammarError.withoutSpan
    (¬ Flawless BadDirective lines → Reports result (FirstDefect BadDirective lines))
      ∧ (Flawless BadDirective lines →
        (∀ line ∈ lines, (wordsOf line).head? = some "%start" → ∃ start,
          wordsOf line = ["%start", start]
            ∧ result = Grammar.ofLists nonterminals terminals (productionLines lines) start)
        ∧ (¬ HasStart lines → Reports result (SymbolFault nonterminals terminals))) := by
  intro lines nonterminals terminals result
  have hnone : (false = true ↔ HasStart []) := by simp [HasStart]
  obtain ⟨herror, hok⟩ := (DirectiveFile.reading_lines text).firstFault?_of_defects hnone
  refine ⟨fun h => .of_forall (exists_firstDefect h) fun fault hfault => ?_, fun h => ?_⟩
  · obtain ⟨span, hspan⟩ := herror fault hfault
    show (Grammar.ofFile text).mapError _ = _
    rw [DirectiveFile.ofFile_of_firstFault? hspan]
    rfl
  have hfirst := hok h
  have htexts := DirectiveFile.texts_declared hfirst
  have hresult : result = (DirectiveFile.declared (DirectiveFile.lines text)).toGrammar.mapError
      GrammarError.withoutSpan := by
    show (Grammar.ofFile text).mapError _ = _
    rw [DirectiveFile.ofFile_eq_toGrammar hfirst]
  refine ⟨fun line hline hhead => ?_, fun hstart =>
    .of_forall (exists_symbolFault nonterminals terminals) fun fault hfault => ?_⟩
  · obtain ⟨start, hwords, hmem⟩ := h.wordsOf_eq hline hhead
    refine ⟨start, hwords, ?_⟩
    rw [hresult, ← Declarations.toGrammar_declarations, htexts,
      DirectiveFile.head?_declaredWords_start hfirst hmem]
    refine (ofLists_eq_toGrammar (fun _ => trimmed_of_mem_declaredWords)
      (fun _ => trimmed_of_mem_declaredWords) (fun production hproduction => ?_)
      (trimmed_of_mem_declaredWords hmem)).symm
    exact trimmed_of_mem_statements (List.mem_filter.mp hproduction).1
  · have hwords : declaredWords "%start" lines = [] := by
      refine List.flatMap_eq_nil_iff.mpr fun line hline => ?_
      rw [if_neg fun hhead => hstart ⟨line, hline, hhead⟩]
    have hnostart : (DirectiveFile.declared (DirectiveFile.lines text)).start = none := by
      have hmap := congrArg Texts.start htexts
      rw [show declaredWords "%start" (statements text) = [] from hwords] at hmap
      exact Option.map_eq_none_iff.mp hmap
    obtain ⟨span, herror⟩ := @Declarations.toGrammar_of_symbolFault _ fault hnostart (by
      rw [htexts]
      exact hfault)
    rw [hresult, herror]
    rfl

/-- A file of the grammar of brackets, its directives in any order. -/
def scattered : String :=
  "S -> (S)S|NULL|L\n%start  S\n // loop\n%nonterminals S\n%terminals ( )\n\n%nonterminals L\nL->L"

/-- The scattered file is read as four lists. In a file with two start lines
the second one is reported, though it has no word and a nonterminal is
declared twice before it. -/
theorem Grammar.ofFile_exact_scattered :
    (Grammar.ofFile scattered).mapError GrammarError.withoutSpan
        = Grammar.ofLists ["S", "L"] ["(", ")"] ["S -> (S)S|NULL|L", "L->L"] "S"
      ∧ (Grammar.ofFile "%nonterminals S S\n%start S\n%start").mapError GrammarError.withoutSpan
        = .error ⟨.duplicateStart, none⟩ := by
  constructor
  · have hread : (Grammar.ofFile scattered).toOption = some brackets := by decide +kernel
    obtain ⟨hbad, hgood⟩ := Grammar.ofFile_exact scattered
    have hflawless : Flawless BadDirective (statements scattered) := by
      by_contra h
      obtain ⟨fault, herror, -⟩ := hbad h
      rw [eq_ok_of_toOption hread] at herror
      cases herror
    obtain ⟨start, hwords, heq⟩ :=
      (hgood hflawless).1 "%start  S" (by decide +kernel) (by decide +kernel)
    have hstart : start = "S" := by
      have hline : wordsOf "%start  S" = ["%start", "S"] := by decide +kernel
      simpa using hwords.symm.trans hline
    have hlists : declaredWords "%nonterminals" (statements scattered) = ["S", "L"]
        ∧ declaredWords "%terminals" (statements scattered) = ["(", ")"]
        ∧ productionLines (statements scattered) = ["S -> (S)S|NULL|L", "L->L"] := by
      decide +kernel
    rw [heq, hlists.1, hlists.2.1, hlists.2.2, hstart]
  · have hlines : statements "%nonterminals S S\n%start S\n%start"
        = ["%nonterminals S S", "%start S", "%start"] := by decide +kernel
    have hfirst : ∀ fault, ¬ BadDirective [] "%nonterminals S S" fault := fun fault h => by
      obtain ⟨name, -, -, hname, hunknown⟩ | hstart := h.head?_eq
      · obtain rfl : "%nonterminals" = name := Option.some.inj hname
        exact hunknown (by decide)
      · exact absurd hstart (by decide +kernel)
    have hsecond : ∀ fault, ¬ BadDirective ["%nonterminals S S"] "%start S" fault := by
      intro fault h
      have hwords : wordsOf "%start S" = ["%start", "S"] := by decide +kernel
      rw [BadDirective.start_iff hwords] at h
      have hnone : ¬ HasStart ["%nonterminals S S"] := by
        rintro ⟨line, hline, hstart⟩
        rw [List.mem_singleton.mp hline] at hstart
        exact absurd hstart (by decide +kernel)
      simp [hnone] at h
    have hdefect : FirstDefect BadDirective
        (statements "%nonterminals S S\n%start S\n%start") .duplicateStart := by
      rw [hlines]
      refine ⟨["%nonterminals S S", "%start S"], "%start", [], rfl, ?_, ?_⟩
      · exact flawless_cons.mpr ⟨hfirst, flawless_cons.mpr ⟨hsecond, flawless_nil _⟩⟩
      · exact .duplicate (by decide +kernel) ⟨"%start S", by simp, by decide +kernel⟩
    obtain ⟨hbad, -⟩ := Grammar.ofFile_exact "%nonterminals S S\n%start S\n%start"
    obtain ⟨fault, herror, hunique⟩ :=
      hbad fun h => flawless_iff_forall_not_firstDefect.mp h _ hdefect
    rw [herror, ← (hunique _).mp hdefect]

end GrammarAnalysis
