import GrammarAnalysis.Proofs.ProductionText
import GrammarAnalysis.Proofs.WellFormed
import Mathlib.Data.List.Nodup

/-!
# Which declarations are grammars

`Texts.IsGrammar` says what four lists of texts must be like to declare
a grammar, and `Fault.IsPresent` what a fault says about them. Neither
knows in which order the checks are made, that they stop at the first
fault, or how a symbol is looked up.

A declaration is read in one fixed order, so only one of its faults is
reported. Three facts tie the reader to the two descriptions:

* what is read satisfies the first (`isGrammar_of_toGrammar`);
* what is reported satisfies the second (`isPresent_of_toGrammar`);
* no declaration satisfies both (`Fault.IsPresent.not_isGrammar`).

Together they leave no room: a declaration is read exactly when it is a
grammar, since otherwise a fault is reported that it does not have.
-/

namespace GrammarAnalysis

/-! ## What is declared -/

/-- **Declarations as texts**, without their places. -/
structure Texts where
  /-- The nonterminals. -/
  nonterminals : List String
  /-- The terminals. -/
  terminals : List String
  /-- The productions. -/
  productions : List String
  /-- The start symbol. -/
  start : Option String

/-- The texts of declarations. -/
def Declarations.texts (d : Declarations) : Texts where
  nonterminals := d.nonterminals.map Declared.text
  terminals := d.terminals.map Declared.text
  productions := d.productions.map Declared.text
  start := d.start.map Declared.text

namespace Texts

/-- The names of symbols: the declared ones and that of the empty
string. -/
def IsSymbol (w : Texts) (name : String) : Prop :=
  name ∈ w.nonterminals ∨ name ∈ w.terminals ∨ name = epsilonName

/-- **A well-formed alternative** consists of symbols, of which there is
one at least, and the empty string is not one of several. -/
structure IsAlternative (w : Texts) (alternative : String) : Prop where
  ne_nil : segment alternative ≠ []
  isSymbol : ∀ name ∈ segment alternative, w.IsSymbol name
  epsilon_alone : epsilonName ∈ segment alternative → segment alternative = [epsilonName]

/-- Whether the production text at a place is one of `lhs`. -/
def Produces (w : Texts) (n : Nat) (lhs : String) : Prop :=
  ∃ text alternatives, w.productions[n]? = some text ∧ IsProductionText text lhs alternatives

/-- Whether a production text of `lhs` has an alternative. -/
def HasAlternative (w : Texts) (lhs alternative : String) : Prop :=
  ∃ text ∈ w.productions, ∃ alternatives,
    IsProductionText text lhs alternatives ∧ alternative ∈ alternatives

/-- **Which texts declare a grammar.** -/
structure IsGrammar (w : Texts) : Prop where
  nonterminals_nodup : w.nonterminals.Nodup
  nonterminal_ne : ∀ name ∈ w.nonterminals,
    name ≠ "" ∧ name ≠ endMarkerName ∧ name ≠ epsilonName
  terminals_nodup : w.terminals.Nodup
  terminal_ne : ∀ name ∈ w.terminals,
    name ≠ "" ∧ name ≠ endMarkerName ∧ name ∉ w.nonterminals
  start_mem : ∃ name ∈ w.nonterminals, w.start = some name
  lhs_mem : ∀ text ∈ w.productions, ∃ lhs ∈ w.nonterminals, ∃ alternatives,
    IsProductionText text lhs alternatives
  existsUnique_produces : ∀ name ∈ w.nonterminals, ∃! n, w.Produces n name
  isAlternative : ∀ lhs alternative, w.HasAlternative lhs alternative → w.IsAlternative alternative

end Texts

/-- **What a fault says about the texts** in which it is found. The faults
of directives say nothing about lists of texts. -/
def Fault.IsPresent (w : Texts) : Fault → Prop
  | missingArrow text => text ∈ w.productions ∧ ¬ arrow <:+: text.toList
  | emptyLhs text => text ∈ w.productions ∧ ∃ alternatives, IsProductionText text "" alternatives
  | emptyAlternative lhs => ∃ alternative, w.HasAlternative lhs alternative
      ∧ segment alternative = []
  | epsilonMixed alternative => (∃ lhs, w.HasAlternative lhs alternative)
      ∧ epsilonName ∈ segment alternative ∧ segment alternative ≠ [epsilonName]
  | unknownSymbol name => (name = "" ∧ (name ∈ w.nonterminals ∨ name ∈ w.terminals))
      ∨ (¬ w.IsSymbol name
        ∧ ∃ lhs alternative, w.HasAlternative lhs alternative ∧ name ∈ segment alternative)
  | notNonterminal lhs => lhs ∉ w.nonterminals ∧ ∃ n, w.Produces n lhs
  | duplicateProduction lhs => ∃ m n, m < n ∧ w.Produces m lhs ∧ w.Produces n lhs
  | missingProductions name => name ∈ w.nonterminals ∧ ∀ n, ¬ w.Produces n name
  | duplicateSymbol name => 2 ≤ w.nonterminals.count name ∨ 2 ≤ w.terminals.count name
  | ambiguousSymbol name => (name ∈ w.nonterminals ∧ name ∈ w.terminals)
      ∨ (name = epsilonName ∧ name ∈ w.nonterminals)
  | reservedSymbol name => name = endMarkerName ∧ (name ∈ w.nonterminals ∨ name ∈ w.terminals)
  | startNotNonterminal name => w.start = some name ∧ name ∉ w.nonterminals
  | missingStart => w.start = none
  | duplicateStart | extraStartSymbol _ | unknownDirective _ => False

/-! ## Faults and grammars exclude each other -/

namespace Texts.IsGrammar

variable {w : Texts} {name lhs alternative : String}

theorem ne_of_mem (h : w.IsGrammar) (hname : name ∈ w.nonterminals ∨ name ∈ w.terminals) :
    name ≠ "" ∧ name ≠ endMarkerName := by
  obtain hname | hname := hname
  · exact ⟨(h.nonterminal_ne name hname).1, (h.nonterminal_ne name hname).2.1⟩
  · exact ⟨(h.terminal_ne name hname).1, (h.terminal_ne name hname).2.1⟩

/-- In a grammar a production text is cut in one way only, so its
left-hand side is a nonterminal. -/
theorem mem_of_isProductionText (h : w.IsGrammar) {text : String} (htext : text ∈ w.productions)
    {alternatives : List String} (hlhs : IsProductionText text lhs alternatives) :
    lhs ∈ w.nonterminals := by
  obtain ⟨lhs', hmem, _, hlhs'⟩ := h.lhs_mem text htext
  rwa [(hlhs.unique hlhs').1]

end Texts.IsGrammar

/-- **A fault that is present is a defect**: no grammar has one. -/
theorem Fault.IsPresent.not_isGrammar {w : Texts} {fault : Fault} (h : fault.IsPresent w) :
    ¬ w.IsGrammar := by
  intro hw
  cases fault with
  | missingArrow text =>
    obtain ⟨_, -, _, before, after, hcut, -⟩ := hw.lhs_mem text h.1
    exact h.2 ⟨before, after, by rw [hcut, List.append_assoc]⟩
  | emptyLhs text =>
    obtain ⟨htext, _, hlhs⟩ := h
    exact (hw.nonterminal_ne "" (hw.mem_of_isProductionText htext hlhs)).1 rfl
  | emptyAlternative lhs =>
    obtain ⟨alternative, halt, hnil⟩ := h
    exact (hw.isAlternative lhs alternative halt).ne_nil hnil
  | epsilonMixed alternative =>
    obtain ⟨⟨lhs, halt⟩, hmem, hne⟩ := h
    exact hne ((hw.isAlternative lhs alternative halt).epsilon_alone hmem)
  | unknownSymbol name =>
    obtain ⟨rfl, hname⟩ | ⟨hname, lhs, alternative, halt, hmem⟩ := h
    · exact (hw.ne_of_mem hname).1 rfl
    · exact hname ((hw.isAlternative lhs alternative halt).isSymbol name hmem)
  | notNonterminal lhs =>
    obtain ⟨hlhs, n, text, _, htext, hcut⟩ := h
    exact hlhs (hw.mem_of_isProductionText (List.mem_of_getElem? htext) hcut)
  | duplicateProduction lhs =>
    obtain ⟨m, n, hmn, hm, hn⟩ := h
    obtain ⟨text, _, htext, hcut⟩ := hm
    have hlhs := hw.mem_of_isProductionText (List.mem_of_getElem? htext) hcut
    exact Nat.ne_of_lt hmn
      ((hw.existsUnique_produces lhs hlhs).unique ⟨text, _, htext, hcut⟩ hn)
  | missingProductions name =>
    obtain ⟨n, hn, -⟩ := hw.existsUnique_produces name h.1
    exact h.2 n hn
  | duplicateSymbol name =>
    obtain h | h := h
    · have honce := List.nodup_iff_count_le_one.mp hw.nonterminals_nodup name
      exact Nat.not_succ_le_self 1 (h.trans honce)
    · have honce := List.nodup_iff_count_le_one.mp hw.terminals_nodup name
      exact Nat.not_succ_le_self 1 (h.trans honce)
  | ambiguousSymbol name =>
    obtain ⟨hnt, ht⟩ | ⟨rfl, hnt⟩ := h
    · exact (hw.terminal_ne name ht).2.2 hnt
    · exact (hw.nonterminal_ne _ hnt).2.2 rfl
  | reservedSymbol name => exact (hw.ne_of_mem h.2).2 h.1
  | startNotNonterminal name =>
    obtain ⟨start, hmem, hstart⟩ := hw.start_mem
    exact h.2 (Option.some.inj (h.1.symm.trans hstart) ▸ hmem)
  | missingStart =>
    obtain ⟨start, -, hstart⟩ := hw.start_mem
    cases h.symm.trans hstart
  | duplicateStart => exact h
  | extraStartSymbol word => exact h
  | unknownDirective word => exact h

namespace Declarations

/-! ## Failing checks

A check fails at one declared text, and the error has the place of that
text. What stands before the text has passed. -/

/-- **What a declared symbol is refused for**, after those named
`earlier`; `clash` says which names belong to the other kind. -/
inductive Refused (clash : String → Prop) (earlier : List String) : String → Fault → Prop
  | empty : Refused clash earlier "" (.unknownSymbol "")
  | reserved : Refused clash earlier endMarkerName (.reservedSymbol endMarkerName)
  | ambiguous {name : String} (h : clash name) :
    Refused clash earlier name (.ambiguousSymbol name)
  | duplicate {name : String} (h : name ∈ earlier) :
    Refused clash earlier name (.duplicateSymbol name)

theorem checkSymbol_eq_error {clash : String → Prop} {earlier : List String} {d : Declared}
    {e : GrammarError} (h : checkSymbol d = .error e) :
    e.span = d.span ∧ Refused clash earlier d.text e.fault := by
  unfold checkSymbol Declared.fail at h
  split at h
  · next hempty =>
    cases h
    rw [hempty]
    exact ⟨rfl, .empty⟩
  · split at h
    · next hmarker =>
      cases h
      rw [hmarker]
      exact ⟨rfl, .reserved⟩
    · cases h

/-- **The check of one kind of symbols fails** at a symbol that is refused
after those before it. -/
theorem checkKind_eq_error {clash : String → Prop} [DecidablePred clash] {earlier : List String}
    {l : List Declared} {e : GrammarError} (h : checkKind clash earlier l = .error e) :
    ∃ before d after seen, l = before ++ d :: after ∧ e.span = d.span
      ∧ (∀ name, name ∈ seen ↔ name ∈ before.map Declared.text ∨ name ∈ earlier)
      ∧ Refused clash seen d.text e.fault := by
  induction l generalizing earlier with
  | nil => cases h
  | cons d l ih =>
    rw [checkKind] at h
    obtain h | ⟨_, -, h⟩ := bind_eq_error.mp h
    · have hsymbol : e.span = d.span ∧ Refused clash earlier d.text e.fault :=
        checkSymbol_eq_error h
      exact ⟨[], d, l, earlier, rfl, hsymbol.1, by simp, hsymbol.2⟩
    split at h
    · next hclash =>
      cases h
      exact ⟨[], d, l, earlier, rfl, rfl, by simp, .ambiguous hclash⟩
    split at h
    · next hmem =>
      cases h
      exact ⟨[], d, l, earlier, rfl, rfl, by simp, .duplicate hmem⟩
    · obtain ⟨before, c, after, seen, rfl, hspan, hseen, hrefused⟩ := ih h
      refine ⟨d :: before, c, after, seen, rfl, hspan, fun name => ?_, hrefused⟩
      rw [hseen, List.mem_cons, List.map_cons, List.mem_cons]
      tauto

theorem startSymbol_eq_error {nonterminals : List String} {start? : Option Declared}
    {e : GrammarError} (h : startSymbol nonterminals start? = .error e) :
    (start? = none ∧ e = ⟨.missingStart, none⟩)
      ∨ ∃ d, start? = some d ∧ d.text ∉ nonterminals
        ∧ e = ⟨.startNotNonterminal d.text, d.span⟩ := by
  unfold startSymbol at h
  split at h
  · cases h
    exact Or.inl ⟨rfl, rfl⟩
  · next d =>
    split at h
    · next hnone =>
      cases h
      exact Or.inr ⟨d, rfl, List.idxOf?_eq_none_iff.mp hnone, rfl⟩
    · cases h

/-- An alternative is refused for being empty, for the empty string beside
other symbols, or for a name that is no symbol. -/
theorem readAlternative_eq_error {symbol? : String → Option Symbol} {lhs alternative : String}
    {fault : Fault} (h : readAlternative symbol? lhs alternative = .error fault) :
    (fault = .emptyAlternative lhs ∧ segment alternative = [])
      ∨ (fault = .epsilonMixed alternative ∧ epsilonName ∈ segment alternative
        ∧ segment alternative ≠ [epsilonName])
      ∨ ∃ name ∈ segment alternative, symbol? name = none ∧ fault = .unknownSymbol name := by
  unfold readAlternative at h
  simp only at h
  split at h
  · next hnil =>
    cases h
    exact Or.inl ⟨rfl, hnil⟩
  split at h
  · next hmixed =>
    cases h
    refine Or.inr (Or.inl ⟨rfl, hmixed.2, fun hone => ?_⟩)
    rw [hone] at hmixed
    exact Nat.lt_irrefl 1 hmixed.1
  · obtain ⟨name, hname, h⟩ := exists_of_mapM_eq_error h
    refine Or.inr (Or.inr ⟨name, hname, ?_⟩)
    split at h
    · cases h
    · next hnone =>
      cases h
      exact ⟨hnone, rfl⟩

/-- A production is refused for its text, its left-hand side or an
alternative. -/
theorem readRule_eq_error {nonterminal? : String → Option Nonterminal}
    {symbol? : String → Option Symbol} {earlier : List Nonterminal} {text : String}
    {fault : Fault} (h : readRule nonterminal? symbol? earlier text = .error fault) :
    splitProduction text = .error fault
      ∨ ∃ lhs alternatives, IsProductionText text lhs alternatives
        ∧ ((nonterminal? lhs = none ∧ fault = .notNonterminal lhs)
          ∨ (∃ x ∈ earlier, nonterminal? lhs = some x ∧ fault = .duplicateProduction lhs)
          ∨ ∃ alternative ∈ alternatives,
            readAlternative symbol? lhs alternative = .error fault) := by
  unfold readRule at h
  obtain h | ⟨⟨lhs, alternatives⟩, hsplit, h⟩ := bind_eq_error.mp h
  · exact Or.inl h
  refine Or.inr ⟨lhs, alternatives, (splitProduction_eq_ok.mp hsplit).1, ?_⟩
  simp only at h
  split at h
  · next hnone =>
    cases h
    exact Or.inl ⟨hnone, rfl⟩
  · next x hx =>
    split at h
    · next hmem =>
      cases h
      exact Or.inr (Or.inl ⟨x, hmem, hx, rfl⟩)
    · obtain h | ⟨rhss, -, h⟩ := bind_eq_error.mp h
      · exact Or.inr (Or.inr (exists_of_mapM_eq_error h))
      · cases h

/-- **Reading the productions fails** at one that is refused, after those
before it have been read. -/
theorem readRules_eq_error {nonterminal? : String → Option Nonterminal}
    {symbol? : String → Option Symbol} {earlier : List Nonterminal} {l : List Declared}
    {e : GrammarError} (h : readRules nonterminal? symbol? earlier l = .error e) :
    ∃ before d after rules seen, l = before ++ d :: after ∧ e.span = d.span
      ∧ readRules nonterminal? symbol? earlier before = .ok rules
      ∧ (∀ x, x ∈ seen ↔ x ∈ rules.map Rule.lhs ∨ x ∈ earlier)
      ∧ readRule nonterminal? symbol? seen d.text = .error e.fault := by
  induction l generalizing earlier with
  | nil => cases h
  | cons d l ih =>
    rw [readRules] at h
    split at h
    · next fault hread =>
      cases h
      exact ⟨[], d, l, [], earlier, rfl, rfl, rfl, by simp, hread⟩
    · next r hread =>
      obtain h | ⟨rest, -, h⟩ := bind_eq_error.mp h
      · obtain ⟨before, c, after, rules, seen, rfl, hspan, hrules, hseen, hc⟩ := ih h
        refine ⟨d :: before, c, after, r :: rules, seen, rfl, hspan, ?_, fun x => ?_, hc⟩
        · rw [readRules, hread]
          exact bind_eq_ok.mpr ⟨rules, hrules, rfl⟩
        · rw [hseen, List.mem_cons, List.map_cons, List.mem_cons]
          tauto
      · cases h

theorem checkRules_eq_error {rules : List Rule} {index : Nat} {l : List Declared}
    {e : GrammarError} (h : checkRules rules index l = .error e) :
    ∃ i d, l[i]? = some d ∧ (⟨index + i⟩ : Nonterminal) ∉ rules.map Rule.lhs
      ∧ e = ⟨.missingProductions d.text, d.span⟩ := by
  induction l generalizing index with
  | nil => cases h
  | cons d l ih =>
    rw [checkRules] at h
    split at h
    · obtain ⟨i, c, hc, hi, he⟩ := ih h
      exact ⟨i + 1, c, hc, by rwa [Nat.add_comm i 1, ← Nat.add_assoc], he⟩
    · next hnone =>
      cases h
      exact ⟨0, d, rfl, hnone, rfl⟩

/-! ## Reading the productions -/

section Rules

variable {nonterminal? : String → Option Nonterminal} {symbol? : String → Option Symbol}
  {earlier : List Nonterminal} {l : List Declared} {rules : List Rule} {n : Nat}

/-- Whether a text is read does not depend on what was read before, but
for its left-hand side. -/
theorem readRule_eq_ok_iff_nil {text : String} {r : Rule} :
    readRule nonterminal? symbol? earlier text = .ok r ↔
      readRule nonterminal? symbol? [] text = .ok r ∧ r.lhs ∉ earlier := by
  rw [readRule_eq_ok, readRule_eq_ok]
  constructor
  · rintro ⟨lhs, alternatives, hsplit, hx, hearlier, hmap⟩
    exact ⟨⟨lhs, alternatives, hsplit, hx, List.not_mem_nil, hmap⟩, hearlier⟩
  · rintro ⟨⟨lhs, alternatives, hsplit, hx, -, hmap⟩, hearlier⟩
    exact ⟨lhs, alternatives, hsplit, hx, hearlier, hmap⟩

/-- The rules are read one from each production, in order. -/
theorem map_readRule_of_readRules (h : readRules nonterminal? symbol? earlier l = .ok rules) :
    l.map (fun d => readRule nonterminal? symbol? [] d.text) = rules.map .ok := by
  induction l generalizing earlier rules with
  | nil =>
    cases h
    rfl
  | cons d l ih =>
    rw [readRules] at h
    split at h
    · cases h
    · next r hread =>
      obtain ⟨rest, hrest, h⟩ := bind_eq_ok.mp h
      cases h
      rw [List.map_cons, List.map_cons, ih hrest, (readRule_eq_ok_iff_nil.mp hread).1]

/-- The production at a place is read as the rule at that place. -/
theorem exists_rule_of_getElem? (h : readRules nonterminal? symbol? earlier l = .ok rules)
    {d : Declared} (hd : l[n]? = some d) :
    ∃ r, rules[n]? = some r ∧ readRule nonterminal? symbol? [] d.text = .ok r := by
  have hn := congrArg (·[n]?) (map_readRule_of_readRules h)
  simp only [List.getElem?_map, hd, Option.map_some] at hn
  obtain ⟨r, hr, hread⟩ := Option.map_eq_some_iff.mp hn.symm
  exact ⟨r, hr, hread.symm⟩

/-- The rule at a place is read from the production at that place. -/
theorem exists_production_of_getElem? (h : readRules nonterminal? symbol? earlier l = .ok rules)
    {r : Rule} (hr : rules[n]? = some r) :
    ∃ d, l[n]? = some d ∧ readRule nonterminal? symbol? [] d.text = .ok r := by
  have hn := congrArg (·[n]?) (map_readRule_of_readRules h)
  simp only [List.getElem?_map, hr, Option.map_some] at hn
  exact Option.map_eq_some_iff.mp hn

end Rules

end Declarations

/-! ## Names of a declared grammar -/

namespace Grammar

variable {g : Grammar} {name : String}

theorem nonterminal?_eq_none_iff : g.nonterminal? name = none ↔ name ∉ g.nonterminals := by
  rw [nonterminal?, Option.map_eq_none_iff, List.idxOf?_eq_none_iff]

theorem symbol?_eq_none_iff :
    g.symbol? name = none ↔ name ∉ g.nonterminals ∧ name ∉ g.terminals := by
  unfold symbol?
  rw [← nonterminal?_eq_none_iff]
  cases g.nonterminal? name with
  | some x => simp
  | none => simp [terminal?, List.idxOf?_eq_none_iff]

end Grammar

namespace Declarations

/-- The grammar by which the names of declarations are looked up. -/
def vocabulary (d : Declarations) (start : Nonterminal) : Grammar :=
  ⟨d.texts.nonterminals, withEpsilon d.texts.terminals, start, []⟩

variable {d : Declarations} {start : Nonterminal} {name : String}

/-- What is looked up in vain is no symbol. -/
theorem symbol?_vocabulary_eq_none_iff :
    (d.vocabulary start).symbol? name = none ↔ ¬ d.texts.IsSymbol name := by
  rw [Grammar.symbol?_eq_none_iff, vocabulary, mem_withEpsilon, Texts.IsSymbol]
  tauto

/-- **Declarations that are read**, check by check. -/
theorem toGrammar_eq_ok {g : Grammar} :
    d.toGrammar = .ok g ↔ checkNonterminals [] d.nonterminals = .ok ()
      ∧ checkTerminals d.texts.nonterminals [] d.terminals = .ok ()
      ∧ ∃ start, startSymbol d.texts.nonterminals d.start = .ok start
        ∧ ∃ rules, readRules (d.vocabulary start).nonterminal? (d.vocabulary start).symbol? []
            d.productions = .ok rules
          ∧ checkRules rules 0 d.nonterminals = .ok () ∧ { d.vocabulary start with rules } = g := by
  simp only [toGrammar, bind_eq_ok]
  constructor
  · rintro ⟨_, hnts, _, hts, start, hstart, rules, hrules, _, hall, hg⟩
    exact ⟨hnts, hts, start, hstart, rules, hrules, hall, Except.ok.inj hg⟩
  · rintro ⟨hnts, hts, start, hstart, rules, hrules, hall, hg⟩
    exact ⟨(), hnts, (), hts, start, hstart, rules, hrules, (), hall, congrArg Except.ok hg⟩

/-- **Declarations that are refused**, by the first check that fails. -/
theorem toGrammar_eq_error {e : GrammarError} (h : d.toGrammar = .error e) :
    checkNonterminals [] d.nonterminals = .error e
      ∨ checkTerminals d.texts.nonterminals [] d.terminals = .error e
      ∨ (checkNonterminals [] d.nonterminals = .ok ()
        ∧ (startSymbol d.texts.nonterminals d.start = .error e
          ∨ ∃ start, readRules (d.vocabulary start).nonterminal? (d.vocabulary start).symbol? []
              d.productions = .error e
            ∨ ∃ rules, readRules (d.vocabulary start).nonterminal?
                (d.vocabulary start).symbol? [] d.productions = .ok rules
              ∧ checkRules rules 0 d.nonterminals = .error e)) := by
  unfold toGrammar at h
  obtain h | ⟨_, hnts, h⟩ := bind_eq_error.mp h
  · exact Or.inl h
  obtain h | ⟨_, -, h⟩ := bind_eq_error.mp h
  · exact Or.inr (Or.inl h)
  refine Or.inr (Or.inr ⟨hnts, ?_⟩)
  obtain h | ⟨start, -, h⟩ := bind_eq_error.mp h
  · exact Or.inl h
  obtain h | ⟨rules, hrules, h⟩ := bind_eq_error.mp h
  · exact Or.inr ⟨start, Or.inl h⟩
  obtain h | ⟨_, -, h⟩ := bind_eq_error.mp h
  · exact Or.inr ⟨start, Or.inr ⟨rules, hrules, h⟩⟩
  · cases h

/-! ## What is read is a grammar -/

/-- A rule is read from a production of the name of its left-hand
side. -/
theorem isProductionText_of_readRule {symbol? : String → Option Symbol} {text : String} {r : Rule}
    (hn : d.texts.nonterminals.Nodup)
    (h : readRule (d.vocabulary start).nonterminal? symbol? [] text = .ok r) :
    ∃ lhs alternatives, IsProductionText text lhs alternatives
      ∧ d.texts.nonterminals[r.lhs.index]? = some lhs
      ∧ alternatives.mapM (readAlternative symbol? lhs) = .ok r.alternatives := by
  obtain ⟨lhs, alternatives, hsplit, hx, -, hmap⟩ := readRule_eq_ok.mp h
  exact ⟨lhs, alternatives, (splitProduction_eq_ok.mp hsplit).1,
    (Grammar.nonterminal?_eq_some hn).mp hx, hmap⟩

/-- **The production text at a place is of the left-hand side of the rule
at that place.** -/
theorem produces_iff_of_readRules {symbol? : String → Option Symbol} {rules : List Rule}
    (hn : d.texts.nonterminals.Nodup)
    (h : readRules (d.vocabulary start).nonterminal? symbol? [] d.productions = .ok rules)
    {n : Nat} : d.texts.Produces n name ↔
      ∃ r, rules[n]? = some r ∧ d.texts.nonterminals[r.lhs.index]? = some name := by
  constructor
  · rintro ⟨text, alternatives, htext, hcut⟩
    obtain ⟨c, hc, rfl⟩ := Option.map_eq_some_iff.mp ((List.getElem?_map ..).symm.trans htext)
    obtain ⟨r, hr, hread⟩ := exists_rule_of_getElem? h hc
    obtain ⟨lhs, _, hcut', hlhs, -⟩ := isProductionText_of_readRule hn hread
    exact ⟨r, hr, by rw [hlhs, (hcut'.unique hcut).1]⟩
  · rintro ⟨r, hr, hname⟩
    obtain ⟨c, hc, hread⟩ := exists_production_of_getElem? h hr
    obtain ⟨lhs, alternatives, hcut, hlhs, -⟩ := isProductionText_of_readRule hn hread
    obtain rfl := Option.some.inj (hlhs.symm.trans hname)
    exact ⟨c.text, alternatives, (List.getElem?_map ..).trans (by rw [hc, Option.map_some]), hcut⟩

/-- An alternative that is read is well-formed. -/
theorem isAlternative_of_readAlternative {lhs alternative : String} {rhs : List Symbol}
    (h : readAlternative (d.vocabulary start).symbol? lhs alternative = .ok rhs) :
    d.texts.IsAlternative alternative := by
  obtain ⟨hne, hmixed, -, -⟩ := readAlternative_spec h
  refine ⟨hne, fun name hname => ?_, fun hε => ?_⟩
  · by_contra hnone
    have hnone : (d.vocabulary start).symbol? name = none :=
      symbol?_vocabulary_eq_none_iff.mpr hnone
    unfold readAlternative at h
    simp only [if_neg hne, if_neg hmixed] at h
    obtain ⟨s, -, hs⟩ := exists_mem_of_mapM h hname
    simp only [hnone] at hs
    cases hs
  · -- a list that is not longer than one and holds the name is the name alone
    have hlen : (segment alternative).length = 1 := by
      have hpos := List.length_pos_iff.mpr hne
      have hle : ¬ (segment alternative).length > 1 := fun hgt => hmixed ⟨hgt, hε⟩
      omega
    obtain ⟨only, honly⟩ := List.length_eq_one_iff.mp hlen
    rw [honly, List.mem_singleton] at hε
    rw [honly, hε]

/-- The places of distinct names number the nonterminals. -/
theorem eq_mk_of_getElem? {l : List String} (hn : l.Nodup) {x : Nonterminal} {i : Nat}
    (hx : l[x.index]? = some name) (hi : l[i]? = some name) : x = ⟨i⟩ :=
  congrArg Nonterminal.mk
    ((List.getElem?_inj (List.getElem?_eq_some_iff.mp hx).1 hn).mp (hx.trans hi.symm))

/-- A nonterminal that has a rule has one production text. -/
theorem existsUnique_produces {symbol? : String → Option Symbol} {rules : List Rule}
    (hn : d.texts.nonterminals.Nodup)
    (hrules : readRules (d.vocabulary start).nonterminal? symbol? [] d.productions = .ok rules)
    (hall : checkRules rules 0 d.nonterminals = .ok ()) (hname : name ∈ d.texts.nonterminals) :
    ∃! n, d.texts.Produces n name := by
  obtain ⟨-, hlhsNodup⟩ := readRules_spec hrules
  obtain ⟨i, hi⟩ := List.mem_iff_getElem?.mp hname
  have hlt : i < 0 + d.nonterminals.length := by
    simpa [texts] using (List.getElem?_eq_some_iff.mp hi).1
  obtain ⟨r, hr, hri⟩ := List.mem_map.mp (checkRules_eq_ok.mp hall i (Nat.zero_le i) hlt)
  obtain ⟨n, hn'⟩ := List.mem_iff_getElem?.mp hr
  refine ⟨n, (produces_iff_of_readRules hn hrules).mpr ⟨r, hn', by rw [hri]; exact hi⟩,
    fun m hm => ?_⟩
  -- two productions of one name are read as two rules for one nonterminal
  obtain ⟨q, hq, hqname⟩ := (produces_iff_of_readRules hn hrules).mp hm
  have hlhs : q.lhs = r.lhs := (eq_mk_of_getElem? hn hqname hi).trans hri.symm
  have hlt := (List.getElem?_eq_some_iff.mp hq).1
  refine (List.getElem?_inj (by rwa [List.length_map]) hlhsNodup).mp ?_
  rw [List.getElem?_map, List.getElem?_map, hq, hn', Option.map_some, Option.map_some, hlhs]

/-- The production texts that are read, with the parts they are cut
into. -/
theorem exists_rule_of_mem {symbol? : String → Option Symbol} {rules : List Rule} {text : String}
    (hn : d.texts.nonterminals.Nodup)
    (hrules : readRules (d.vocabulary start).nonterminal? symbol? [] d.productions = .ok rules)
    (htext : text ∈ d.texts.productions) :
    ∃ lhs ∈ d.texts.nonterminals, ∃ alternatives rhss, IsProductionText text lhs alternatives
      ∧ alternatives.mapM (readAlternative symbol? lhs) = .ok rhss := by
  obtain ⟨c, hc, rfl⟩ := List.mem_map.mp htext
  obtain ⟨n, hn'⟩ := List.mem_iff_getElem?.mp hc
  obtain ⟨r, -, hread⟩ := exists_rule_of_getElem? hrules hn'
  obtain ⟨lhs, alternatives, hcut, hlhs, hmap⟩ := isProductionText_of_readRule hn hread
  exact ⟨lhs, List.mem_of_getElem? hlhs, alternatives, _, hcut, hmap⟩

/-- **What is read is a grammar.** -/
theorem isGrammar_of_toGrammar {g : Grammar} (h : d.toGrammar = .ok g) : d.texts.IsGrammar := by
  obtain ⟨hnts, hts, start, hstart, rules, hrules, hall, -⟩ := toGrammar_eq_ok.mp h
  obtain ⟨hnt, hntNodup⟩ := checkNonterminals_eq_ok.mp hnts
  obtain ⟨ht, htNodup⟩ := checkTerminals_eq_ok.mp hts
  obtain ⟨s, hs, hsmem⟩ := (startSymbol_eq_ok hntNodup).mp hstart
  refine
    { nonterminals_nodup := hntNodup
      nonterminal_ne := fun name hname => ?_
      terminals_nodup := htNodup
      terminal_ne := fun name hname => ?_
      start_mem := ⟨s.text, List.mem_of_getElem? hsmem, by rw [texts, hs, Option.map_some]⟩
      lhs_mem := fun text htext => ?_
      existsUnique_produces := fun name hname => existsUnique_produces hntNodup hrules hall hname
      isAlternative := fun lhs alternative halt => ?_ }
  · obtain ⟨c, hc, rfl⟩ := List.mem_map.mp hname
    exact ⟨(hnt c hc).1.1.1, (hnt c hc).1.1.2, (hnt c hc).1.2⟩
  · obtain ⟨c, hc, rfl⟩ := List.mem_map.mp hname
    exact ⟨(ht c hc).1.1.1, (ht c hc).1.1.2, (ht c hc).1.2⟩
  · obtain ⟨lhs, hlhs, alternatives, _, hcut, -⟩ := exists_rule_of_mem hntNodup hrules htext
    exact ⟨lhs, hlhs, alternatives, hcut⟩
  · obtain ⟨text, htext, alternatives, hcut, hmem⟩ := halt
    obtain ⟨lhs', -, alternatives', _, hcut', hmap⟩ := exists_rule_of_mem hntNodup hrules htext
    obtain ⟨rfl, rfl⟩ := hcut.unique hcut'
    obtain ⟨rhs, -, hrhs⟩ := exists_mem_of_mapM hmap hmem
    exact isAlternative_of_readAlternative hrhs

/-! ## What is reported is present -/

/-- A name that stands again behind itself occurs twice. -/
theorem two_le_count_of_mem {before after : List Declared} {c : Declared}
    (h : c.text ∈ before.map Declared.text) :
    2 ≤ ((before ++ c :: after).map Declared.text).count c.text := by
  rw [List.map_append, List.map_cons, List.count_append, List.count_cons_self]
  have := List.count_pos_iff.mpr h
  omega

/-- **What one kind of symbols is refused for**: an empty name, the
end-marker's name, a name of the other kind, or a name that occurs
twice. -/
theorem fault_of_checkKind {clash : String → Prop} [DecidablePred clash] {l : List Declared}
    {e : GrammarError} (h : checkKind clash [] l = .error e) :
    (e.fault = .unknownSymbol "" ∧ "" ∈ l.map Declared.text)
      ∨ (e.fault = .reservedSymbol endMarkerName ∧ endMarkerName ∈ l.map Declared.text)
      ∨ (∃ name ∈ l.map Declared.text, clash name ∧ e.fault = .ambiguousSymbol name)
      ∨ ∃ name, 2 ≤ (l.map Declared.text).count name ∧ e.fault = .duplicateSymbol name := by
  obtain ⟨fault, span⟩ := e
  obtain ⟨before, c, after, seen, rfl, -, hseen, hrefused⟩ := checkKind_eq_error h
  have hmem : c.text ∈ (before ++ c :: after).map Declared.text :=
    List.mem_map.mpr ⟨c, by simp, rfl⟩
  generalize hname : c.text = name at hrefused hmem
  cases hrefused with
  | empty => exact Or.inl ⟨rfl, hmem⟩
  | reserved => exact Or.inr (Or.inl ⟨rfl, hmem⟩)
  | ambiguous hclash => exact Or.inr (Or.inr (Or.inl ⟨name, hmem, hclash, rfl⟩))
  | duplicate hdup =>
    subst hname
    have hbefore : c.text ∈ before.map Declared.text := by simpa using (hseen c.text).mp hdup
    exact Or.inr (Or.inr (Or.inr ⟨c.text, two_le_count_of_mem hbefore, rfl⟩))

theorem isPresent_of_checkNonterminals {e : GrammarError}
    (h : checkNonterminals [] d.nonterminals = .error e) : e.fault.IsPresent d.texts := by
  rw [checkNonterminals_eq_checkKind] at h
  obtain ⟨hf, hmem⟩ | ⟨hf, hmem⟩ | ⟨name, hmem, rfl, hf⟩ | ⟨name, hcount, hf⟩ :=
    fault_of_checkKind h
  · rw [hf]
    exact Or.inl ⟨rfl, Or.inl hmem⟩
  · rw [hf]
    exact ⟨rfl, Or.inl hmem⟩
  · rw [hf]
    exact Or.inr ⟨rfl, hmem⟩
  · rw [hf]
    exact Or.inl hcount

theorem isPresent_of_checkTerminals {e : GrammarError}
    (h : checkTerminals d.texts.nonterminals [] d.terminals = .error e) :
    e.fault.IsPresent d.texts := by
  rw [checkTerminals_eq_checkKind] at h
  obtain ⟨hf, hmem⟩ | ⟨hf, hmem⟩ | ⟨name, hmem, hclash, hf⟩ | ⟨name, hcount, hf⟩ :=
    fault_of_checkKind h
  · rw [hf]
    exact Or.inl ⟨rfl, Or.inr hmem⟩
  · rw [hf]
    exact ⟨rfl, Or.inr hmem⟩
  · rw [hf]
    exact Or.inl ⟨hclash, hmem⟩
  · rw [hf]
    exact Or.inr hcount

theorem isPresent_of_startSymbol {e : GrammarError}
    (h : startSymbol d.texts.nonterminals d.start = .error e) : e.fault.IsPresent d.texts := by
  obtain ⟨hnone, rfl⟩ | ⟨s, hs, hmem, rfl⟩ := startSymbol_eq_error h
  · show d.start.map Declared.text = none
    rw [hnone, Option.map_none]
  · exact ⟨by rw [texts, hs, Option.map_some], hmem⟩

/-- What an alternative of a production is refused for is present. -/
theorem isPresent_of_readAlternative {lhs alternative : String} {fault : Fault}
    (halt : d.texts.HasAlternative lhs alternative)
    (h : readAlternative (d.vocabulary start).symbol? lhs alternative = .error fault) :
    fault.IsPresent d.texts := by
  obtain ⟨rfl, hnil⟩ | ⟨rfl, hmem, hne⟩ | ⟨name, hname, hnone, rfl⟩ := readAlternative_eq_error h
  · exact ⟨alternative, halt, hnil⟩
  · exact ⟨⟨lhs, halt⟩, hmem, hne⟩
  · exact Or.inr ⟨symbol?_vocabulary_eq_none_iff.mp hnone, lhs, alternative, halt, hname⟩

/-- What the productions are refused for is present. -/
theorem isPresent_of_readRules {e : GrammarError} (hn : d.texts.nonterminals.Nodup)
    (h : readRules (d.vocabulary start).nonterminal? (d.vocabulary start).symbol? []
      d.productions = .error e) : e.fault.IsPresent d.texts := by
  obtain ⟨fault, span⟩ := e
  obtain ⟨before, c, after, rules, seen, hl, -, hrules, hseen, hread⟩ := readRules_eq_error h
  have hplace : ∀ {m : Nat} {b : Declared}, d.productions[m]? = some b →
      d.texts.productions[m]? = some b.text := fun hb =>
    (List.getElem?_map ..).trans (by rw [hb, Option.map_some])
  have hc : d.productions[before.length]? = some c := by
    rw [hl, List.getElem?_append_right (Nat.le_refl _), Nat.sub_self, List.getElem?_cons_zero]
  have htext := List.mem_of_getElem? (hplace hc)
  obtain hsplit | ⟨lhs, alternatives, hcut, hfault⟩ := readRule_eq_error hread
  · obtain ⟨rfl, harrow⟩ | ⟨rfl, hempty⟩ := splitProduction_eq_error.mp hsplit
    · exact ⟨htext, harrow⟩
    · exact ⟨htext, hempty⟩
  have hproduces : d.texts.Produces before.length lhs := ⟨c.text, alternatives, hplace hc, hcut⟩
  obtain ⟨hnone, rfl⟩ | ⟨x, hx, hlhs, rfl⟩ | ⟨alternative, hmem, halt⟩ := hfault
  · exact ⟨Grammar.nonterminal?_eq_none_iff.mp hnone, before.length, hproduces⟩
  · -- the nonterminal has a rule from an earlier production
    obtain ⟨r, hr, rfl⟩ := List.mem_map.mp (by simpa using (hseen x).mp hx)
    obtain ⟨m, hm⟩ := List.mem_iff_getElem?.mp hr
    obtain ⟨b, hb, hbread⟩ := exists_production_of_getElem? hrules hm
    obtain ⟨lhs', alternatives', hcut', hlhs', -⟩ := isProductionText_of_readRule hn hbread
    obtain rfl := Option.some.inj
      (((Grammar.nonterminal?_eq_some hn).mp hlhs).symm.trans hlhs')
    have hlt := (List.getElem?_eq_some_iff.mp hb).1
    have hbl : d.productions[m]? = some b := by rw [hl, List.getElem?_append_left hlt, hb]
    exact ⟨m, before.length, hlt, ⟨b.text, alternatives', hplace hbl, hcut'⟩, hproduces⟩
  · exact isPresent_of_readAlternative ⟨c.text, htext, alternatives, hcut, hmem⟩ halt

/-- A nonterminal without a rule has no production. -/
theorem isPresent_of_checkRules {rules : List Rule} {e : GrammarError}
    (hn : d.texts.nonterminals.Nodup)
    (hrules : readRules (d.vocabulary start).nonterminal? (d.vocabulary start).symbol? []
      d.productions = .ok rules)
    (h : checkRules rules 0 d.nonterminals = .error e) : e.fault.IsPresent d.texts := by
  obtain ⟨i, c, hc, hi, rfl⟩ := checkRules_eq_error h
  have hname : d.texts.nonterminals[i]? = some c.text :=
    (List.getElem?_map ..).trans (by rw [hc, Option.map_some])
  refine ⟨List.mem_of_getElem? hname, fun n hproduces => hi ?_⟩
  obtain ⟨r, hr, hrname⟩ := (produces_iff_of_readRules hn hrules).mp hproduces
  refine List.mem_map.mpr ⟨r, List.mem_of_getElem? hr, ?_⟩
  rw [Nat.zero_add]
  exact eq_mk_of_getElem? hn hrname hname

/-- **What is reported is present.** -/
theorem isPresent_of_toGrammar {e : GrammarError} (h : d.toGrammar = .error e) :
    e.fault.IsPresent d.texts := by
  obtain h | h | ⟨hnts, h⟩ := toGrammar_eq_error h
  · exact isPresent_of_checkNonterminals h
  · exact isPresent_of_checkTerminals h
  have hn : d.texts.nonterminals.Nodup := (checkNonterminals_eq_ok.mp hnts).2
  obtain h | ⟨start, h | ⟨rules, hrules, h⟩⟩ := h
  · exact isPresent_of_startSymbol h
  · exact isPresent_of_readRules hn h
  · exact isPresent_of_checkRules hn hrules h

/-- **Declarations are read exactly when they are a grammar.** What is no
grammar is refused because what is read is one; what is one is read
because a fault would be reported that it does not have. -/
theorem exists_toGrammar_iff : (∃ g, d.toGrammar = .ok g) ↔ d.texts.IsGrammar := by
  refine ⟨fun ⟨g, h⟩ => isGrammar_of_toGrammar h, fun hw => ?_⟩
  cases h : d.toGrammar with
  | ok g => exact ⟨g, rfl⟩
  | error e => exact absurd hw (isPresent_of_toGrammar h).not_isGrammar

end Declarations

/-! ## Four lists -/

/-- The texts of four lists are the trimmed ones. -/
def Texts.ofLists (nonterminals terminals productions : List String) (start : String) : Texts where
  nonterminals := nonterminals.map trimmed
  terminals := terminals.map trimmed
  productions := productions.map trimmed
  start := some (trimmed start)

theorem Declarations.texts_ofLists (nonterminals terminals productions : List String)
    (start : String) : (Declarations.ofLists nonterminals terminals productions start).texts
      = Texts.ofLists nonterminals terminals productions start := by
  unfold Declarations.ofLists Declarations.texts Texts.ofLists
  simp only [List.map_map, Option.map_some]
  rfl

/-- **Four lists are read exactly when they declare a grammar**, and what
is reported of other lists is a fault that they have. -/
theorem Grammar.ofLists_exact (nonterminals terminals productions : List String)
    (start : String) :
    ((∃ g, Grammar.ofLists nonterminals terminals productions start = .ok g)
        ↔ (Texts.ofLists nonterminals terminals productions start).IsGrammar)
      ∧ ∀ e, Grammar.ofLists nonterminals terminals productions start = .error e →
        e.fault.IsPresent (Texts.ofLists nonterminals terminals productions start) := by
  rw [← Declarations.texts_ofLists]
  exact ⟨Declarations.exists_toGrammar_iff, fun e => Declarations.isPresent_of_toGrammar⟩

/-- The lists of the grammar of brackets are read. With a second production
text for `S` they are refused, and two of the texts are of `S`. -/
theorem Grammar.ofLists_exact_brackets :
    (Texts.ofLists ["S", "L"] ["(", ")"] [" S -> (S)S | NULL|L", "L->L"] " S").IsGrammar
      ∧ ∃ m n, m < n
        ∧ (Texts.ofLists ["S"] ["("] ["S->(S", "S->NULL"] "S").Produces m "S"
        ∧ (Texts.ofLists ["S"] ["("] ["S->(S", "S->NULL"] "S").Produces n "S" := by
  have hread : (Grammar.ofLists ["S", "L"] ["(", ")"] [" S -> (S)S | NULL|L", "L->L"] " S").toOption
      = some brackets := by decide +kernel
  have hrefused : Grammar.ofLists ["S"] ["("] ["S->(S", "S->NULL"] "S"
      = .error ⟨.duplicateProduction "S", none⟩ := by decide +kernel
  exact ⟨(ofLists_exact ..).1.mp ⟨brackets, eq_ok_of_toOption hread⟩,
    (ofLists_exact ..).2 _ hrefused⟩

end GrammarAnalysis
