import GrammarAnalysis.Grammar.DirectiveFile

/-!
# What every constructed grammar satisfies

A `Grammar` is plain data, and nothing in its type says that the symbols
of a right-hand side are declared or that a nonterminal has one rule.
`Grammar.WellFormed` collects what `Declarations.toGrammar` establishes
by its checks, and `Grammar.Constructed.wellFormed` says that it holds
of every grammar that is read from lists or from a file. The analyses
rely on these facts and on no others.

A check is characterised exactly: it succeeds if and only if what it
looks for is absent (`checkNonterminals_eq_ok`, `checkTerminals_eq_ok`,
`checkRules_eq_ok`).
-/

namespace GrammarAnalysis

/-! ## Computations that can fail -/

section Except

variable {ε α β : Type}

/-- A chain of two computations succeeds when both do. -/
theorem bind_eq_ok {x : Except ε α} {f : α → Except ε β} {b : β} :
    (x >>= f) = .ok b ↔ ∃ a, x = .ok a ∧ f a = .ok b := by
  cases x with
  | error e => simp [bind, Except.bind]
  | ok a => simp [bind, Except.bind]

/-- A chain of two computations fails when the first fails, or the second
after it. -/
theorem bind_eq_error {x : Except ε α} {f : α → Except ε β} {e : ε} :
    (x >>= f) = .error e ↔ x = .error e ∨ ∃ a, x = .ok a ∧ f a = .error e := by
  cases x with
  | error e => simp [bind, Except.bind]
  | ok a => simp [bind, Except.bind]

theorem eq_ok_of_toOption {x : Except ε α} {a : α} (h : x.toOption = some a) : x = .ok a := by
  cases x with
  | error e => cases h
  | ok b => exact congrArg Except.ok (Option.some.inj h)

/-- Reading a list succeeds when reading every element of it does. -/
theorem mapM_eq_ok {f : α → Except ε β} {l : List α} {r : List β} :
    l.mapM f = .ok r ↔ l.map f = r.map .ok := by
  induction l generalizing r with
  | nil =>
    rw [List.mapM_nil, List.map_nil, eq_comm (a := []), List.map_eq_nil_iff]
    exact ⟨fun h => by cases h; rfl, fun h => by rw [h]; rfl⟩
  | cons a l ih =>
    rw [List.mapM_cons, bind_eq_ok]
    simp only [bind_eq_ok]
    constructor
    · rintro ⟨b, hb, bs, hbs, hr⟩
      cases hr
      rw [List.map_cons, List.map_cons, hb, ih.mp hbs]
    · intro h
      cases r with
      | nil => cases h
      | cons b bs =>
        rw [List.map_cons, List.map_cons, List.cons.injEq] at h
        exact ⟨b, h.1, bs, ih.mpr h.2, rfl⟩

/-- Every element that is read comes from an element of the list. -/
theorem exists_of_mem_of_mapM {f : α → Except ε β} {l : List α} {r : List β} {b : β}
    (h : l.mapM f = .ok r) (hb : b ∈ r) : ∃ a ∈ l, f a = .ok b := by
  have hmem : Except.ok b ∈ l.map f := by
    rw [mapM_eq_ok.mp h]
    exact List.mem_map.mpr ⟨b, hb, rfl⟩
  exact List.mem_map.mp hmem

/-- Every element of the list is read. -/
theorem exists_mem_of_mapM {f : α → Except ε β} {l : List α} {r : List β} {a : α}
    (h : l.mapM f = .ok r) (ha : a ∈ l) : ∃ b ∈ r, f a = .ok b := by
  have hmem : f a ∈ r.map Except.ok := by
    rw [← mapM_eq_ok.mp h]
    exact List.mem_map.mpr ⟨a, ha, rfl⟩
  obtain ⟨b, hb, hfa⟩ := List.mem_map.mp hmem
  exact ⟨b, hb, hfa.symm⟩

/-- Reading a list fails when reading an element of it does. -/
theorem exists_of_mapM_eq_error {f : α → Except ε β} {l : List α} {e : ε}
    (h : l.mapM f = .error e) : ∃ a ∈ l, f a = .error e := by
  induction l with
  | nil => cases h
  | cons a l ih =>
    rw [List.mapM_cons, bind_eq_error] at h
    obtain h | ⟨b, -, h⟩ := h
    · exact ⟨a, List.mem_cons_self, h⟩
    · obtain h | ⟨bs, -, h⟩ := bind_eq_error.mp h
      · obtain ⟨a', ha', h⟩ := ih h
        exact ⟨a', List.mem_cons_of_mem a ha', h⟩
      · cases h

end Except

/-! ## Names -/

/-- In a list of names of which none occurs twice, a name is found at
the one place where it stands. -/
theorem idxOf?_eq_some_iff {names : List String} (hn : names.Nodup) {name : String} {i : Nat} :
    names.idxOf? name = some i ↔ names[i]? = some name := by
  induction names generalizing i with
  | nil => simp
  | cons a names ih =>
    obtain ⟨ha, hn⟩ := List.nodup_cons.mp hn
    rw [List.idxOf?_cons]
    by_cases h : a = name
    · subst h
      rw [if_pos (beq_self_eq_true a)]
      cases i with
      | zero => simp
      | succ i =>
        rw [List.getElem?_cons_succ]
        exact iff_of_false (by simp) (fun hi => ha (List.mem_of_getElem? hi))
    · rw [if_neg (by simpa using h)]
      cases i with
      | zero => simp [h]
      | succ i =>
        rw [List.getElem?_cons_succ, ← ih hn]
        simp

namespace Grammar

variable {g : Grammar}

theorem nonterminal?_eq_some (hn : g.nonterminals.Nodup) {name : String} {x : Nonterminal} :
    g.nonterminal? name = some x ↔ g.nonterminals[x.index]? = some name := by
  rw [nonterminal?, ← idxOf?_eq_some_iff hn, Option.map_eq_some_iff]
  constructor
  · rintro ⟨i, hi, rfl⟩
    exact hi
  · exact fun h => ⟨x.index, h, rfl⟩

theorem terminal?_eq_some (hn : g.terminals.Nodup) {name : String} {t : Terminal} :
    g.terminal? name = some t ↔ g.terminals[t.index]? = some name := by
  rw [terminal?, ← idxOf?_eq_some_iff hn, Option.map_eq_some_iff]
  constructor
  · rintro ⟨i, hi, rfl⟩
    exact hi
  · exact fun h => ⟨t.index, h, rfl⟩

end Grammar

/-! ## The checks -/

namespace Declarations

/-- A symbol may have any name but the empty one and the end-marker's. -/
theorem checkSymbol_eq_ok {d : Declared} :
    checkSymbol d = .ok () ↔ d.text ≠ "" ∧ d.text ≠ endMarkerName := by
  unfold checkSymbol Declared.fail
  split
  · next h => simp [h]
  · next h => split <;> simp_all

/-- **What a list of declared symbols passes its check for**: every
symbol is allowed, and no name occurs twice, the earlier ones
included. -/
def Fresh (allowed : Declared → Prop) (earlier : List String) (l : List Declared) : Prop :=
  (∀ d ∈ l, allowed d ∧ d.text ∉ earlier) ∧ (l.map Declared.text).Nodup

theorem fresh_nil (allowed : Declared → Prop) (earlier : List String) :
    Fresh allowed earlier [] := by
  simp [Fresh]

/-- A first symbol that passes is an earlier one for the rest. -/
theorem fresh_cons {allowed : Declared → Prop} {earlier : List String} {d : Declared}
    {l : List Declared} :
    Fresh allowed earlier (d :: l) ↔
      (allowed d ∧ d.text ∉ earlier) ∧ Fresh allowed (d.text :: earlier) l := by
  unfold Fresh
  rw [List.forall_mem_cons, List.map_cons, List.nodup_cons]
  simp only [List.mem_map, List.mem_cons, not_or]
  constructor
  · rintro ⟨⟨hd, hl⟩, hn, hnd⟩
    exact ⟨hd, fun c hc => ⟨(hl c hc).1, fun h => hn ⟨c, hc, h⟩, (hl c hc).2⟩, hnd⟩
  · rintro ⟨hd, hl, hnd⟩
    exact ⟨⟨hd, fun c hc => ⟨(hl c hc).1, (hl c hc).2.2⟩⟩,
      fun ⟨c, hc, h⟩ => (hl c hc).2.1 h, hnd⟩

/-- **The check of one kind of symbols**, after those named `earlier`;
`clash` says which names belong to the other kind. -/
def checkKind (clash : String → Prop) [DecidablePred clash] (earlier : List String) :
    List Declared → Except GrammarError Unit
  | [] => .ok ()
  | d :: rest => do
    checkSymbol d
    if clash d.text then d.fail (.ambiguousSymbol d.text)
    else if d.text ∈ earlier then d.fail (.duplicateSymbol d.text)
    else checkKind clash (d.text :: earlier) rest

theorem checkNonterminals_eq_checkKind (earlier : List String) (l : List Declared) :
    checkNonterminals earlier l = checkKind (· = epsilonName) earlier l := by
  induction l generalizing earlier with
  | nil => rfl
  | cons d l ih =>
    rw [checkNonterminals, checkKind, ih]
    by_cases he : d.text = epsilonName
    · rw [if_pos he, if_pos he, he]
    · rw [if_neg he, if_neg he]

theorem checkTerminals_eq_checkKind (nonterminals earlier : List String) (l : List Declared) :
    checkTerminals nonterminals earlier l = checkKind (· ∈ nonterminals) earlier l := by
  induction l generalizing earlier with
  | nil => rfl
  | cons d l ih => rw [checkTerminals, checkKind, ih]

/-- Symbols of one kind pass when each has a name of its own that is
neither reserved nor of the other kind. -/
theorem checkKind_eq_ok {clash : String → Prop} [DecidablePred clash] {earlier : List String}
    {l : List Declared} :
    checkKind clash earlier l = .ok () ↔
      Fresh (fun d => (d.text ≠ "" ∧ d.text ≠ endMarkerName) ∧ ¬ clash d.text) earlier l := by
  induction l generalizing earlier with
  | nil => exact iff_of_true rfl (fresh_nil _ _)
  | cons d l ih =>
    rw [checkKind, bind_eq_ok, fresh_cons, ← checkSymbol_eq_ok]
    by_cases hc : clash d.text
    · simp [hc, Declared.fail]
    by_cases hd : d.text ∈ earlier
    · simp [hc, hd, Declared.fail]
    simp only [if_neg hc, if_neg hd, ih]
    exact ⟨fun ⟨_, hs, hl⟩ => ⟨⟨⟨hs, hc⟩, hd⟩, hl⟩,
      fun ⟨⟨⟨hs, _⟩, _⟩, hl⟩ => ⟨(), hs, hl⟩⟩

/-- The nonterminals pass when each has a name of its own that is not
reserved. -/
theorem checkNonterminals_eq_ok {earlier : List String} {l : List Declared} :
    checkNonterminals earlier l = .ok () ↔
      Fresh (fun d => (d.text ≠ "" ∧ d.text ≠ endMarkerName) ∧ d.text ≠ epsilonName)
        earlier l := by
  rw [checkNonterminals_eq_checkKind, checkKind_eq_ok]

/-- The terminals pass when each has a name of its own that is neither
reserved nor a nonterminal's. -/
theorem checkTerminals_eq_ok {nonterminals earlier : List String} {l : List Declared} :
    checkTerminals nonterminals earlier l = .ok () ↔
      Fresh (fun d => (d.text ≠ "" ∧ d.text ≠ endMarkerName) ∧ d.text ∉ nonterminals)
        earlier l := by
  rw [checkTerminals_eq_checkKind, checkKind_eq_ok]

/-- Every nonterminal from `index` on has a rule. -/
theorem checkRules_eq_ok {rules : List Rule} {index : Nat} {l : List Declared} :
    checkRules rules index l = .ok () ↔
      ∀ i, index ≤ i → i < index + l.length → (⟨i⟩ : Nonterminal) ∈ rules.map Rule.lhs := by
  induction l generalizing index with
  | nil =>
    refine iff_of_true rfl (fun i hle hlt => ?_)
    rw [List.length_nil] at hlt
    omega
  | cons d l ih =>
    rw [checkRules, List.length_cons]
    by_cases hr : (⟨index⟩ : Nonterminal) ∈ rules.map Rule.lhs
    · rw [if_pos hr, ih]
      constructor
      · intro h i hle hlt
        by_cases hi : i = index
        · rw [hi]
          exact hr
        · exact h i (by omega) (by omega)
      · exact fun h i hle hlt => h i (by omega) (by omega)
    · rw [if_neg hr]
      refine iff_of_false (fun h => by cases h) (fun h => hr ?_)
      exact h index (Nat.le_refl _) (by omega)

/-- The epsilon terminal is among the terminals, which stay distinct. -/
theorem nodup_withEpsilon {terminals : List String} (h : terminals.Nodup) :
    (withEpsilon terminals).Nodup := by
  unfold withEpsilon
  split
  · exact h
  · next he =>
    refine List.nodup_append.mpr ⟨h, by simp, fun a ha b hb => ?_⟩
    rw [List.mem_singleton] at hb
    exact fun hab => he (by rwa [← hb, ← hab])

@[simp] theorem mem_withEpsilon {terminals : List String} {name : String} :
    name ∈ withEpsilon terminals ↔ name ∈ terminals ∨ name = epsilonName := by
  unfold withEpsilon
  split
  · next he => exact ⟨Or.inl, fun h => h.elim id (fun h => h ▸ he)⟩
  · simp

theorem startSymbol_eq_ok {nonterminals : List String} (hn : nonterminals.Nodup)
    {start? : Option Declared} {start : Nonterminal} :
    startSymbol nonterminals start? = .ok start ↔
      ∃ d, start? = some d ∧ nonterminals[start.index]? = some d.text := by
  unfold startSymbol
  cases start? with
  | none => simp
  | some d =>
    simp only [Option.some.injEq, exists_eq_left', ← idxOf?_eq_some_iff hn]
    split
    · next h => simp [h, Declared.fail]
    · next i h =>
      rw [h, Option.some.injEq, Except.ok.injEq]
      constructor
      · rintro rfl
        rfl
      · rintro rfl
        rfl

/-- **What an alternative that is read consists of**: one symbol for each
of its names, of which there is at least one, and of which the epsilon
terminal's is not one among several. -/
theorem readAlternative_spec {symbol? : String → Option Symbol} {lhs alternative : String}
    {rhs : List Symbol} (h : readAlternative symbol? lhs alternative = .ok rhs) :
    segment alternative ≠ []
      ∧ ¬ ((segment alternative).length > 1 ∧ epsilonName ∈ segment alternative)
      ∧ (segment alternative).length = rhs.length
      ∧ ∀ s ∈ rhs, ∃ name ∈ segment alternative, symbol? name = some s := by
  unfold readAlternative at h
  simp only at h
  split at h
  · cases h
  next hne =>
  split at h
  · cases h
  next hmixed =>
  refine ⟨hne, hmixed, by simpa using congrArg List.length (mapM_eq_ok.mp h), fun s hs => ?_⟩
  obtain ⟨name, hname, hf⟩ := exists_of_mem_of_mapM h hs
  refine ⟨name, hname, ?_⟩
  split at hf
  · next y hy =>
    cases hf
    exact hy
  · cases hf

/-- **When a production is read**: its text splits, its left-hand side
is a nonterminal without a rule so far, and its alternatives are read. -/
theorem readRule_eq_ok {nonterminal? : String → Option Nonterminal}
    {symbol? : String → Option Symbol} {earlier : List Nonterminal} {text : String} {r : Rule} :
    readRule nonterminal? symbol? earlier text = .ok r ↔
      ∃ lhs alternatives, splitProduction text = .ok (lhs, alternatives)
        ∧ nonterminal? lhs = some r.lhs ∧ r.lhs ∉ earlier
        ∧ alternatives.mapM (readAlternative symbol? lhs) = .ok r.alternatives := by
  unfold readRule
  rw [bind_eq_ok]
  constructor
  · rintro ⟨⟨lhs, alternatives⟩, hsplit, h⟩
    refine ⟨lhs, alternatives, hsplit, ?_⟩
    simp only at h
    split at h
    · cases h
    · next x hx =>
      split at h
      · cases h
      · next hearlier =>
        obtain ⟨rhss, hrhss, h⟩ := bind_eq_ok.mp h
        cases h
        exact ⟨hx, hearlier, hrhss⟩
  · rintro ⟨lhs, alternatives, hsplit, hx, hearlier, hrhss⟩
    refine ⟨(lhs, alternatives), hsplit, ?_⟩
    simp only [hx]
    rw [if_neg hearlier]
    exact bind_eq_ok.mpr ⟨r.alternatives, hrhss, rfl⟩

/-- A production text that splits has an alternative. -/
theorem ne_nil_of_splitProduction {text lhs : String} {alternatives : List String}
    (h : splitProduction text = .ok (lhs, alternatives)) : alternatives ≠ [] := by
  unfold splitProduction at h
  split at h
  · cases h
  · simp only at h
    split at h
    · cases h
    · cases h
      simpa using splitWhere_ne_nil _ _

/-- **The rules that are read** are each read from a production, and no
two of them are for one nonterminal. -/
theorem readRules_spec {nonterminal? : String → Option Nonterminal}
    {symbol? : String → Option Symbol} {earlier : List Nonterminal} {l : List Declared}
    {rules : List Rule} (h : readRules nonterminal? symbol? earlier l = .ok rules) :
    (∀ r ∈ rules, ∃ d ∈ l, ∃ seen, earlier ⊆ seen
        ∧ readRule nonterminal? symbol? seen d.text = .ok r)
      ∧ (rules.map Rule.lhs).Nodup := by
  induction l generalizing earlier rules with
  | nil =>
    cases h
    simp
  | cons d l ih =>
    rw [readRules] at h
    split at h
    · cases h
    · next r hr =>
      obtain ⟨rest, hrest, h⟩ := bind_eq_ok.mp h
      cases h
      obtain ⟨hread, hnodup⟩ := ih hrest
      constructor
      · intro q hq
        obtain rfl | hq := List.mem_cons.mp hq
        · exact ⟨d, List.mem_cons_self, earlier, fun _ hx => hx, hr⟩
        · obtain ⟨c, hc, seen, hseen, hread⟩ := hread q hq
          exact ⟨c, List.mem_cons_of_mem d hc, seen,
            fun _ hx => hseen (List.mem_cons_of_mem _ hx), hread⟩
      · refine List.nodup_cons.mpr ⟨fun hmem => ?_, hnodup⟩
        -- a later rule for the same nonterminal would have been refused
        obtain ⟨q, hq, hlhs⟩ := List.mem_map.mp hmem
        obtain ⟨_, _, seen, hseen, hread⟩ := hread q hq
        obtain ⟨_, _, _, _, hfresh, _⟩ := readRule_eq_ok.mp hread
        exact hfresh (hseen (by rw [hlhs]; exact List.mem_cons_self))

end Declarations

/-! ## Well-formed grammars -/

namespace Grammar

/-- Whether a symbol is declared. -/
def IsDeclared (g : Grammar) : Symbol → Prop
  | .nonterminal x => x.index < g.nonterminals.length
  | .terminal t => t.index < g.terminals.length

/-- **A right-hand side**: a string of declared symbols that is not
empty and holds the epsilon terminal only as its single symbol. -/
structure IsRhs (g : Grammar) (rhs : List Symbol) : Prop where
  ne_nil : rhs ≠ []
  declared : ∀ s ∈ rhs, g.IsDeclared s
  epsilon_alone : .terminal g.epsilon ∈ rhs → rhs = [.terminal g.epsilon]

/-- **What the checks of a grammar establish.** -/
structure WellFormed (g : Grammar) : Prop where
  nonterminals_nodup : g.nonterminals.Nodup
  terminals_nodup : g.terminals.Nodup
  disjoint : ∀ name ∈ g.nonterminals, name ∉ g.terminals
  /-- No symbol is called like the end-marker, or not at all. -/
  name_ne : ∀ name, name ∈ g.nonterminals ∨ name ∈ g.terminals →
    name ≠ "" ∧ name ≠ endMarkerName
  epsilon_mem : epsilonName ∈ g.terminals
  start_declared : g.start.index < g.nonterminals.length
  lhs_nodup : (g.rules.map Rule.lhs).Nodup
  /-- The nonterminals with a rule are the declared ones. -/
  mem_lhs : ∀ x, x ∈ g.rules.map Rule.lhs ↔ x.index < g.nonterminals.length
  alternatives_ne_nil : ∀ r ∈ g.rules, r.alternatives ≠ []
  isRhs : ∀ r ∈ g.rules, ∀ rhs ∈ r.alternatives, g.IsRhs rhs

variable {g : Grammar}

/-- The epsilon terminal has its reserved name. -/
theorem getElem?_epsilon (h : epsilonName ∈ g.terminals) :
    g.terminals[g.epsilon.index]? = some epsilonName := by
  have hlt : g.terminals.idxOf epsilonName < g.terminals.length :=
    List.idxOf_lt_length_of_mem h
  show g.terminals[g.terminals.idxOf epsilonName]? = some epsilonName
  rw [List.getElem?_eq_getElem hlt, List.getElem_idxOf hlt]

theorem symbol?_eq_terminal {name : String} {t : Terminal}
    (h : g.symbol? name = some (.terminal t)) : g.terminal? name = some t := by
  unfold symbol? at h
  split at h
  · cases h
  · simpa using h

theorem symbol?_eq_nonterminal {name : String} {x : Nonterminal}
    (h : g.symbol? name = some (.nonterminal x)) : g.nonterminal? name = some x := by
  unfold symbol? at h
  split at h
  · next y hy =>
    cases h
    exact hy
  · simp at h

/-- The symbols found by name are declared. -/
theorem isDeclared_of_symbol? (hn : g.nonterminals.Nodup) (ht : g.terminals.Nodup)
    {name : String} {s : Symbol} (h : g.symbol? name = some s) : g.IsDeclared s := by
  cases s with
  | nonterminal x =>
    have hx := (nonterminal?_eq_some hn).mp (symbol?_eq_nonterminal h)
    exact (List.getElem?_eq_some_iff.mp hx).1
  | terminal t =>
    have hx := (terminal?_eq_some ht).mp (symbol?_eq_terminal h)
    exact (List.getElem?_eq_some_iff.mp hx).1

/-- **An alternative that is read is a right-hand side.** Only the name
of the epsilon terminal reads as the epsilon terminal, and that name
stands alone. -/
theorem isRhs_of_readAlternative (hn : g.nonterminals.Nodup) (ht : g.terminals.Nodup)
    (he : epsilonName ∈ g.terminals) {lhs alternative : String} {rhs : List Symbol}
    (h : Declarations.readAlternative g.symbol? lhs alternative = .ok rhs) : g.IsRhs rhs := by
  obtain ⟨hne, hmixed, hlen, hfound⟩ := Declarations.readAlternative_spec h
  refine ⟨?_, ?_, ?_⟩
  · intro hnil
    rw [hnil] at hlen
    exact hne (List.eq_nil_of_length_eq_zero hlen)
  · intro s hs
    obtain ⟨name, -, hname⟩ := hfound s hs
    exact isDeclared_of_symbol? hn ht hname
  · intro hs
    obtain ⟨name, hmem, hname⟩ := hfound _ hs
    have hε := (terminal?_eq_some ht).mp (symbol?_eq_terminal hname)
    rw [getElem?_epsilon he] at hε
    have hone : rhs.length = 1 := by
      have hpos := List.length_pos_of_mem hs
      have hle : ¬ (segment alternative).length > 1 :=
        fun hgt => hmixed ⟨hgt, by rw [Option.some.inj hε]; exact hmem⟩
      omega
    obtain ⟨s, hs'⟩ := List.length_eq_one_iff.mp hone
    rw [hs', List.mem_singleton] at hs
    rw [hs', hs]

/-- The epsilon terminal is declared. -/
theorem WellFormed.epsilon_lt (hg : g.WellFormed) : g.epsilon.index < g.terminals.length :=
  List.idxOf_lt_length_of_mem hg.epsilon_mem

/-- A declared terminal is not the end-marker. -/
theorem ne_endMarker {t : Terminal} (ht : t.index < g.terminals.length) : t ≠ g.endMarker :=
  fun h => Nat.lt_irrefl _ (h ▸ ht)

/-- **A grammar that is declared is well-formed.** -/
theorem wellFormed_of_toGrammar {d : Declarations} (h : d.toGrammar = .ok g) :
    g.WellFormed := by
  simp only [Declarations.toGrammar, bind_eq_ok] at h
  obtain ⟨_, hnts, _, hts, start, hstart, rules, hrules, _, hall, hg⟩ := h
  cases hg
  obtain ⟨hnt, hntNodup⟩ := Declarations.checkNonterminals_eq_ok.mp hnts
  obtain ⟨ht, htNodup⟩ := Declarations.checkTerminals_eq_ok.mp hts
  obtain ⟨hread, hlhs⟩ := Declarations.readRules_spec hrules
  have hnodup := Declarations.nodup_withEpsilon htNodup
  have hε : epsilonName ∈ Declarations.withEpsilon (d.terminals.map Declared.text) :=
    Declarations.mem_withEpsilon.mpr (Or.inr rfl)
  obtain ⟨_, -, hstart⟩ := (Declarations.startSymbol_eq_ok hntNodup).mp hstart
  refine
    { nonterminals_nodup := hntNodup
      terminals_nodup := hnodup
      disjoint := fun name hname hmem => ?_
      name_ne := fun name hname => ?_
      epsilon_mem := hε
      start_declared := (List.getElem?_eq_some_iff.mp hstart).1
      lhs_nodup := hlhs
      mem_lhs := fun x => ⟨fun hx => ?_, fun hx => ?_⟩
      alternatives_ne_nil := fun r hr hnil => ?_
      isRhs := fun r hr rhs hrhs => ?_ }
  · obtain ⟨c, hc, rfl⟩ := List.mem_map.mp hname
    obtain hmem | hmem := Declarations.mem_withEpsilon.mp hmem
    · obtain ⟨e, he, hce⟩ := List.mem_map.mp hmem
      exact (ht e he).1.2 (List.mem_map.mpr ⟨c, hc, hce.symm⟩)
    · exact (hnt c hc).1.2 hmem
  · obtain hname | hname := hname
    · obtain ⟨c, hc, rfl⟩ := List.mem_map.mp hname
      exact (hnt c hc).1.1
    · obtain hname | rfl := Declarations.mem_withEpsilon.mp hname
      · obtain ⟨c, hc, rfl⟩ := List.mem_map.mp hname
        exact (ht c hc).1.1
      · decide
  · obtain ⟨r, hr, rfl⟩ := List.mem_map.mp hx
    obtain ⟨c, -, seen, -, hr⟩ := hread r hr
    obtain ⟨lhs, _, _, hlhs, -⟩ := Declarations.readRule_eq_ok.mp hr
    exact (List.getElem?_eq_some_iff.mp ((nonterminal?_eq_some hntNodup).mp hlhs)).1
  · refine Declarations.checkRules_eq_ok.mp hall x.index (Nat.zero_le _) ?_
    simpa using hx
  · obtain ⟨c, -, seen, -, hr⟩ := hread r hr
    obtain ⟨lhs, alternatives, hsplit, -, -, hmap⟩ := Declarations.readRule_eq_ok.mp hr
    rw [hnil] at hmap
    exact Declarations.ne_nil_of_splitProduction hsplit (by simpa using mapM_eq_ok.mp hmap)
  · obtain ⟨c, -, seen, -, hr⟩ := hread r hr
    obtain ⟨lhs, alternatives, -, -, -, hmap⟩ := Declarations.readRule_eq_ok.mp hr
    obtain ⟨alternative, -, halt⟩ := exists_of_mem_of_mapM hmap hrhs
    exact isRhs_of_readAlternative hntNodup hnodup hε halt

/-- **A grammar that the library constructs**: from four lists of texts,
or from the text of a grammar file. -/
inductive Constructed (g : Grammar) : Prop
  | ofLists {nonterminals terminals productions : List String} {start : String}
      (h : Grammar.ofLists nonterminals terminals productions start = .ok g)
  | ofFile {text : String} (h : Grammar.ofFile text = .ok g)

/-- A constructed grammar is declared by lists or by the lines of a file. -/
theorem Constructed.exists_toGrammar (h : g.Constructed) :
    ∃ d : Declarations, d.toGrammar = .ok g := by
  cases h with
  | ofLists h => exact ⟨_, h⟩
  | ofFile h =>
    obtain ⟨d, -, h⟩ := bind_eq_ok.mp h
    exact ⟨d, h⟩

/-- **Every constructed grammar is well-formed.** -/
theorem Constructed.wellFormed (h : g.Constructed) : g.WellFormed := by
  obtain ⟨d, h⟩ := h.exists_toGrammar
  exact wellFormed_of_toGrammar h

/-! ## A grammar of brackets -/

/-- Balanced brackets, next to a nonterminal that derives no string of
terminals: `S->(S)S|NULL|L` and `L->L`. -/
def brackets : Grammar where
  nonterminals := ["S", "L"]
  terminals := ["(", ")", "NULL"]
  start := ⟨0⟩
  rules :=
    [⟨⟨0⟩, [[.terminal ⟨0⟩, .nonterminal ⟨0⟩, .terminal ⟨1⟩, .nonterminal ⟨0⟩],
        [.terminal ⟨2⟩], [.nonterminal ⟨1⟩]]⟩,
      ⟨⟨1⟩, [[.nonterminal ⟨1⟩]]⟩]

theorem constructed_brackets : brackets.Constructed :=
  have h : (ofLists ["S", "L"] ["(", ")"] ["S->(S)S|NULL|L", "L->L"] "S").toOption
      = some brackets := by decide +kernel
  Constructed.ofLists (eq_ok_of_toOption h)

end Grammar

end GrammarAnalysis
