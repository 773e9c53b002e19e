import GrammarAnalysis.Proofs.Descents
import GrammarAnalysis.Proofs.LeftmostDerivation

/-!
# The language of a predictive parser

A predictive parser accepts the sentences of its grammar, each with the
end-marker behind it, and nothing else; and the steps by which it
accepts are the leftmost derivation of the sentence, which is the only
one.

That what is accepted is derived is a simulation. The terminals that
were matched, with the stack behind them, are a sentential form, and the
productions of the steps so far derive it leftmost (`Explains`). A turn
that matches leaves the form as it is; a turn that expands is a step of
the derivation.

That what is derived is accepted is an induction on the derivation
(`reaches_of_generates`). The production that a derivation uses next is
the one in the table: the next terminal begins what the production puts
in, or, where that derives nothing, it follows the nonterminal in the
sentential form that the parser is at.
-/

namespace GrammarAnalysis

/-! ## Inputs -/

/-- **What an input symbol may stand for**: a declared terminal other
than epsilon, or the end-marker. -/
def Grammar.IsInput (g : Grammar) (t : Terminal) : Prop :=
  t = g.endMarker ∨ (t.index < g.terminals.length ∧ t ≠ g.epsilon)

/-- The input that holds a string of terminals: their names, and the
end-marker behind them. -/
def Grammar.inputOf (g : Grammar) (ts : List Terminal) : List String :=
  ts.map g.terminalName ++ [endMarkerName]

/-- The numbers of the productions by which steps expand. -/
def expanded (steps : List ParseStep) : List Nat :=
  steps.filterMap fun
    | .expand _ n => some n
    | _ => none

/-- The terminals that steps match. -/
def matched (steps : List ParseStep) : List Terminal :=
  steps.filterMap fun
    | .matched t => some t
    | _ => none

section Steps

variable {steps steps' : List ParseStep}

@[simp] theorem expanded_nil : expanded [] = [] := rfl

@[simp] theorem expanded_expand (x : Nonterminal) (n : Nat) :
    expanded (.expand x n :: steps) = n :: expanded steps := rfl

@[simp] theorem expanded_matched (t : Terminal) :
    expanded (.matched t :: steps) = expanded steps := rfl

@[simp] theorem expanded_append : expanded (steps ++ steps') = expanded steps ++ expanded steps' :=
  List.filterMap_append

@[simp] theorem matched_nil : matched [] = [] := rfl

@[simp] theorem matched_expand (x : Nonterminal) (n : Nat) :
    matched (.expand x n :: steps) = matched steps := rfl

@[simp] theorem matched_matched (t : Terminal) :
    matched (.matched t :: steps) = t :: matched steps := rfl

@[simp] theorem matched_append : matched (steps ++ steps') = matched steps ++ matched steps' :=
  List.filterMap_append

end Steps

namespace Grammar

variable {g : Grammar} {t : Terminal} {ts : List Terminal}

theorem terminalName_eq_iff (ht : t.index < g.terminals.length) {name : String} :
    g.terminalName t = name ↔ g.terminals[t.index]? = some name := by
  rw [terminalName, if_neg (ne_endMarker ht), List.getElem?_eq_getElem ht, Option.getD_some,
    Option.some.injEq]

/-- Terminals that are derived from the start symbol may be input. -/
theorem WellFormed.isInput_of_derives (hg : g.WellFormed) {u : List Symbol}
    (h : g.Derives [.nonterminal g.start] u) (ht : .terminal t ∈ u) :
    t.index < g.terminals.length ∧ t ≠ g.epsilon := by
  have hproper := hg.isProper_of_derives h (isProper_nonterminal hg.start_declared) _ ht
  exact ⟨hproper.1, fun he => hproper.2 (by rw [he])⟩

end Grammar

namespace PredictiveParser

variable {p : PredictiveParser} {g : Grammar} {t : Terminal} {ts : List Terminal}
  {input rest : List String} {position : Nat}

namespace IsFor

/-- **What a name is read as**: the terminal that is called so. -/
theorem lookahead?_eq_some_iff (hp : p.IsFor g) {name : String} :
    p.lookahead? name = some t ↔ g.IsInput t ∧ g.terminalName t = name := by
  have hg := hp.wellFormed
  unfold lookahead?
  rw [hp.grammar_eq]
  by_cases hname : name = endMarkerName
  · rw [if_pos hname, hname]
    constructor
    · rintro h
      cases h
      exact ⟨Or.inl rfl, terminalName_endMarker g⟩
    · rintro ⟨rfl | ⟨ht, -⟩, h⟩
      · rfl
      · have hmem := List.mem_of_getElem? ((Grammar.terminalName_eq_iff ht).mp h)
        exact absurd rfl (hg.name_ne _ (Or.inr hmem)).2
  · rw [if_neg hname, Option.filter_eq_some_iff, Grammar.terminal?_eq_some hg.terminals_nodup,
      decide_eq_true_eq]
    constructor
    · rintro ⟨h, hne⟩
      have ht := (List.getElem?_eq_some_iff.mp h).1
      exact ⟨Or.inr ⟨ht, hne⟩, (Grammar.terminalName_eq_iff ht).mpr h⟩
    · rintro ⟨rfl | ⟨ht, hne⟩, h⟩
      · exact absurd (h.symm.trans (terminalName_endMarker g)) hname
      · exact ⟨(Grammar.terminalName_eq_iff ht).mp h, hne⟩

/-- **What reading does**: it takes the name of a terminal off the
input. -/
theorem read_eq_ok_iff (hp : p.IsFor g) :
    p.read position input = .ok (t, rest) ↔ g.IsInput t ∧ input = g.terminalName t :: rest := by
  cases input with
  | nil => simp [read]
  | cons name input =>
    rw [read, List.cons.injEq]
    cases hname : p.lookahead? name with
    | none =>
      refine iff_of_false (by simp) ?_
      rintro ⟨ht, h, -⟩
      rw [hp.lookahead?_eq_some_iff.mpr ⟨ht, h.symm⟩] at hname
      cases hname
    | some c =>
      obtain ⟨hc, hcname⟩ := hp.lookahead?_eq_some_iff.mp hname
      constructor
      · intro h
        cases h
        exact ⟨hc, hcname.symm, rfl⟩
      · rintro ⟨ht, h, rfl⟩
        have hct := hname.symm.trans (hp.lookahead?_eq_some_iff.mpr ⟨ht, h.symm⟩)
        cases hct
        rfl

/-- What is read of the input that holds a string of terminals. -/
theorem read_inputOf (hp : p.IsFor g)
    (hts : ∀ t ∈ ts, t.index < g.terminals.length ∧ t ≠ g.epsilon) :
    p.read position (g.inputOf ts) = .ok (ts.headD g.endMarker, (g.inputOf ts).tail) := by
  refine hp.read_eq_ok_iff.mpr ?_
  cases ts with
  | nil => exact ⟨Or.inl rfl, congrArg (· :: []) (terminalName_endMarker g).symm⟩
  | cons t ts => exact ⟨Or.inr (hts t List.mem_cons_self), rfl⟩

end IsFor

/-! ## What is accepted is derived -/

/-- **What the steps so far explain**: the terminals that were matched
and the stack behind them are derived leftmost from the start symbol by
the productions of the steps, and the terminals that were matched are
what has been read of the input. -/
structure Explains (g : Grammar) (input : List String) (steps : List ParseStep)
    (c : Configuration) (above : List Symbol) : Prop where
  stack_eq : c.stack = above ++ [.terminal g.endMarker]
  derives : g.LeftmostDerives [.nonterminal g.start] (expanded steps)
    ((matched steps).map .terminal ++ above)
  isInput : g.IsInput c.lookahead
  input_eq : input = (matched steps).map g.terminalName ++ g.terminalName c.lookahead :: c.rest
  accept_notMem : .accept ∉ steps

variable {c c' c₀ : Configuration} {steps steps' : List ParseStep} {above : List Symbol}

namespace IsFor

theorem explains_of_initial (hp : p.IsFor g) (h : p.initial input = .ok c) :
    Explains g input [] c [.nonterminal g.start] := by
  obtain ⟨t, rest, hread, rfl⟩ := initial_eq_ok.mp h
  obtain ⟨ht, rfl⟩ := hp.read_eq_ok_iff.mp hread
  exact ⟨by rw [hp.grammar_eq]; rfl, Grammar.LeftmostDerives.refl _, ht, rfl, List.not_mem_nil⟩

/-- **A turn carries the explanation on.** -/
theorem explains_of_turn (hp : p.IsFor g) (hc : Explains g input steps c above) {s : ParseStep}
    (h : p.turn c = .goesOn s c') : ∃ above', Explains g input (steps ++ [s]) c' above' := by
  obtain ⟨t, below, hstack, ht, hend, rfl, l, rest, hread, rfl⟩ |
    ⟨x, n, below, hstack, hget, rfl, rfl⟩ := goesOn_cases h
  · -- what is matched moves from the stack to the terminals before it
    rw [hp.grammar_eq] at hend
    obtain ⟨above, rfl, rfl⟩ :=
      eq_append_of_top hstack hc.stack_eq (fun h => hend (Symbol.terminal.inj h))
    obtain ⟨hl, hrest⟩ := hp.read_eq_ok_iff.mp hread
    refine ⟨above, rfl, ?_, hl, ?_, by simp [hc.accept_notMem]⟩
    · simpa using hc.derives
    · have hinput := hc.input_eq
      rw [← ht, hrest] at hinput
      simpa using hinput
  · -- what is expanded is the first nonterminal of the form
    obtain ⟨above, rfl, rfl⟩ := eq_append_of_top hstack hc.stack_eq (by simp)
    obtain ⟨q, hq, rfl, -⟩ := hp.get?.mp hget
    refine ⟨p.expansionAt n ++ above, (List.append_assoc _ _ _).symm, ?_, hc.isInput, ?_,
      by simp [hc.accept_notMem]⟩
    · rw [hp.expansionAt_eq hq]
      have hstep := Grammar.LeftmostDerives.single hq (matched steps) above
      simpa using hc.derives.trans hstep
    · simpa using hc.input_eq

theorem explains_of_reaches (hp : p.IsFor g) (hc : Explains g input steps c above)
    (h : p.Reaches c steps' c') : ∃ above', Explains g input (steps ++ steps') c' above' := by
  induction h generalizing steps above with
  | refl c => exact ⟨above, by rwa [List.append_nil]⟩
  | step hturn _ ih =>
    obtain ⟨above', hnext⟩ := hp.explains_of_turn hc hturn
    obtain ⟨above'', hlast⟩ := ih hnext
    exact ⟨above'', by rwa [List.append_assoc] at hlast⟩

/-- When the end-marker is on top of the stack, all of the form has been
matched. -/
theorem eq_nil_of_top (hp : p.IsFor g) (hc : Explains g input steps c above)
    {below : List Symbol} (hstack : c.stack = .terminal g.endMarker :: below) : above = [] := by
  cases above with
  | nil => rfl
  | cons top above =>
    obtain ⟨htop, -⟩ := List.cons.inj (hstack.symm.trans hc.stack_eq)
    have hmem : .terminal g.endMarker ∈ (matched steps).map Symbol.terminal ++ top :: above := by
      simp [htop]
    have hlt := (hp.wellFormed.isInput_of_derives hc.derives.derives hmem).1
    exact absurd rfl (Grammar.ne_endMarker hlt)

/-- **What the parser has done when it accepts**: its steps derive
leftmost what they match, and what they match is the input. -/
theorem reaches_of_parse (hp : p.IsFor g) (h : p.parse input = .ok steps) :
    ∃ taken c₀ c, steps = taken ++ [.accept] ∧ .accept ∉ taken
      ∧ p.initial input = .ok c₀ ∧ p.Reaches c₀ taken c ∧ input = g.inputOf (matched taken)
      ∧ g.LeftmostDerives [.nonterminal g.start] (expanded taken)
        ((matched taken).map .terminal) := by
  have hrun := result_eq_ok.mp h
  cases hc₀ : p.initial input with
  | error e =>
    rw [run_of_initial_error hc₀] at hrun
    cases hrun
  | ok c₀ =>
    obtain ⟨limit, hloop⟩ := hp.exists_loop_eq_run hc₀
    obtain ⟨taken, c, ⟨last, error?⟩, hr, hlast, heq⟩ := exists_of_loop_eq_some hloop
    rw [hrun] at heq
    obtain ⟨rfl, rfl⟩ : steps = taken ++ last ∧ none = error? := ParseRun.mk.inj heq
    obtain ⟨⟨below, hstack⟩, hlook, hrest, rfl⟩ := turn_eq_accept_iff.mp hlast
    obtain ⟨above, hc⟩ := hp.explains_of_reaches (hp.explains_of_initial hc₀) hr
    rw [List.nil_append] at hc
    rw [hp.grammar_eq] at hstack hlook
    obtain rfl := hp.eq_nil_of_top hc hstack
    have hinput := hc.input_eq
    have hderives := hc.derives
    rw [hrest, hlook, terminalName_endMarker] at hinput
    rw [List.append_nil] at hderives
    exact ⟨taken, c₀, c, rfl, hc.accept_notMem, rfl, hr, hinput, hderives⟩

/-- What is explained before a step on the way. -/
theorem exists_explains (hp : p.IsFor g) (hc₀ : p.initial input = .ok c₀) {s : ParseStep}
    (h : p.Reaches c₀ (steps ++ s :: steps') c') :
    ∃ c above next, Explains g input steps c above ∧ p.turn c = .goesOn s next := by
  obtain ⟨c, hleft, hright⟩ := h.of_append
  obtain ⟨above, hc⟩ := hp.explains_of_reaches (hp.explains_of_initial hc₀) hleft
  cases hright with
  | step hturn _ => exact ⟨c, above, _, hc, hturn⟩

/-- **A terminal is matched when it is the first symbol of the form that
is not matched yet.** -/
theorem leftmostDerives_of_matched (hp : p.IsFor g) (hc₀ : p.initial input = .ok c₀)
    (h : p.Reaches c₀ (steps ++ .matched t :: steps') c') :
    ∃ rest, g.LeftmostDerives [.nonterminal g.start] (expanded steps)
      ((matched steps).map .terminal ++ .terminal t :: rest) := by
  obtain ⟨c, above, next, hc, hturn⟩ := hp.exists_explains hc₀ h
  obtain ⟨t', below, hstack, -, hend, heq, -⟩ | ⟨x, n, below, -, -, heq, -⟩ := goesOn_cases hturn
  · cases heq
    rw [hp.grammar_eq] at hend
    obtain ⟨rest, rfl, -⟩ :=
      eq_append_of_top hstack hc.stack_eq (fun h => hend (Symbol.terminal.inj h))
    exact ⟨rest, hc.derives⟩
  · cases heq

/-- **A nonterminal is expanded when it is the first symbol of the form
that is not matched yet**, by one of its productions. -/
theorem leftmostDerives_of_expand (hp : p.IsFor g) (hc₀ : p.initial input = .ok c₀)
    {x : Nonterminal} {n : Nat} (h : p.Reaches c₀ (steps ++ .expand x n :: steps') c') :
    ∃ q rest, g.productions[n]? = some q ∧ q.lhs = x
      ∧ g.LeftmostDerives [.nonterminal g.start] (expanded steps)
        ((matched steps).map .terminal ++ .nonterminal x :: rest) := by
  obtain ⟨c, above, next, hc, hturn⟩ := hp.exists_explains hc₀ h
  obtain ⟨t, below, -, -, -, heq, -⟩ | ⟨x', n', below, hstack, hget, heq, -⟩ := goesOn_cases hturn
  · cases heq
  · cases heq
    obtain ⟨rest, rfl, -⟩ := eq_append_of_top hstack hc.stack_eq (by simp)
    obtain ⟨q, hq, hlhs, -⟩ := hp.get?.mp hget
    exact ⟨q, rest, hq, hlhs, hc.derives⟩

end IsFor

end PredictiveParser

/-! ## What is derived is accepted -/

/-- **The next terminal selects the production that a derivation uses**,
or the end-marker does when there is none. -/
theorem Grammar.WellFormed.selects_of_generates {g : Grammar} (hg : g.WellFormed)
    {q : Production} {before s : List Symbol} {ns : List Nat} {ts : List Terminal}
    (hform : g.Derives [.nonterminal g.start] (before ++ .nonterminal q.lhs :: s))
    (hq : q ∈ g.productions) (h : g.Generates (g.expansion q.rhs ++ s) ns ts) :
    g.Selects q (ts.headD g.endMarker) := by
  obtain ⟨ns₁, ns₂, ts₁, ts₂, rfl, rfl, hq₁, hs⟩ := generates_append_iff.mp h
  have hexp := derives_iff_exists_generates.mpr ⟨ns₁, hq₁⟩
  have hform' := hform.trans
    (((derives_iff_exists_generates.mpr ⟨ns₂, hs⟩).append_left [.nonterminal q.lhs]).append_left
      before)
  cases ts₁ with
  | cons t ts₁ =>
    -- the production puts the terminal in
    have hall := hform'.trans
      ((((Derives.of_mem hq).trans hexp).append_right _).append_left before)
    have ht := hg.isInput_of_derives (t := t) hall (by simp)
    exact Or.inl ⟨ht.2, (begins_of_ne ht.2).mpr ⟨_, hexp⟩⟩
  | nil =>
    refine Or.inr ⟨hexp, ?_⟩
    cases ts₂ with
    | cons t ts₂ =>
      have ht := hg.isInput_of_derives (t := t) hform' (by simp)
      exact Or.inl ⟨ne_endMarker ht.1, g.start, hg.start_declared, before, ts₂.map .terminal,
        hform'⟩
    | nil => exact Or.inr ⟨rfl, before, hform'⟩

namespace PredictiveParser

variable {p : PredictiveParser} {g : Grammar} {ns : List Nat} {ts : List Terminal}

namespace IsFor

/-- **The parser goes through every derivation of terminals** from the
stack of a sentential form, and comes down to the end-marker. -/
theorem reaches_of_generates (hp : p.IsFor g) {s : List Symbol} (h : g.Generates s ns ts)
    {before : List Symbol} (hform : g.Derives [.nonterminal g.start] (before ++ s))
    (position : Nat) :
    ∃ steps last, expanded steps = ns ∧ matched steps = ts ∧ p.Reaches
      ⟨s ++ [.terminal g.endMarker], ts.headD g.endMarker, (g.inputOf ts).tail, position⟩
      steps ⟨[.terminal g.endMarker], g.endMarker, [], last⟩ := by
  have hg := hp.wellFormed
  induction h generalizing before position with
  | nil => exact ⟨[], position, rfl, rfl, Reaches.refl _⟩
  | @terminal t s ns ts h ih =>
    have hform' : g.Derives [.nonterminal g.start] ((before ++ [.terminal t]) ++ s) := by
      simpa using hform
    have hts : ∀ u ∈ ts, u.index < g.terminals.length ∧ u ≠ g.epsilon := fun u hu => by
      have hall := hform'.trans ((Grammar.derives_iff_exists_generates.mpr ⟨ns, h⟩).append_left
        (before ++ [.terminal t]))
      exact hg.isInput_of_derives hall (List.mem_append_right _ (List.mem_map_of_mem hu))
    have ht : t ≠ p.grammar.endMarker := by
      rw [hp.grammar_eq]
      exact Grammar.ne_endMarker (hg.isInput_of_derives (t := t) hform (by simp)).1
    obtain ⟨steps, last, rfl, rfl, hr⟩ := ih hform' (position + 1)
    exact ⟨.matched t :: steps, last, rfl, rfl,
      Reaches.step (turn_terminal ht (hp.read_inputOf hts) _) hr⟩
  | @expand n q s ns ts hq h ih =>
    have hmem := List.mem_of_getElem? hq
    have hget : p.table.get? q.lhs (ts.headD g.endMarker) = some n :=
      hp.get?.mpr ⟨q, hq, rfl, (hg.mem_select_iff hmem).mpr (hg.selects_of_generates hform hmem h)⟩
    have hform' := hform.trans
      (Relation.ReflTransGen.single (Grammar.Step.expand hmem before s))
    obtain ⟨steps, last, rfl, rfl, hr⟩ := ih hform' position
    refine ⟨.expand q.lhs n :: steps, last, rfl, rfl,
      Reaches.step (turn_nonterminal hget _ _ _) ?_⟩
    rw [List.append_assoc] at hr
    rw [hp.expansionAt_eq hq]
    exact hr

/-- **Every derivation of terminals is found**, on the input that holds
them. -/
theorem parse_of_generates (hp : p.IsFor g) (h : g.Generates [.nonterminal g.start] ns ts) :
    ∃ steps, p.parse (g.inputOf ts) = .ok (steps ++ [.accept])
      ∧ expanded steps = ns ∧ matched steps = ts := by
  have hform : g.Derives [.nonterminal g.start] ([] ++ [.nonterminal g.start]) :=
    Grammar.Derives.refl g _
  obtain ⟨steps, last, hns, hts, hr⟩ := hp.reaches_of_generates h hform 0
  have hderives := Grammar.derives_iff_exists_generates.mpr ⟨ns, h⟩
  have hread : p.read 0 (g.inputOf ts) = .ok (ts.headD g.endMarker, (g.inputOf ts).tail) :=
    hp.read_inputOf (fun t ht =>
      hp.wellFormed.isInput_of_derives hderives (List.mem_map_of_mem ht))
  have hinitial := initial_eq_ok.mpr ⟨_, _, hread, rfl⟩
  rw [hp.grammar_eq] at hinitial
  have haccept : p.loop 1 ⟨[.terminal g.endMarker], g.endMarker, [], last⟩
      = some ⟨[.accept], none⟩ := by
    rw [loop, turn_eq_accept_iff.mpr ⟨⟨[], by rw [hp.grammar_eq]⟩, by rw [hp.grammar_eq], rfl, rfl⟩]
  -- the loop returns nothing else than the parser
  obtain ⟨limit, hloop⟩ := hp.exists_loop_eq_run hinitial
  have hrun := loop_unique hloop (hr.loop_eq haccept)
  exact ⟨steps, result_eq_ok.mpr hrun, hns, hts⟩

/-- **An input is accepted if and only if it holds terminals that the
start symbol derives.** -/
theorem exists_parse_iff (hp : p.IsFor g) {input : List String} :
    (∃ steps, p.parse input = .ok steps) ↔ ∃ ts : List Terminal, input = g.inputOf ts
      ∧ g.Derives [.nonterminal g.start] (ts.map .terminal) := by
  constructor
  · rintro ⟨steps, h⟩
    obtain ⟨taken, -, -, -, -, -, -, hinput, hderives⟩ := hp.reaches_of_parse h
    exact ⟨matched taken, hinput, hderives.derives⟩
  · rintro ⟨ts, rfl, hderives⟩
    obtain ⟨ns, h⟩ := Grammar.derives_iff_exists_generates.mp hderives
    obtain ⟨steps, hparse, -, -⟩ := hp.parse_of_generates h
    exact ⟨_, hparse⟩

/-- **There is only one leftmost derivation** of what is accepted: the
parser finds every one, and it finds one. -/
theorem eq_expanded_of_parse (hp : p.IsFor g) {taken : List ParseStep}
    (h : p.parse (g.inputOf ts) = .ok (taken ++ [.accept]))
    (hns : g.LeftmostDerives [.nonterminal g.start] ns (ts.map .terminal)) :
    ns = expanded taken := by
  obtain ⟨steps, hparse, rfl, -⟩ :=
    hp.parse_of_generates (Grammar.leftmostDerives_iff_generates.mp hns)
  rw [h, Except.ok.injEq] at hparse
  rw [List.append_cancel_right hparse]

end IsFor

/-! ## The language -/

/-- **The parser of an LL(1) grammar accepts its language**: an input is
accepted if and only if it holds terminals that the start symbol derives,
and the end-marker behind them. The steps by which it is accepted expand
by the leftmost derivation of these terminals, which is the only one,
and match the terminals in order; each symbol is replaced or matched when
it is the first of the sentential form that is not matched yet; and the
parser accepts with the last step and with no other. -/
theorem parse_exact (hg : g.Constructed)
    (hll : (LookaheadAnalysis.ofGrammar g).isLL1 = true) :
    ∃ p, ofAnalysis (LookaheadAnalysis.ofGrammar g) = .ok p
      ∧ (∀ input, (∃ steps, p.parse input = .ok steps) ↔ ∃ ts : List Terminal,
          input = ts.map g.terminalName ++ [endMarkerName]
            ∧ (∀ t ∈ ts, t.index < g.terminals.length ∧ t ≠ g.epsilon)
            ∧ g.Derives [.nonterminal g.start] (ts.map .terminal))
      ∧ ∀ input steps, p.parse input = .ok steps → ∃ taken ts,
          input = ts.map g.terminalName ++ [endMarkerName]
            ∧ steps = taken ++ [.accept] ∧ .accept ∉ taken ∧ matched taken = ts
            ∧ g.LeftmostDerives [.nonterminal g.start] (expanded taken) (ts.map .terminal)
            ∧ (∀ ns, g.LeftmostDerives [.nonterminal g.start] ns (ts.map .terminal) →
                ns = expanded taken)
            ∧ (∀ before t after, taken = before ++ .matched t :: after → ∃ rest,
                g.LeftmostDerives [.nonterminal g.start] (expanded before)
                  ((matched before).map .terminal ++ .terminal t :: rest))
            ∧ ∀ before x n after, taken = before ++ .expand x n :: after → ∃ q rest,
                g.productions[n]? = some q ∧ q.lhs = x
                  ∧ g.LeftmostDerives [.nonterminal g.start] (expanded before)
                    ((matched before).map .terminal ++ .nonterminal x :: rest) := by
  obtain ⟨p, hofAnalysis⟩ := (exists_ofAnalysis_iff _).mpr hll
  have hp := isFor_of_ofAnalysis hg.wellFormed hofAnalysis
  refine ⟨p, hofAnalysis, fun input => hp.exists_parse_iff.trans ?_, fun input steps h => ?_⟩
  · constructor
    · rintro ⟨ts, rfl, h⟩
      exact ⟨ts, rfl, fun t ht =>
        hp.wellFormed.isInput_of_derives h (List.mem_map_of_mem ht), h⟩
    · rintro ⟨ts, rfl, -, h⟩
      exact ⟨ts, rfl, h⟩
  · obtain ⟨taken, c₀, c, rfl, haccept, hc₀, hr, rfl, hderives⟩ := hp.reaches_of_parse h
    refine ⟨taken, matched taken, rfl, rfl, haccept, rfl, hderives,
      fun ns hns => hp.eq_expanded_of_parse h hns, ?_, ?_⟩
    · rintro before t after rfl
      exact hp.leftmostDerives_of_matched hc₀ hr
    · rintro before x n after rfl
      exact hp.leftmostDerives_of_expand hc₀ hr

/-- The parser of the grammar of brackets accepts `()#`, and `)` is not
derived, for it does not accept `)#`. -/
theorem parse_exact_brackets :
    Grammar.brackets.Constructed
      ∧ (LookaheadAnalysis.ofGrammar Grammar.brackets).isLL1 = true
      ∧ ∃ p, ofAnalysis (LookaheadAnalysis.ofGrammar Grammar.brackets) = .ok p
        ∧ (∃ steps, p.parse ["(", ")", "#"] = .ok steps)
        ∧ ¬ Grammar.brackets.Derives [.nonterminal ⟨0⟩] [.terminal ⟨1⟩] := by
  have hll : (LookaheadAnalysis.ofGrammar Grammar.brackets).isLL1 = true := by decide +kernel
  obtain ⟨p, hp, haccepts, -⟩ := parse_exact Grammar.constructed_brackets hll
  have hgenerates : Grammar.brackets.Generates [.nonterminal ⟨0⟩] [0, 1, 1] [⟨0⟩, ⟨1⟩] :=
    .expand (q := ⟨⟨0⟩, _⟩) rfl (.terminal (.expand (q := ⟨⟨0⟩, _⟩) rfl
      (.terminal (.expand (q := ⟨⟨0⟩, _⟩) rfl .nil))))
  refine ⟨Grammar.constructed_brackets, hll, p, hp,
    (haccepts ["(", ")", "#"]).mpr ⟨[⟨0⟩, ⟨1⟩], rfl, by decide,
      Grammar.derives_iff_exists_generates.mpr ⟨_, hgenerates⟩⟩, fun h => ?_⟩
  obtain ⟨steps, hsteps⟩ := (haccepts [")", "#"]).mpr ⟨[⟨1⟩], rfl, by decide, h⟩
  obtain ⟨-, rfl⟩ := eq_of_ofAnalysis hp
  have hrejected : (parse ⟨Grammar.brackets, .ofSelect Grammar.brackets
      (LookaheadAnalysis.ofGrammar Grammar.brackets).select⟩ [")", "#"]).toOption = none := by
    decide +kernel
  cases (congrArg Except.toOption hsteps).symm.trans hrejected

end PredictiveParser

end GrammarAnalysis
