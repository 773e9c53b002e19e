import GrammarAnalysis.Proofs.WritingOrder

/-!
# Adding alternatives

A grammar is part of another one (`Grammar.IsPartOf`) when both have the same
symbols and the second has further alternatives, anywhere among those of the
first. Symbols and productions are compared by names, because the numbers
depend on where the further alternatives stand; and alternatives are counted,
because an alternative that is written twice is a conflict.

Some renumbering then embeds the first grammar in the second
(`IsPartOf.exists_embeds`), and what is defined by derivations, by least
solutions or by assertions only grows. Neither SELECT nor the verdicts are
monotone as they are computed. A right-hand side that comes to derive the
empty string loses the epsilon terminal on the way to SELECT, and gets FOLLOW
instead; that nothing else is lost is seen in what SELECT means (`Selects`).
And with further alternatives another conflict, or another contradiction, may
be met first. What survives is that there is one at all: it is said of all
pairs of productions (`IsDeterministic`), or of all pairs of assertions
(`AssertionsAgree`), and every pair of the first grammar is one of the second.
-/

namespace GrammarAnalysis

/-- **A grammar is part of another one**: both have the same nonterminals, the
same terminals and the same start symbol, and the second has the alternatives
of the first and further ones, in any order. -/
structure Grammar.IsPartOf (g g' : Grammar) : Prop where
  nonterminals : g.nonterminals.Perm g'.nonterminals
  terminals : g.terminals.Perm g'.terminals
  start : g'.nonterminalName g'.start = g.nonterminalName g.start
  productions : ∃ further,
    (g'.productions.map g'.named).Perm (g.productions.map g.named ++ further)

/-- **A grammar is embedded in any grammar it is part of.** -/
theorem Grammar.IsPartOf.exists_embeds {g g' : Grammar} (h : g.IsPartOf g') (hg : g.WellFormed)
    (hg' : g'.WellFormed) : ∃ ρ : Renumbering, ρ.Embeds g g' := by
  obtain ⟨further, hperm⟩ := h.productions
  obtain ⟨eP, heP, -⟩ := exists_equiv_of_perm hperm.symm
  obtain ⟨ρ, rfl, hnonterminal, hterminal, hend, hstart⟩ :=
    Renumbering.exists_renumbering hg hg' h.nonterminals h.terminals h.start eP
  refine ⟨ρ, hg, hg', hnonterminal, hterminal, hend, hstart, fun n p hp => ?_⟩
  -- the further alternatives come behind, so the places before them stay
  have hn : n < (g.productions.map g.named).length := by
    rw [List.length_map]
    exact (List.getElem?_eq_some_iff.mp hp).1
  have hnamed : (g'.productions.map g'.named)[ρ.production n]?
      = (g.productions.map g.named)[n]? :=
    (heP n).trans (List.getElem?_append_left hn)
  rw [Renumbering.getElem?_productions_of_named hg hg' hnonterminal hterminal hnamed, hp,
    Option.map_some]

namespace Renumbering

variable {ρ : Renumbering} {g g' : Grammar} {x : Nonterminal}

/-- A set holds the images of all members of another one. -/
def Includes (ρ : Renumbering) (s s' : TerminalSet) : Prop :=
  ∀ t ∈ s, ρ.terminal t ∈ s'

/-! ## The LL(1) analysis -/

/-- **An LL(1) analysis that has grown**: all sets have, SELECT of the
productions that were there, and nothing has become LL(1). -/
structure LookaheadGrows (ρ : Renumbering) (a a' : LookaheadAnalysis) : Prop where
  firstOf : ∀ x, ρ.Includes (a.firstOf x) (a'.firstOf (ρ.nonterminal x))
  followOf : ∀ x, ρ.Includes (a.followOf x) (a'.followOf (ρ.nonterminal x))
  nullable : ∀ x, a.nullable x = true → a'.nullable (ρ.nonterminal x) = true
  select : ∀ n s, a.select[n]? = some s →
    ∃ s', a'.select[ρ.production n]? = some s' ∧ ρ.Includes s s'
  isLL1 : a.isLL1 = false → a'.isLL1 = false

/-- **The LL(1) analysis grows with the grammar.** -/
theorem Embeds.lookaheadGrows (h : ρ.Embeds g g') :
    ρ.LookaheadGrows (.ofGrammar g) (.ofGrammar g') where
  firstOf := fun _ _ => h.mem_first
  followOf := fun _ _ => h.mem_follow
  nullable := fun x hx => by
    have hmem : g.epsilon ∈ g.solveFirst.table.get x := of_decide_eq_true hx
    refine decide_eq_true ?_
    show g'.epsilon ∈ g'.solveFirst.table.get (ρ.nonterminal x)
    rw [h.epsilon]
    exact h.mem_first hmem
  select := fun n s hs => by
    obtain ⟨p, hp, rfl⟩ := Option.map_eq_some_iff.mp (List.getElem?_map.symm.trans hs)
    refine ⟨g'.select (ρ.rename p), ?_, fun t => h.mem_select (List.mem_of_getElem? hp)⟩
    show (g'.productions.map g'.select)[ρ.production n]? = _
    rw [List.getElem?_map, h.getElem?_productions n p hp, Option.map_some]
  isLL1 := fun hfalse => by
    rw [← Bool.not_eq_true, LookaheadAnalysis.isLL1_ofGrammar_iff h.source] at hfalse
    rw [← Bool.not_eq_true, LookaheadAnalysis.isLL1_ofGrammar_iff h.target]
    exact mt h.isDeterministic hfalse

/-! ## The precedence analysis -/

/-- **A precedence analysis that has grown**: no fault of the shape is gone,
and without one FIRSTVT and LASTVT have grown; nothing has become an
operator-precedence grammar, and of a grammar that still is one all
populated cells have stayed. -/
structure PrecedenceGrows (ρ : Renumbering) (g g' : Grammar) : Prop where
  shapeFault? : g'.shapeFault? = none → g.shapeFault? = none
  firstVT? : g'.shapeFault? = none → ∀ x, ∃ s s',
    (PrecedenceAnalysis.ofGrammar g).firstVT? x = some s
      ∧ (PrecedenceAnalysis.ofGrammar g').firstVT? (ρ.nonterminal x) = some s' ∧ ρ.Includes s s'
  lastVT? : g'.shapeFault? = none → ∀ x, ∃ s s',
    (PrecedenceAnalysis.ofGrammar g).lastVT? x = some s
      ∧ (PrecedenceAnalysis.ofGrammar g').lastVT? (ρ.nonterminal x) = some s' ∧ ρ.Includes s s'
  isOperatorPrecedence : (PrecedenceAnalysis.ofGrammar g).isOperatorPrecedence = false →
    (PrecedenceAnalysis.ofGrammar g').isOperatorPrecedence = false
  matrix? : (PrecedenceAnalysis.ofGrammar g').isOperatorPrecedence = true → ∃ m m',
    (PrecedenceAnalysis.ofGrammar g).matrix? = some m
      ∧ (PrecedenceAnalysis.ofGrammar g').matrix? = some m'
      ∧ ∀ l r relation, m.get? l r = some relation →
        m'.get? (ρ.terminal l) (ρ.terminal r) = some relation

namespace Embeds

/-- Part of an operator-precedence grammar is one. -/
theorem verdict_eq_operatorPrecedence (h : ρ.Embeds g g')
    (hv : (PrecedenceAnalysis.ofGrammar g').verdict = .operatorPrecedence) :
    (PrecedenceAnalysis.ofGrammar g).verdict = .operatorPrecedence := by
  obtain ⟨hop, hc⟩ := PrecedenceAnalysis.verdict_eq_operatorPrecedence_iff.mp hv
  have hagree := (h.target.contradiction?_eq_none_iff hop).mp hc
  exact PrecedenceAnalysis.verdict_eq_operatorPrecedence_iff.mpr ⟨h.operatorShaped hop,
    (h.source.contradiction?_eq_none_iff (h.operatorShaped hop)).mpr (h.assertionsAgree hagree)⟩

theorem edgeVT? (h : ρ.Embeds g g') (hop : g'.OperatorShaped) (edge : Edge) (x : Nonterminal) :
    ∃ s s', (PrecedenceAnalysis.ofGrammar g).edgeVT? edge x = some s
      ∧ (PrecedenceAnalysis.ofGrammar g').edgeVT? edge (ρ.nonterminal x) = some s'
      ∧ ρ.Includes s s' :=
  ⟨_, _, PrecedenceAnalysis.edgeVT?_eq_some (h.operatorShaped hop) edge x,
    PrecedenceAnalysis.edgeVT?_eq_some hop edge (ρ.nonterminal x), fun _ => h.mem_edge⟩

/-- **The precedence analysis grows with the grammar.** -/
theorem precedenceGrows (h : ρ.Embeds g g') : ρ.PrecedenceGrows g g' where
  shapeFault? := fun hnone =>
    Grammar.shapeFault?_eq_none_iff.mpr
      (h.operatorShaped (Grammar.shapeFault?_eq_none_iff.mp hnone))
  firstVT? := fun hnone => h.edgeVT? (Grammar.shapeFault?_eq_none_iff.mp hnone) .first
  lastVT? := fun hnone => h.edgeVT? (Grammar.shapeFault?_eq_none_iff.mp hnone) .last
  isOperatorPrecedence := fun hfalse =>
    decide_eq_false (mt h.verdict_eq_operatorPrecedence (of_decide_eq_false hfalse))
  matrix? := fun htrue => by
    have hv := of_decide_eq_true htrue
    obtain ⟨m, hm, hget⟩ :=
      PrecedenceAnalysis.get?_matrix_iff h.source (h.verdict_eq_operatorPrecedence hv)
    obtain ⟨m', hm', hget'⟩ := PrecedenceAnalysis.get?_matrix_iff h.target hv
    exact ⟨m, m', hm, hm', fun l r relation hcell =>
      (hget' _ _ _).mpr (h.asserts ((hget l relation r).mp hcell))⟩

end Embeds

/-! ## The results -/

/-- **Results that have grown**, read by names. -/
structure ResultsGrow (ρ : Renumbering) (g g' : Grammar) : Prop where
  nonterminalName : ∀ x, g'.nonterminalName (ρ.nonterminal x) = g.nonterminalName x
  terminalName : ∀ t, g'.terminalName (ρ.terminal t) = g.terminalName t
  named : ∀ n p, g.productions[n]? = some p →
    ∃ p', g'.productions[ρ.production n]? = some p' ∧ g'.named p' = g.named p
  lookahead : ρ.LookaheadGrows (.ofGrammar g) (.ofGrammar g')
  precedence : ρ.PrecedenceGrows g g'

theorem Embeds.named_rename (h : ρ.Embeds g g') (p : Production) :
    g'.named (ρ.rename p) = g.named p := by
  rw [Grammar.named, rename, h.nonterminalName, h.map_symbolName, Grammar.named]

theorem Embeds.resultsGrow (h : ρ.Embeds g g') : ρ.ResultsGrow g g' where
  nonterminalName := h.nonterminalName
  terminalName := h.terminalName
  named := fun n p hp => ⟨ρ.rename p, h.getElem?_productions n p hp, h.named_rename p⟩
  lookahead := h.lookaheadGrows
  precedence := h.precedenceGrows

end Renumbering

/-- **Adding alternatives is monotone.** Whatever alternatives are added to a
constructed grammar, and wherever they are written, the results of the larger
grammar include those of the smaller one, under the same names; and no verdict
becomes favourable. -/
theorem Grammar.IsPartOf.results_grow {g g' : Grammar} (hg : g.Constructed)
    (hg' : g'.Constructed) (h : g.IsPartOf g') : ∃ ρ : Renumbering, ρ.ResultsGrow g g' := by
  obtain ⟨ρ, hembeds⟩ := h.exists_embeds hg.wellFormed hg'.wellFormed
  exact ⟨ρ, hembeds.resultsGrow⟩

/-! ## Sums with empty brackets -/

/-- Sums with one more alternative, `()`, and written in another order. -/
def Grammar.longerSums : Grammar where
  nonterminals := ["T", "E"]
  terminals := ["i", "(", ")", "+", "NULL"]
  start := ⟨1⟩
  rules :=
    [⟨⟨0⟩, [[.terminal ⟨1⟩, .terminal ⟨2⟩], [.terminal ⟨0⟩],
        [.terminal ⟨1⟩, .nonterminal ⟨1⟩, .terminal ⟨2⟩]]⟩,
      ⟨⟨1⟩, [[.nonterminal ⟨0⟩], [.nonterminal ⟨1⟩, .terminal ⟨3⟩, .nonterminal ⟨0⟩]]⟩]

theorem Grammar.constructed_longerSums : longerSums.Constructed :=
  have h : (Grammar.ofLists ["T", "E"] ["i", "(", ")", "+"] ["T->()|i|(E)", "E->T|E+T"]
      "E").toOption = some longerSums := by decide +kernel
  .ofLists (eq_ok_of_toOption h)

/-- Sums are left recursive, so no sums are LL(1); and as the longer sums are
an operator-precedence grammar, what yields to what in sums does so in
them. -/
theorem Grammar.results_grow_sums : sums.Constructed ∧ longerSums.Constructed
    ∧ sums.IsPartOf longerSums ∧ (LookaheadAnalysis.ofGrammar longerSums).isLL1 = false
    ∧ ∃ m m', (PrecedenceAnalysis.ofGrammar sums).matrix? = some m
      ∧ (PrecedenceAnalysis.ofGrammar longerSums).matrix? = some m'
      ∧ ∀ l r, m.get? l r = some .less → ∃ l' r', longerSums.terminalName l' = sums.terminalName l
        ∧ longerSums.terminalName r' = sums.terminalName r ∧ m'.get? l' r' = some .less := by
  have hpart : sums.IsPartOf longerSums :=
    ⟨by decide, by decide, by decide, [("T", ["(", ")"])], by decide +kernel⟩
  obtain ⟨ρ, hgrow⟩ := hpart.results_grow constructed_sums constructed_longerSums
  obtain ⟨m, m', hm, hm', hcells⟩ := hgrow.precedence.matrix? (by decide +kernel)
  exact ⟨constructed_sums, constructed_longerSums, hpart,
    hgrow.lookahead.isLL1 (by decide +kernel), m, m', hm, hm', fun l r hcell =>
      ⟨ρ.terminal l, ρ.terminal r, hgrow.terminalName l, hgrow.terminalName r,
        hcells l r .less hcell⟩⟩

end GrammarAnalysis
