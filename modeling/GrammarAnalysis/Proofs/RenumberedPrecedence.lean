import GrammarAnalysis.Proofs.PrecedenceVerdict
import GrammarAnalysis.Proofs.Renumbering
import Mathlib.Data.List.Infix

/-!
# Precedence analysis of a renumbered grammar

FIRSTVT and LASTVT are not given by derivations but as least solutions of
their inclusions. A solution for the second of two grammars, read through an
embedding, is one for the first; so what is in the least solution of the
first has its image in that of the second (`Embeds.mem_edge`). All else in
the analysis of a grammar is decided by its right-hand sides and these sets:
of an embedded grammar more can be asserted and more can be wrong with its
shape, never less.

A verdict names productions, and of several faults it reports the first
one. Both depend on the numbers; what does not is the kind of the verdict.
In particular a contradiction is found at all in one of two grammars
exactly when one is found in the other, whichever assertion meets it first
(`Carries.contradiction?_eq_none_iff`).
-/

namespace GrammarAnalysis

namespace Renumbering

variable {ρ : Renumbering} {g g' : Grammar} {f : Family} {u : List Symbol} {x : Nonterminal}
  {l r t : Terminal} {edge : Edge} {relation : Relation}

/-! ## Strings -/

/-- Renumbering leaves nonterminals apart. -/
theorem separated_map : Separated (u.map ρ.symbol) ↔ Separated u := by
  have hapart : ∀ s s' : Symbol, (ρ.symbol s).Apart (ρ.symbol s') ↔ s.Apart s' := by
    intro s s'
    cases s <;> cases s' <;> rfl
  unfold Separated
  rw [List.isChain_map]
  simp only [hapart]

theorem opens_map (h : Opens u t) : Opens (u.map ρ.symbol) (ρ.terminal t) := by
  cases h with
  | terminal t rest => exact .terminal _ _
  | nonterminal x t rest => exact .nonterminal _ _ _

theorem read_map (edge : Edge) (u : List Symbol) :
    edge.read (u.map ρ.symbol) = (edge.read u).map ρ.symbol := by
  cases edge with
  | first => rfl
  | last => exact List.map_reverse.symm

theorem contributes_map (h : Contributes (fun x t => f (ρ.nonterminal x) (ρ.terminal t)) u t) :
    Contributes f (u.map ρ.symbol) (ρ.terminal t) := by
  cases h with
  | opens h => exact .opens (opens_map h)
  | inherited h => exact .inherited h

theorem neighbours_map (h : Neighbours u l r) :
    Neighbours (u.map ρ.symbol) (ρ.terminal l) (ρ.terminal r) := by
  obtain h | ⟨x, h⟩ := h
  · exact Or.inl (h.map ρ.symbol)
  · exact Or.inr ⟨ρ.nonterminal x, h.map ρ.symbol⟩

/-! ## An embedded grammar -/

namespace Embeds

theorem mem_edge (h : ρ.Embeds g g') (ht : t ∈ (g.solveEdge edge).table.get x) :
    ρ.terminal t ∈ (g'.solveEdge edge).table.get (ρ.nonterminal x) := by
  refine h.source.solveEdge_le
    (f := fun x t => ρ.terminal t ∈ (g'.solveEdge edge).table.get (ρ.nonterminal x))
    (h.source.closed_edgeSystem_iff.mpr fun p hp t ht => ?_) x t ht
  refine h.target.closed_edgeSystem_iff.mp h.target.closed_solveEdge (ρ.rename p)
    (h.rename_mem hp) _ ?_
  rw [rename, read_map]
  exact contributes_map ht

theorem adjacentNonterminals?_eq_none (h : ρ.Embeds g g')
    (hnone : g'.adjacentNonterminals? = none) : g.adjacentNonterminals? = none := by
  rw [Grammar.adjacentNonterminals?_eq_none_iff] at hnone ⊢
  exact fun p hp => separated_map.mp (hnone _ (h.rename_mem hp))

theorem epsilonProduction?_eq_none (h : ρ.Embeds g g') (hnone : g'.epsilonProduction? = none) :
    g.epsilonProduction? = none := by
  rw [Grammar.epsilonProduction?_eq_none_iff] at hnone ⊢
  exact fun p hp => mt h.map_eq_epsilon_iff.mpr (hnone _ (h.rename_mem hp))

/-- **No fault goes away with further productions.** -/
theorem operatorShaped (h : ρ.Embeds g g') (hop : g'.OperatorShaped) : g.OperatorShaped := by
  rw [← Grammar.shapeFault?_eq_none_iff, Grammar.shapeFault?_eq_none_iff_and] at hop ⊢
  exact ⟨h.adjacentNonterminals?_eq_none hop.1, h.epsilonProduction?_eq_none hop.2⟩

/-- **What is asserted stays asserted.** -/
theorem asserts (h : ρ.Embeds g g') (ha : g.Asserts l relation r) :
    g'.Asserts (ρ.terminal l) relation (ρ.terminal r) := by
  obtain ⟨p, hp, ha⟩ := ha
  refine ⟨ρ.rename p, h.rename_mem hp, ?_⟩
  cases ha with
  | less hl hr => exact .less (hl.map ρ.symbol) (h.mem_edge hr)
  | equal hlr => exact .equal (neighbours_map hlr)
  | greater hr hl => exact .greater (hr.map ρ.symbol) (h.mem_edge hl)

theorem assertionsAgree (h : ρ.Embeds g g') (hagree : g'.AssertionsAgree) :
    g.AssertionsAgree :=
  fun l r _ _ ha ha' => hagree (ρ.terminal l) (ρ.terminal r) _ _ (h.asserts ha) (h.asserts ha')

end Embeds

/-! ## A carried grammar -/

namespace Carries

/-- **What is in FIRSTVT and LASTVT** does not depend on the numbers. -/
theorem mem_edge_iff (h : ρ.Carries g g') :
    ρ.terminal t ∈ (g'.solveEdge edge).table.get (ρ.nonterminal x) ↔
      t ∈ (g.solveEdge edge).table.get x :=
  ⟨fun ht => by simpa using h.symm.embeds.mem_edge ht, h.embeds.mem_edge⟩

theorem adjacentNonterminals?_eq_none_iff (h : ρ.Carries g g') :
    g'.adjacentNonterminals? = none ↔ g.adjacentNonterminals? = none :=
  ⟨h.embeds.adjacentNonterminals?_eq_none, h.symm.embeds.adjacentNonterminals?_eq_none⟩

theorem epsilonProduction?_eq_none_iff (h : ρ.Carries g g') :
    g'.epsilonProduction? = none ↔ g.epsilonProduction? = none :=
  ⟨h.embeds.epsilonProduction?_eq_none, h.symm.embeds.epsilonProduction?_eq_none⟩

theorem operatorShaped_iff (h : ρ.Carries g g') : g'.OperatorShaped ↔ g.OperatorShaped :=
  ⟨h.embeds.operatorShaped, h.symm.embeds.operatorShaped⟩

/-- **What is asserted** does not depend on the numbers. -/
theorem asserts_iff (h : ρ.Carries g g') :
    g'.Asserts (ρ.terminal l) relation (ρ.terminal r) ↔ g.Asserts l relation r :=
  ⟨fun ha => by simpa using h.symm.embeds.asserts ha, h.embeds.asserts⟩

theorem contradiction?_eq_none_iff (h : ρ.Carries g g') (hop : g.OperatorShaped) :
    g'.filling.contradiction? = none ↔ g.filling.contradiction? = none := by
  rw [h.target.contradiction?_eq_none_iff (h.operatorShaped_iff.mpr hop),
    h.source.contradiction?_eq_none_iff hop]
  exact ⟨h.embeds.assertionsAgree, h.symm.embeds.assertionsAgree⟩

end Carries

/-! ## The precedence analysis -/

/-- **The same precedence analysis**, but for the numbers and for the place
of a fault. -/
structure SamePrecedence (ρ : Renumbering) (a a' : PrecedenceAnalysis) : Prop where
  kind : a'.verdict.kind = a.verdict.kind
  firstVT? : ∀ x, a'.firstVT? (ρ.nonterminal x) = (a.firstVT? x).map ρ.set
  lastVT? : ∀ x, a'.lastVT? (ρ.nonterminal x) = (a.lastVT? x).map ρ.set
  /-- There are two matrices or none, and two have the same cells. -/
  matrix? : Option.Rel
    (fun m m' => ∀ l r, m'.get? (ρ.terminal l) (ρ.terminal r) = m.get? l r) a.matrix? a'.matrix?

namespace Carries

theorem kind_verdict (h : ρ.Carries g g') :
    (PrecedenceAnalysis.ofGrammar g').verdict.kind
      = (PrecedenceAnalysis.ofGrammar g).verdict.kind :=
  PrecedenceAnalysis.kind_verdict_congr h.adjacentNonterminals?_eq_none_iff
    h.epsilonProduction?_eq_none_iff h.contradiction?_eq_none_iff

theorem matrix? (h : ρ.Carries g g') : Option.Rel
    (fun m m' : PrecedenceMatrix => ∀ l r, m'.get? (ρ.terminal l) (ρ.terminal r) = m.get? l r)
    (PrecedenceAnalysis.ofGrammar g).matrix? (PrecedenceAnalysis.ofGrammar g').matrix? := by
  refine PrecedenceAnalysis.rel_matrix? h.source h.target h.kind_verdict
    fun m m' hget hget' l r => Option.ext fun relation => ?_
  rw [hget, hget', h.asserts_iff]

/-- FIRSTVT and LASTVT exist in both grammars or in neither. -/
theorem edgeVT? (h : ρ.Carries g g') (edge : Edge) (x : Nonterminal) :
    (PrecedenceAnalysis.ofGrammar g').edgeVT? edge (ρ.nonterminal x)
      = ((PrecedenceAnalysis.ofGrammar g).edgeVT? edge x).map ρ.set :=
  PrecedenceAnalysis.edgeVT?_eq_map h.operatorShaped_iff (eq_set_iff.mpr fun _ => h.mem_edge_iff)

/-- **The precedence analyses of two grammars of which one is carried to the
other are the same.** -/
theorem samePrecedence (h : ρ.Carries g g') :
    ρ.SamePrecedence (.ofGrammar g) (.ofGrammar g') where
  kind := h.kind_verdict
  firstVT? := h.edgeVT? .first
  lastVT? := h.edgeVT? .last
  matrix? := h.matrix?

end Carries

end Renumbering

end GrammarAnalysis
