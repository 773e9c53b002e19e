import GrammarAnalysis.Proofs.PrecedenceVerdict

/-!
# Precedence analysis of the mirror image

Reading from right to left exchanges the two ends of everything. FIRSTVT of
the mirror image is LASTVT, and what stands before a terminal stands after it
there. The relations are exchanged accordingly: where one terminal yields to
another, the other one takes precedence in the mirror image.

The scan of a right-hand side is not symmetric. It looks one symbol back for
the relation *greater*, and one or two symbols ahead for *less* and *equal*,
and makes its assertions in this order. Neither matters for which relations
are asserted at all: `Asserts` says that without a direction, and what it says
of a reversed right-hand side is what it says of the right-hand side with the
terminals exchanged (`Asserts.reverse`). Whether two assertions contradict
each other is then the same question for both grammars, although another
contradiction may be met first.
-/

namespace GrammarAnalysis

/-- The relation between the same terminals, read from right to left. -/
def Relation.opposite : Relation → Relation
  | less => greater
  | equal => equal
  | greater => less

@[simp] theorem Relation.opposite_opposite (relation : Relation) :
    relation.opposite.opposite = relation := by
  cases relation <;> rfl

/-! ## Assertions -/

/-- **What a right-hand side asserts, its mirror image asserts in the
mirror.** -/
theorem Asserts.reverse {firstVT lastVT : SetTable} {u : List Symbol} {l r : Terminal}
    {relation : Relation} (h : Asserts firstVT lastVT u l relation r) :
    Asserts lastVT firstVT u.reverse r relation.opposite l := by
  cases h with
  | less h hr => exact .greater (List.reverse_infix.mpr h) hr
  | equal h => exact .equal h.reverse
  | greater h hl => exact .less (List.reverse_infix.mpr h) hl

namespace Grammar

variable {g : Grammar} {l r : Terminal} {relation : Relation}

theorem Asserts.mirror (h : g.Asserts l relation r) :
    g.mirror.Asserts r relation.opposite l := by
  obtain ⟨p, hp, h⟩ := h
  refine ⟨p.mirror, mem_productions_mirror.mpr (by rwa [Production.mirror_mirror]), ?_⟩
  rw [solveEdge_mirror, solveEdge_mirror]
  exact h.reverse

/-- **The mirror image asserts the opposite relations of exchanged
terminals.** -/
theorem asserts_mirror_iff : g.mirror.Asserts r relation l ↔ g.Asserts l relation.opposite r := by
  constructor
  · intro h
    simpa using h.mirror
  · intro h
    simpa using h.mirror

/-! ## The tests -/

theorem adjacentNonterminals?_mirror_eq_none_iff :
    g.mirror.adjacentNonterminals? = none ↔ g.adjacentNonterminals? = none := by
  rw [adjacentNonterminals?_eq_none_iff, adjacentNonterminals?_eq_none_iff, productions_mirror]
  simp [Production.mirror]

theorem epsilonProduction?_mirror_eq_none_iff :
    g.mirror.epsilonProduction? = none ↔ g.epsilonProduction? = none := by
  rw [epsilonProduction?_eq_none_iff, epsilonProduction?_eq_none_iff, productions_mirror]
  simp [Production.mirror, List.reverse_eq_iff]

theorem operatorShaped_mirror_iff : g.mirror.OperatorShaped ↔ g.OperatorShaped :=
  ⟨fun h => by simpa using h.mirror, OperatorShaped.mirror⟩

theorem AssertionsAgree.mirror (h : g.AssertionsAgree) : g.mirror.AssertionsAgree := by
  intro l r relation relation' ha ha'
  have heq := h r l _ _ (asserts_mirror_iff.mp ha) (asserts_mirror_iff.mp ha')
  simpa using congrArg Relation.opposite heq

theorem assertionsAgree_mirror_iff : g.mirror.AssertionsAgree ↔ g.AssertionsAgree :=
  ⟨fun h => by simpa using h.mirror, AssertionsAgree.mirror⟩

theorem WellFormed.contradiction?_mirror_eq_none_iff (hg : g.WellFormed)
    (hop : g.OperatorShaped) :
    g.mirror.filling.contradiction? = none ↔ g.filling.contradiction? = none := by
  rw [hg.mirror.contradiction?_eq_none_iff hop.mirror, hg.contradiction?_eq_none_iff hop,
    assertionsAgree_mirror_iff]

end Grammar

/-! ## The analysis -/

namespace PrecedenceAnalysis

open Grammar (sums constructed_sums)

variable {g : Grammar}

theorem kind_verdict_mirror (hg : g.WellFormed) :
    (ofGrammar g.mirror).verdict.kind = (ofGrammar g).verdict.kind :=
  kind_verdict_congr Grammar.adjacentNonterminals?_mirror_eq_none_iff
    Grammar.epsilonProduction?_mirror_eq_none_iff hg.contradiction?_mirror_eq_none_iff

theorem edgeVT?_mirror (edge : Edge) (x : Nonterminal) :
    (ofGrammar g.mirror).edgeVT? edge x = (ofGrammar g).edgeVT? edge.opposite x := by
  have hget : (g.mirror.solveEdge edge).table.get x
      = id ((g.solveEdge edge.opposite).table.get x) := by
    rw [Grammar.solveEdge_mirror, id]
  rw [edgeVT?_eq_map Grammar.operatorShaped_mirror_iff hget, Option.map_id, id]

/-- The cells of the mirror image hold the opposite relations. -/
theorem rel_matrix?_mirror (hg : g.WellFormed) :
    Option.Rel (fun m m' : PrecedenceMatrix =>
      ∀ l r, m'.get? r l = (m.get? l r).map Relation.opposite)
      (ofGrammar g).matrix? (ofGrammar g.mirror).matrix? := by
  refine rel_matrix? hg hg.mirror (kind_verdict_mirror hg) fun m m' hget hget' l r => ?_
  -- the cells have the same relations
  refine Option.ext fun relation => ?_
  rw [hget', Grammar.asserts_mirror_iff, ← hget, Option.map_eq_some_iff]
  constructor
  · exact fun h => ⟨relation.opposite, h, relation.opposite_opposite⟩
  · rintro ⟨_, h, rfl⟩
    rwa [Relation.opposite_opposite]

/-- **The analysis of the mirror image is the mirror image of the
analysis.** The mirror image of a constructed grammar has the same symbols
and the reversed productions, in the same order. Its verdict is of the same
kind. FIRSTVT and LASTVT are exchanged, where there are any. The mirror image
has a matrix exactly when the grammar has one, and its cell of two terminals
holds the opposite relation of the cell of the exchanged terminals, or both
are empty. -/
theorem mirror_symmetric (hg : g.Constructed) :
    (g.mirror.nonterminals = g.nonterminals ∧ g.mirror.terminals = g.terminals
        ∧ g.mirror.start = g.start
        ∧ g.mirror.productions = g.productions.map fun p => ⟨p.lhs, p.rhs.reverse⟩)
      ∧ (ofGrammar g.mirror).verdict.kind = (ofGrammar g).verdict.kind
      ∧ (∀ x, (ofGrammar g.mirror).firstVT? x = (ofGrammar g).lastVT? x
        ∧ (ofGrammar g.mirror).lastVT? x = (ofGrammar g).firstVT? x)
      ∧ Option.Rel (fun m m' : PrecedenceMatrix =>
          ∀ l r, m'.get? r l = (m.get? l r).map Relation.opposite)
        (ofGrammar g).matrix? (ofGrammar g.mirror).matrix? :=
  ⟨⟨rfl, rfl, rfl, Grammar.productions_mirror⟩, kind_verdict_mirror hg.wellFormed,
    fun x => ⟨edgeVT?_mirror .first x, edgeVT?_mirror .last x⟩, rel_matrix?_mirror hg.wellFormed⟩

/-- In sums `E->E+T|T` and `T->(E)|i`, `+` yields to `(`; in the mirror image
`E->T+E|T` and `T->)E(|i`, `(` takes precedence over `+`, and `+` opens what
`E` derives, as it closes it in sums. -/
theorem mirror_symmetric_sums :
    sums.Constructed
      ∧ (ofGrammar sums.mirror).verdict.kind = .operatorPrecedence
      ∧ (∃ s, (ofGrammar sums.mirror).firstVT? ⟨0⟩ = some s ∧ (⟨0⟩ : Terminal) ∈ s)
      ∧ ∃ m m', (ofGrammar sums).matrix? = some m ∧ (ofGrammar sums.mirror).matrix? = some m'
        ∧ m.get? ⟨0⟩ ⟨1⟩ = some .less ∧ m'.get? ⟨1⟩ ⟨0⟩ = some .greater := by
  obtain ⟨-, hkind, hedges, hmatrix⟩ := mirror_symmetric constructed_sums
  have hlast : (((ofGrammar sums).lastVT? ⟨0⟩).map fun s => decide ((⟨0⟩ : Terminal) ∈ s))
      = some true := by decide +kernel
  obtain ⟨s, hs, hmem⟩ := Option.map_eq_some_iff.mp hlast
  have hless : ((ofGrammar sums).matrix?.map fun m => m.get? ⟨0⟩ ⟨1⟩) = some (some .less) := by
    decide +kernel
  obtain ⟨m, hm, hget⟩ := Option.map_eq_some_iff.mp hless
  refine ⟨constructed_sums, hkind.trans (by decide +kernel),
    ⟨s, (hedges ⟨0⟩).1.trans hs, of_decide_eq_true hmem⟩, ?_⟩
  rw [hm] at hmatrix
  generalize hm' : (ofGrammar sums.mirror).matrix? = image at hmatrix
  cases hmatrix with
  | @some _ m' h => exact ⟨m, m', hm, rfl, hget, by rw [h, hget]; rfl⟩

end PrecedenceAnalysis

end GrammarAnalysis
