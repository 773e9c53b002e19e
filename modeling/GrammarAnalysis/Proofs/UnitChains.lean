import GrammarAnalysis.Proofs.Neighbours

/-!
# FIRSTVT and LASTVT as closures

A right-hand side passes the set of another nonterminal on only if it
consists of that nonterminal alone. So what is in FIRSTVT of a
nonterminal comes to it along a chain of such productions, and at the end
of the chain stands a right-hand side that the terminal opens.
`EdgeTerminal` says this, with the chain as a reflexive and transitive
closure: a chain may be empty, and where productions form a cycle it may
go round.

Both inclusions follow from the fixed point. The edge terminals solve the
inclusions, so the least solution has no others; and the end of a chain
is in every solution, from where the inclusions carry it back to the
beginning (`mem_solveEdge_iff`).

A nonterminal without edge terminals begins chains only, and derives
nothing but single nonterminals (`exists_unitChain_of_derives`). As this
does not depend on the end that is looked at, FIRSTVT and LASTVT are
empty together.
-/

namespace GrammarAnalysis

section Opens

variable {u : List Symbol} {t : Terminal}

/-- No terminal stands before the one that opens a string. -/
theorem Opens.exists_eq (h : Opens u t) :
    ∃ before after, u = before ++ .terminal t :: after ∧ ∀ s, .terminal s ∉ before := by
  cases h with
  | terminal t rest => exact ⟨[], rest, rfl, fun _ => List.not_mem_nil⟩
  | nonterminal x t rest => exact ⟨[.nonterminal x], rest, rfl, fun _ => by simp⟩

/-- A string without adjacent nonterminals that no terminal opens is a
single nonterminal. -/
theorem Separated.opens_or_singleton (h : Separated u) (hne : u ≠ []) :
    (∃ t, Opens u t) ∨ ∃ x, u = [.nonterminal x] := by
  match u with
  | [] => exact absurd rfl hne
  | .terminal t :: rest => exact Or.inl ⟨t, .terminal t rest⟩
  | .nonterminal x :: rest =>
    have h : Separated ([] ++ .nonterminal x :: rest) := h
    obtain rfl | ⟨t, rest, rfl⟩ := h.after_cases
    · exact Or.inr ⟨x, rfl⟩
    · exact Or.inl ⟨t, .nonterminal x t rest⟩

@[simp] theorem separated_read {edge : Edge} : Separated (edge.read u) ↔ Separated u := by
  cases edge with
  | first => exact Iff.rfl
  | last => exact Separated.reverse_iff

end Opens

namespace Grammar

variable {g : Grammar} {f : Family} {edge : Edge} {x y : Nonterminal} {t : Terminal}
  {v : List Symbol}

/-! ## Chains -/

/-- **Unit productions**: the right-hand side is a single nonterminal. -/
def UnitStep (g : Grammar) (x y : Nonterminal) : Prop :=
  ⟨x, [.nonterminal y]⟩ ∈ g.productions

theorem unitStep_of_mem {p : Production} (hp : p ∈ g.productions) (h : p.rhs = [.nonterminal y]) :
    g.UnitStep p.lhs y := by
  rw [UnitStep, ← h]
  exact hp

/-- **Chains of unit productions**, the empty ones included. -/
def UnitChain (g : Grammar) : Nonterminal → Nonterminal → Prop :=
  Relation.ReflTransGen g.UnitStep

/-- **A terminal at the edge of a nonterminal**: a chain of unit
productions leads to a right-hand side that the terminal opens, read from
that end. -/
def EdgeTerminal (g : Grammar) (edge : Edge) (x : Nonterminal) (t : Terminal) : Prop :=
  ∃ y, g.UnitChain x y ∧ ∃ rhs, ⟨y, rhs⟩ ∈ g.productions ∧ Opens (edge.read rhs) t

/-- The beginning of a chain has the edge terminals of its end. -/
theorem EdgeTerminal.of_unitChain (h : g.UnitChain x y) (ht : g.EdgeTerminal edge y t) :
    g.EdgeTerminal edge x t := by
  obtain ⟨z, hyz, hz⟩ := ht
  exact ⟨z, Relation.ReflTransGen.trans h hyz, hz⟩

namespace WellFormed

/-- Edge terminals solve the inclusions. -/
theorem closed_edgeTerminal (hg : g.WellFormed) :
    (g.edgeSystem edge).Closed (g.EdgeTerminal edge) := by
  refine hg.closed_edgeSystem_iff.mpr (fun p hp t ht => ?_)
  generalize hu : edge.read p.rhs = u at ht
  cases ht with
  | opens ht => exact ⟨p.lhs, Relation.ReflTransGen.refl, p.rhs, hp, hu ▸ ht⟩
  | @inherited y t ht =>
    have hstep := unitStep_of_mem hp (Edge.read_eq_singleton.mp hu)
    exact ht.of_unitChain (Relation.ReflTransGen.single hstep)

/-- Every solution holds the edge terminals. -/
theorem le_of_closed (hg : g.WellFormed) (hf : (g.edgeSystem edge).Closed f) :
    g.EdgeTerminal edge ≤ f := by
  rw [hg.closed_edgeSystem_iff] at hf
  rintro x t ⟨y, hchain, rhs, hrhs, ht⟩
  induction hchain using Relation.ReflTransGen.head_induction_on with
  | refl => exact hf _ hrhs t (.opens ht)
  | @head x z hstep _ ih =>
    refine hf _ hstep t ?_
    rw [Edge.read_eq_singleton.mpr rfl]
    exact .inherited ih

/-- **FIRSTVT and LASTVT hold the edge terminals.** -/
theorem mem_solveEdge_iff (hg : g.WellFormed) :
    t ∈ (g.solveEdge edge).table.get x ↔ g.EdgeTerminal edge x t :=
  ⟨hg.solveEdge_le hg.closed_edgeTerminal x t, hg.le_of_closed hg.closed_solveEdge x t⟩

/-! ## Nonterminals without edge terminals -/

/-- **A nonterminal without edge terminals derives single nonterminals
only**, those at the ends of its chains. -/
theorem exists_unitChain_of_derives (hg : g.WellFormed) (hop : g.OperatorShaped)
    (hnone : ∀ t, ¬ g.EdgeTerminal edge x t) (h : g.Derives [.nonterminal x] v) :
    ∃ y, g.UnitChain x y ∧ v = [.nonterminal y] := by
  induction h with
  | refl => exact ⟨x, Relation.ReflTransGen.refl, rfl⟩
  | tail _ hstep ih =>
    obtain ⟨y, hchain, rfl⟩ := ih
    generalize hu : [Symbol.nonterminal y] = u at hstep
    cases hstep with
    | @expand p hp before after =>
      obtain ⟨rfl, hy, rfl⟩ := singleton_eq_append_cons_iff.mp hu
      obtain rfl := Symbol.nonterminal.inj hy
      have hread : Separated (edge.read p.rhs) := separated_read.mpr (hop.separated p hp)
      rw [hop.expansion_eq hp, List.nil_append, List.append_nil]
      obtain ⟨t, ht⟩ | ⟨z, hz⟩ := hread.opens_or_singleton
        (fun hnil => (hg.isRhs_of_mem hp).ne_nil (Edge.read_eq_nil.mp hnil))
      · exact absurd ⟨p.lhs, hchain, p.rhs, hp, ht⟩ (hnone t)
      · rw [Edge.read_eq_singleton] at hz
        exact ⟨z, hchain.tail (unitStep_of_mem hp hz), hz⟩

/-- **An edge set is empty** exactly when no string with a terminal in it
is derived. -/
theorem solveEdge_eq_empty_iff (hg : g.WellFormed) (hop : g.OperatorShaped) :
    (g.solveEdge edge).table.get x = ∅ ↔
      ∀ v, g.Derives [.nonterminal x] v → ∀ t, .terminal t ∉ v := by
  constructor
  · intro hempty v h t ht
    have hnone : ∀ t, ¬ g.EdgeTerminal edge x t := fun t ht =>
      TerminalSet.not_mem_empty t (hempty ▸ hg.mem_solveEdge_iff.mpr ht)
    obtain ⟨y, -, rfl⟩ := hg.exists_unitChain_of_derives hop hnone h
    simp at ht
  · intro hnone
    refine TerminalSet.ext_mem (fun t => iff_of_false (fun ht => ?_) (TerminalSet.not_mem_empty t))
    obtain ⟨v, h, hopens⟩ := hg.surfaces_of_mem_solveEdge hop ht
    exact hnone v h t (Edge.mem_read.mp hopens.mem)

end WellFormed

/-- Sums in which the two kinds of operands are each other's unit
productions, next to a nonterminal that derives no terminal: `S->T|S+T`,
`T->S|i` and `U->U`. -/
def unitCycles : Grammar where
  nonterminals := ["S", "T", "U"]
  terminals := ["+", "i", "NULL"]
  start := ⟨0⟩
  rules :=
    [⟨⟨0⟩, [[.nonterminal ⟨1⟩], [.nonterminal ⟨0⟩, .terminal ⟨0⟩, .nonterminal ⟨1⟩]]⟩,
      ⟨⟨1⟩, [[.nonterminal ⟨0⟩], [.terminal ⟨1⟩]]⟩, ⟨⟨2⟩, [[.nonterminal ⟨2⟩]]⟩]

theorem constructed_unitCycles : unitCycles.Constructed :=
  have h : (ofLists ["S", "T", "U"] ["+", "i"] ["S->T|S+T", "T->S|i", "U->U"] "S").toOption
      = some unitCycles := by decide +kernel
  .ofLists (eq_ok_of_toOption h)

end Grammar

/-! ## The analysis -/

namespace PrecedenceAnalysis

variable {g : Grammar}

/-- **FIRSTVT and LASTVT are exactly the closures of the edge terminals
under unit productions.** In every constructed grammar that passes the
shape tests, each nonterminal has both sets; a terminal is in FIRSTVT if
and only if a chain of unit productions, which may be empty, leads to a
right-hand side that the terminal opens, and LASTVT is the same for
right-hand sides read from the right. So epsilon and the end-marker are in
neither, a member is the leftmost or rightmost terminal of a derived
string, and the two sets are empty together, namely when no derived string
has a terminal in it. -/
theorem edgeSets_exact (hg : g.Constructed) (hshape : g.shapeFault? = none) (x : Nonterminal) :
    let a := ofGrammar g
    ∃ first last, a.firstVT? x = some first ∧ a.lastVT? x = some last
      ∧ (∀ t, t ∈ first ↔ g.EdgeTerminal .first x t)
      ∧ (∀ t, t ∈ last ↔ g.EdgeTerminal .last x t)
      ∧ (∀ t, t ∈ first ∨ t ∈ last → t ≠ g.epsilon ∧ t ≠ g.endMarker)
      ∧ (∀ t ∈ first, ∃ before after,
          g.Derives [.nonterminal x] (before ++ .terminal t :: after)
            ∧ ∀ s, .terminal s ∉ before)
      ∧ (∀ t ∈ last, ∃ before after,
          g.Derives [.nonterminal x] (before ++ .terminal t :: after)
            ∧ ∀ s, .terminal s ∉ after)
      ∧ (first = ∅ ↔ last = ∅)
      ∧ (first = ∅ ↔ ∀ v, g.Derives [.nonterminal x] v → ∀ t, .terminal t ∉ v) := by
  intro a
  have hwf := hg.wellFormed
  have hop := Grammar.shapeFault?_eq_none_iff.mp hshape
  obtain ⟨hfirst, hlast⟩ := edgeSets_eq hop x
  have hproper : ∀ {edge : Edge} {t : Terminal}, t ∈ (g.solveEdge edge).table.get x →
      t ≠ g.epsilon ∧ t ≠ g.endMarker := fun ht =>
    not_or.mp fun h => Grammar.not_isProper h (hwf.isProper_of_mem_solveEdge hop ht)
  refine ⟨_, _, hfirst, hlast, fun t => hwf.mem_solveEdge_iff, fun t => hwf.mem_solveEdge_iff,
    fun t ht => ht.elim hproper hproper, fun t ht => ?_, fun t ht => ?_, ?_,
    hwf.solveEdge_eq_empty_iff hop⟩
  · obtain ⟨v, h, hopens⟩ := hwf.surfaces_of_mem_solveEdge hop ht
    obtain ⟨before, after, rfl, hbefore⟩ := hopens.exists_eq
    exact ⟨before, after, h, hbefore⟩
  · obtain ⟨v, h, hopens⟩ := hwf.surfaces_of_mem_solveEdge hop ht
    obtain ⟨before, after, heq, hbefore⟩ := hopens.exists_eq
    -- the string is read from its right end
    obtain rfl : v = after.reverse ++ .terminal t :: before.reverse := by
      rw [← List.reverse_reverse v]
      exact (congrArg List.reverse heq).trans (by simp)
    exact ⟨after.reverse, before.reverse, h, fun s hs => hbefore s (List.mem_reverse.mp hs)⟩
  · rw [hwf.solveEdge_eq_empty_iff hop, hwf.solveEdge_eq_empty_iff hop]

/-- Where `S` and `T` are each other's unit productions, `+` opens a
right-hand side of `S` and is in FIRSTVT of `T`; and `U`, whose set is
empty, derives no terminal. -/
theorem edgeSets_exact_unitCycles :
    Grammar.unitCycles.Constructed ∧ Grammar.unitCycles.shapeFault? = none
      ∧ Grammar.unitCycles.EdgeTerminal .first ⟨1⟩ ⟨0⟩
      ∧ ∀ v, Grammar.unitCycles.Derives [.nonterminal ⟨2⟩] v → ∀ t, .terminal t ∉ v := by
  have hg := Grammar.constructed_unitCycles
  have hshape : Grammar.unitCycles.shapeFault? = none := by decide +kernel
  have hsets : (ofGrammar Grammar.unitCycles).firstVT? ⟨1⟩ = some ⟨3⟩
      ∧ (ofGrammar Grammar.unitCycles).firstVT? ⟨2⟩ = some ∅ := by decide +kernel
  obtain ⟨sT, -, hsT, -, hT, -⟩ := edgeSets_exact hg hshape ⟨1⟩
  obtain ⟨sU, -, hsU, -, -, -, -, -, -, -, hU⟩ := edgeSets_exact hg hshape ⟨2⟩
  obtain rfl := Option.some.inj (hsT.symm.trans hsets.1)
  obtain rfl := Option.some.inj (hsU.symm.trans hsets.2)
  exact ⟨hg, hshape, (hT ⟨0⟩).mp (by decide), hU.mp rfl⟩

end PrecedenceAnalysis

end GrammarAnalysis
