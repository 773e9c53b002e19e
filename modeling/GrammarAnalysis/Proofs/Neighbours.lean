import GrammarAnalysis.Proofs.PrecedenceMatrix

/-!
# Neighbours in sentential forms

A parser compares a terminal with the next one, passing over at most one
nonterminal between them. Which terminals can be neighbours in this way
is decided in right-hand sides (`exists_neighbours_iff`): somewhere the
two are neighbours already, or one of them stands beside a nonterminal
at whose end the other one surfaces. The proof follows a derivation
backwards. `Meets` says of a string that neighbours are on their way, and
a step can bring them in only by the production it applies
(`Step.meets`).

In the second case the matrix has a relation for the two terminals only
if FIRSTVT or LASTVT of the nonterminal has the terminal that surfaces.
These sets may lack it (`Misses`), because they are inherited along
productions of a single nonterminal only. The matrix is therefore
complete but for the terminals these sets miss, and complete in a grammar
whose sets inherit (`neighbours_related`). In `assignments` they do not:
`i` ends an assignment, but LASTVT of assignments has `=` only, so the
matrix does not relate `i` to a `;` after it.
-/

namespace GrammarAnalysis

namespace Grammar

variable {g : Grammar} {u v : List Symbol} {l r t : Terminal} {x : Nonterminal}

/-! ## Meeting -/

/-- Whether behind a left terminal of a string a right one surfaces. -/
def SurfacesAfter (g : Grammar) (u : List Symbol) (l r : Terminal) : Prop :=
  ∃ before after, u = before ++ .terminal l :: after ∧ g.Surfaces .first after r

/-- **Two terminals meet in a string** when one of them stands there, and
at its other side the other one surfaces. -/
def Meets (g : Grammar) (u : List Symbol) (l r : Terminal) : Prop :=
  g.SurfacesAfter u l r ∨ g.mirror.SurfacesAfter u.reverse r l

theorem meets_mirror_iff : g.mirror.Meets u.reverse r l ↔ g.Meets u l r := by
  rw [Meets, Meets, mirror_mirror, List.reverse_reverse, or_comm]

/-- A terminal at the beginning of a string stays there. -/
theorem eq_cons_of_derives (h : g.Derives (.terminal t :: u) v) :
    ∃ w, v = .terminal t :: w ∧ g.Derives u w := by
  obtain ⟨v₁, v₂, rfl, h₁, h₂⟩ := derives_append_iff.mp (List.singleton_append ▸ h)
  rw [eq_of_derives (by simp) h₁]
  exact ⟨v₂, rfl, h₂⟩

/-- What surfaces at the beginning of a string that begins with a terminal
is this terminal. -/
theorem surfaces_terminal_iff : g.Surfaces .first (.terminal t :: u) r ↔ r = t := by
  constructor
  · rintro ⟨v, h, hr⟩
    obtain ⟨w, rfl, -⟩ := eq_cons_of_derives h
    exact opens_terminal.mp hr
  · rintro rfl
    exact ⟨_, Derives.refl g _, .terminal r u⟩

theorem not_surfaces_nil : ¬ g.Surfaces .first [] r := by
  rintro ⟨v, h, hr⟩
  rw [derives_nil_iff.mp h] at hr
  exact not_opens_nil hr

/-- **A terminal that surfaces at the beginning of a string** opens the
string, or surfaces at the beginning of its first nonterminal. -/
theorem Surfaces.cases (hg : g.WellFormed) (hop : g.OperatorShaped) (hu : Separated u)
    (h : g.Surfaces .first u r) :
    Opens u r ∨ ∃ x rest, u = .nonterminal x :: rest ∧ g.Surfaces .first [.nonterminal x] r := by
  match u with
  | [] => exact absurd h not_surfaces_nil
  | .terminal t :: rest => exact Or.inl (opens_terminal.mpr (surfaces_terminal_iff.mp h))
  | .nonterminal x :: rest =>
    have hsep : Separated ([] ++ .nonterminal x :: rest) := hu
    obtain ⟨v, h, hr⟩ := h
    obtain ⟨v₁, v₂, rfl, h₁, h₂⟩ := derives_append_iff.mp (List.singleton_append ▸ h)
    obtain hr | ⟨rfl, -⟩ | ⟨y, v', rfl, rfl⟩ := hr.append_cases
    · exact Or.inr ⟨x, rest, rfl, v₁, h₁, hr⟩
    · exact absurd (hop.length_le_of_derives hg h₁) (by simp)
    · obtain rfl | ⟨t, rest, rfl⟩ := hsep.after_cases
      · cases derives_nil_iff.mp h₂
      · obtain ⟨w, heq, -⟩ := eq_cons_of_derives h₂
        cases heq
        exact Or.inl (.nonterminal x r rest)

/-- In the mirror image: before a right terminal a left one surfaces. -/
theorem surfacesAfter_mirror_iff : g.mirror.SurfacesAfter u.reverse r l ↔
    ∃ before after, u = before ++ .terminal r :: after ∧ g.Surfaces .last before l := by
  constructor
  · rintro ⟨before, after, heq, h⟩
    refine ⟨after.reverse, before.reverse, ?_, surfaces_mirror_iff.mp h⟩
    rw [← List.reverse_reverse u, heq]
    simp
  · rintro ⟨before, after, rfl, h⟩
    refine ⟨after.reverse, before.reverse, by simp, surfaces_mirror_iff.mpr ?_⟩
    rwa [List.reverse_reverse]

/-- Neighbours meet. -/
theorem Meets.of_neighbours (h : Neighbours u l r) : g.Meets u l r := by
  obtain ⟨before, after, rfl, hr⟩ := neighbours_iff.mp h
  exact Or.inl ⟨before, after, rfl, after, Derives.refl g after, hr⟩

/-- Of two terminals that meet, the string derives a form in which they
are neighbours. -/
theorem SurfacesAfter.exists_neighbours (h : g.SurfacesAfter u l r) :
    ∃ v, g.Derives u v ∧ Neighbours v l r := by
  obtain ⟨before, after, rfl, v, hv, hr⟩ := h
  exact ⟨_, (hv.append_left [.terminal l]).append_left before,
    neighbours_iff.mpr ⟨before, v, rfl, hr⟩⟩

theorem Meets.exists_neighbours (h : g.Meets u l r) : ∃ v, g.Derives u v ∧ Neighbours v l r := by
  obtain h | h := h
  · exact h.exists_neighbours
  · obtain ⟨v, hv, hn⟩ := h.exists_neighbours
    exact ⟨v.reverse, by simpa using derives_mirror_iff.mp hv, neighbours_reverse_iff.mp (by simpa)⟩

/-! ## Steps and runs -/

/-- A terminal with at most one nonterminal behind it, at the end of a
derived string, surfaces at the right end. -/
theorem surfaces_last_of_derives {left gap : List Symbol}
    (h : g.Derives u (left ++ .terminal l :: gap))
    (hgap : gap = [] ∨ ∃ x, gap = [.nonterminal x]) : g.Surfaces .last u l := by
  refine ⟨_, h, ?_⟩
  obtain rfl | ⟨x, rfl⟩ := hgap
  · simp [Edge.read]
  · simp [Edge.read]

/-- Suppose a terminal of a right-hand side is left of one that surfaces
after it. If that one is put in as well, the two meet in the right-hand
side. If it stands behind, they meet before the step, because behind the
nonterminal that is replaced there can only be a terminal. -/
theorem meets_of_expand (hop : g.OperatorShaped) {p : Production} (hp : p ∈ g.productions)
    {before after left right : List Symbol} (hrhs : p.rhs = left ++ .terminal l :: right)
    (hu : Separated (before ++ .nonterminal p.lhs :: after))
    (h : g.Surfaces .first (right ++ after) r) :
    g.Meets (before ++ .nonterminal p.lhs :: after) l r ∨ g.SurfacesAfter p.rhs l r := by
  obtain ⟨v, hv, hr⟩ := h
  obtain ⟨gap, v', rfl, hgap, hafter⟩ := derives_append_iff.mp hv
  obtain hr | hrest := hr.append_cases
  · exact Or.inr ⟨left, right, hrhs, gap, hgap, hr⟩
  refine Or.inl (Or.inr (surfacesAfter_mirror_iff.mpr ?_))
  have hgapCases : (gap = [] ∨ ∃ x, gap = [.nonterminal x]) ∧ Opens v' r := by
    obtain ⟨rfl, hr⟩ | ⟨x, rest, rfl, rfl⟩ := hrest
    · exact ⟨Or.inl rfl, hr⟩
    · exact ⟨Or.inr ⟨x, rfl⟩, .terminal r rest⟩
  -- behind the nonterminal stands the right terminal itself
  obtain ⟨rest, rfl⟩ : ∃ rest, after = .terminal r :: rest := by
    obtain rfl | ⟨t, rest, rfl⟩ := hu.after_cases
    · exact absurd ⟨v', hafter, hgapCases.2⟩ not_surfaces_nil
    · rw [surfaces_terminal_iff.mp ⟨v', hafter, hgapCases.2⟩]
      exact ⟨rest, rfl⟩
  refine ⟨before ++ [.nonterminal p.lhs], rest, by simp, ?_⟩
  have hstep : g.Derives [.nonterminal p.lhs] (left ++ .terminal l :: right) :=
    hrhs ▸ hop.derives_of_mem hp
  have hline : g.Derives (before ++ [.nonterminal p.lhs])
      ((before ++ left) ++ .terminal l :: gap) := by
    rw [List.append_assoc]
    exact (hstep.trans ((hgap.append_left [.terminal l]).append_left left)).append_left before
  exact surfaces_last_of_derives hline hgapCases.1

/-- A step brings in a right terminal behind a left one only where the two
meet before, or in the right-hand side it puts in. -/
theorem Step.meets_of_surfacesAfter (hop : g.OperatorShaped) (h : g.Step u v)
    (hu : Separated u) (hv : g.SurfacesAfter v l r) :
    g.Meets u l r ∨ ∃ p ∈ g.productions, .nonterminal p.lhs ∈ u ∧ g.Meets p.rhs l r := by
  cases h with
  | @expand p hp before after =>
    rw [hop.expansion_eq hp] at hv
    obtain ⟨left, right, heq, hr⟩ := hv
    obtain ⟨rest, rfl, rfl⟩ | ⟨rest, rfl, hinner⟩ := append_eq_append_cons heq
    · -- the left terminal stands before the nonterminal
      have hstep : g.Derives (rest ++ .nonterminal p.lhs :: after) (rest ++ (p.rhs ++ after)) :=
        ((hop.derives_of_mem hp).append_right after).append_left rest
      exact Or.inl (Or.inl ⟨left, rest ++ .nonterminal p.lhs :: after, by simp,
        hstep.surfaces hr⟩)
    obtain ⟨inner, hrhs, rfl⟩ | ⟨outer, rfl, rfl⟩ := append_eq_append_cons hinner
    · -- it is one of the symbols put in
      refine (meets_of_expand hop hp hrhs hu hr).imp id fun h => ?_
      exact ⟨p, hp, by simp, Or.inl h⟩
    · -- it stands behind the nonterminal
      exact Or.inl (Or.inl ⟨before ++ .nonterminal p.lhs :: outer, right, by simp, hr⟩)

/-- **Where a step makes two terminals meet**: they meet before, or in the
right-hand side it puts in. -/
theorem Step.meets (hop : g.OperatorShaped) (h : g.Step u v) (hu : Separated u)
    (hv : g.Meets v l r) :
    g.Meets u l r ∨ ∃ p ∈ g.productions, .nonterminal p.lhs ∈ u ∧ g.Meets p.rhs l r := by
  obtain hv | hv := hv
  · exact h.meets_of_surfacesAfter hop hu hv
  · obtain hu | ⟨p, hp, hlhs, hrhs⟩ :=
      h.mirror.meets_of_surfacesAfter hop.mirror (Separated.reverse_iff.mpr hu) hv
    · exact Or.inl (meets_mirror_iff.mp hu)
    · refine Or.inr ⟨p.mirror, mem_productions_mirror.mp hp, List.mem_reverse.mp hlhs, ?_⟩
      rw [← meets_mirror_iff]
      simpa [Production.mirror] using hrhs

/-- Whether a nonterminal occurs in a sentential form. -/
def Occurs (g : Grammar) (x : Nonterminal) : Prop :=
  ∃ u, g.Derives [.nonterminal g.start] u ∧ .nonterminal x ∈ u

/-- **Terminals that meet in a sentential form meet in a right-hand side**
that a derivation from the start symbol comes to. -/
theorem exists_production_of_meets (hop : g.OperatorShaped)
    (h : g.Derives [.nonterminal g.start] u) (hm : g.Meets u l r) :
    ∃ p ∈ g.productions, g.Occurs p.lhs ∧ g.Meets p.rhs l r := by
  induction h with
  | refl =>
    -- no terminal stands in the start symbol
    have hno : ∀ {t before after},
        [Symbol.nonterminal g.start] ≠ before ++ .terminal t :: after := by
      intro t before after heq
      have hmem : Symbol.terminal t ∈ before ++ .terminal t :: after := by simp
      simp [← heq] at hmem
    obtain ⟨before, after, heq, -⟩ | h := hm
    · exact absurd heq hno
    · obtain ⟨before, after, heq, -⟩ := surfacesAfter_mirror_iff.mp h
      exact absurd heq hno
  | tail hderives hstep ih =>
    have hsep := separated_of_derives hop.separated hderives (Separated.singleton _)
    obtain hm | ⟨p, hp, hlhs, hm⟩ := hstep.meets hop hsep hm
    · exact ih hm
    · exact ⟨p, hp, ⟨_, hderives, hlhs⟩, hm⟩

/-- **Two terminals are neighbours in some sentential form exactly when
they meet in a right-hand side** that a derivation from the start symbol
comes to. -/
theorem exists_neighbours_iff (hop : g.OperatorShaped) :
    (∃ u, g.Derives [.nonterminal g.start] u ∧ Neighbours u l r) ↔
      ∃ p ∈ g.productions, g.Occurs p.lhs ∧ g.Meets p.rhs l r := by
  constructor
  · rintro ⟨u, h, hn⟩
    exact exists_production_of_meets hop h (Meets.of_neighbours hn)
  · rintro ⟨p, hp, ⟨u, h, hlhs⟩, hm⟩
    obtain ⟨v, hv, hn⟩ := hm.exists_neighbours
    obtain ⟨before, after, rfl⟩ := List.append_of_mem hlhs
    have hform := (((hop.derives_of_mem hp).trans hv).append_right after).append_left before
    refine ⟨_, h.trans hform, ?_⟩
    obtain ⟨left, right, rfl, hr⟩ := neighbours_iff.mp hn
    exact neighbours_iff.mpr ⟨before ++ left, right ++ after, by simp, hr.append_right after⟩

/-! ## Neighbours in right-hand sides -/

/-- What meets in a right-hand side is neighbours there, or one terminal
stands beside a nonterminal at whose end the other one surfaces. -/
theorem SurfacesAfter.cases (hg : g.WellFormed) (hop : g.OperatorShaped) (hu : Separated u)
    (h : g.SurfacesAfter u l r) : Neighbours u l r
      ∨ ∃ x, [.terminal l, .nonterminal x] <:+: u ∧ g.Surfaces .first [.nonterminal x] r := by
  obtain ⟨before, after, rfl, h⟩ := h
  have hafter : Separated after := (List.isChain_append.mp hu).2.1.tail
  obtain hr | ⟨x, rest, rfl, hr⟩ := h.cases hg hop hafter
  · exact Or.inl (neighbours_iff.mpr ⟨before, after, rfl, hr⟩)
  · exact Or.inr ⟨x, pair_infix_iff.mpr ⟨before, rest, rfl⟩, hr⟩

theorem Meets.cases (hg : g.WellFormed) (hop : g.OperatorShaped) (hu : Separated u)
    (h : g.Meets u l r) : Neighbours u l r
      ∨ (∃ x, [.terminal l, .nonterminal x] <:+: u ∧ g.Surfaces .first [.nonterminal x] r)
      ∨ ∃ x, [.nonterminal x, .terminal r] <:+: u ∧ g.Surfaces .last [.nonterminal x] l := by
  obtain h | h := h
  · exact (h.cases hg hop hu).imp_right Or.inl
  · obtain hn | ⟨x, hx, hl⟩ := h.cases hg.mirror hop.mirror (Separated.reverse_iff.mpr hu)
    · exact Or.inl (neighbours_reverse_iff.mp hn)
    · refine Or.inr (Or.inr ⟨x, ?_, surfaces_mirror_iff.mp hl⟩)
      rw [← List.reverse_infix]
      exact hx

/-! ## Two grammars -/

/-- Sums: `E->E+T|T` and `T->(E)|i`. -/
def sums : Grammar where
  nonterminals := ["E", "T"]
  terminals := ["+", "(", ")", "i", "NULL"]
  start := ⟨0⟩
  rules :=
    [⟨⟨0⟩, [[.nonterminal ⟨0⟩, .terminal ⟨0⟩, .nonterminal ⟨1⟩], [.nonterminal ⟨1⟩]]⟩,
      ⟨⟨1⟩, [[.terminal ⟨1⟩, .nonterminal ⟨0⟩, .terminal ⟨2⟩], [.terminal ⟨3⟩]]⟩]

theorem constructed_sums : sums.Constructed :=
  have h : (Grammar.ofLists ["E", "T"] ["+", "(", ")", "i"] ["E->E+T|T", "T->(E)|i"] "E").toOption
      = some sums := by decide +kernel
  .ofLists (eq_ok_of_toOption h)

/-- In sums, what a term shows at its ends is in the sets of sums. -/
theorem inherits_sums : sums.Inherits .first (sums.solveEdge .first).table.holds
    ∧ sums.Inherits .last (sums.solveEdge .last).table.holds := by
  have hproductions : sums.productions =
      [⟨⟨0⟩, [.nonterminal ⟨0⟩, .terminal ⟨0⟩, .nonterminal ⟨1⟩]⟩, ⟨⟨0⟩, [.nonterminal ⟨1⟩]⟩,
        ⟨⟨1⟩, [.terminal ⟨1⟩, .nonterminal ⟨0⟩, .terminal ⟨2⟩]⟩, ⟨⟨1⟩, [.terminal ⟨3⟩]⟩] := by
    decide
  -- sums inherit from terms, because a term is a sum
  have hterm : (sums.solveEdge .last).table.holds ⟨1⟩ ≤ (sums.solveEdge .last).table.holds ⟨0⟩ :=
    fun t ht => constructed_sums.wellFormed.closed_edgeSystem_iff.mp
      constructed_sums.wellFormed.closed_solveEdge ⟨⟨0⟩, [.nonterminal ⟨1⟩]⟩ (by decide) t
      (.inherited ht)
  constructor
  · intro p hp x t rest hread
    rw [hproductions] at hp
    simp only [List.mem_cons, List.not_mem_nil, or_false] at hp
    obtain rfl | rfl | rfl | rfl := hp <;> cases hread
    exact le_refl _
  · intro p hp x t rest hread
    rw [hproductions] at hp
    simp only [List.mem_cons, List.not_mem_nil, or_false] at hp
    obtain rfl | rfl | rfl | rfl := hp <;> cases hread
    exact hterm

/-- Sequences of assignments: `S->S;A|A`, `A->i=E` and `E->E+i|i|(E)`. -/
def assignments : Grammar where
  nonterminals := ["S", "A", "E"]
  terminals := ["i", "=", "+", ";", "(", ")", "NULL"]
  start := ⟨0⟩
  rules :=
    [⟨⟨0⟩, [[.nonterminal ⟨0⟩, .terminal ⟨3⟩, .nonterminal ⟨1⟩], [.nonterminal ⟨1⟩]]⟩,
      ⟨⟨1⟩, [[.terminal ⟨0⟩, .terminal ⟨1⟩, .nonterminal ⟨2⟩]]⟩,
      ⟨⟨2⟩, [[.nonterminal ⟨2⟩, .terminal ⟨2⟩, .terminal ⟨0⟩], [.terminal ⟨0⟩],
        [.terminal ⟨4⟩, .nonterminal ⟨2⟩, .terminal ⟨5⟩]]⟩]

theorem constructed_assignments : assignments.Constructed :=
  have h : (Grammar.ofLists ["S", "A", "E"] ["i", "=", "+", ";", "(", ")"]
      ["S->S;A|A", "A->i=E", "E->E+i|i|(E)"] "S").toOption = some assignments := by decide +kernel
  .ofLists (eq_ok_of_toOption h)

end Grammar

/-! ## The matrix -/

namespace PrecedenceAnalysis

open Grammar

variable {g : Grammar} {l r : Terminal}

/-- **What FIRSTVT and LASTVT miss** of two terminals: a right-hand side that
a derivation comes to has one of them beside a nonterminal at whose end the
other one surfaces, and the set of the nonterminal lacks that one. -/
def Misses (a : PrecedenceAnalysis) (l r : Terminal) : Prop :=
  ∃ p ∈ a.grammar.productions, a.grammar.Occurs p.lhs ∧
    ((∃ x s, [.terminal l, .nonterminal x] <:+: p.rhs ∧ a.firstVT? x = some s
        ∧ a.grammar.Surfaces .first [.nonterminal x] r ∧ r ∉ s)
      ∨ ∃ x s, [.nonterminal x, .terminal r] <:+: p.rhs ∧ a.lastVT? x = some s
        ∧ a.grammar.Surfaces .last [.nonterminal x] l ∧ l ∉ s)

/-- A grammar of the right shape has FIRSTVT and LASTVT. -/
theorem edgeSets_eq (hop : g.OperatorShaped) (x : Nonterminal) :
    (ofGrammar g).firstVT? x = some ((g.solveEdge .first).table.get x)
      ∧ (ofGrammar g).lastVT? x = some ((g.solveEdge .last).table.get x) := by
  simp [ofGrammar, firstVT?, lastVT?, shapeFault?_eq_none_iff.mpr hop, Except.toOption]

theorem grammar_ofGrammar (g : Grammar) : (ofGrammar g).grammar = g := by
  unfold ofGrammar
  split <;> rfl

/-- Terminals that meet in a right-hand side are related by an assertion,
or a set misses one of them. -/
theorem asserts_or_misses (hg : g.WellFormed) (hop : g.OperatorShaped) {p : Production}
    (hp : p ∈ g.productions) (hlhs : g.Occurs p.lhs) (hm : g.Meets p.rhs l r) :
    (∃ relation, g.Asserts l relation r) ∨ (ofGrammar g).Misses l r := by
  unfold Misses
  rw [grammar_ofGrammar]
  obtain hn | ⟨x, hx, hr⟩ | ⟨x, hx, hl⟩ := hm.cases hg hop (hop.separated p hp)
  · exact Or.inl ⟨.equal, p, hp, .equal hn⟩
  · by_cases hmem : r ∈ (g.solveEdge .first).table.get x
    · exact Or.inl ⟨.less, p, hp, .less hx hmem⟩
    · exact Or.inr ⟨p, hp, hlhs, Or.inl ⟨x, _, hx, (edgeSets_eq hop x).1, hr, hmem⟩⟩
  · by_cases hmem : l ∈ (g.solveEdge .last).table.get x
    · exact Or.inl ⟨.greater, p, hp, .greater hx hmem⟩
    · exact Or.inr ⟨p, hp, hlhs, Or.inr ⟨x, _, hx, (edgeSets_eq hop x).2, hl, hmem⟩⟩

/-- Where the sets are inherited, they miss nothing. -/
theorem not_misses (hg : g.WellFormed) (hop : g.OperatorShaped)
    (hfirst : g.Inherits .first (g.solveEdge .first).table.holds)
    (hlast : g.Inherits .last (g.solveEdge .last).table.holds) : ¬ (ofGrammar g).Misses l r := by
  unfold Misses
  rw [grammar_ofGrammar]
  rintro ⟨p, -, -, ⟨x, s, -, hs, hr, hmem⟩ | ⟨x, s, -, hs, hl, hmem⟩⟩
  · obtain rfl := Option.some.inj ((edgeSets_eq hop x).1.symm.trans hs)
    exact hmem (hg.mem_of_surfaces hop hfirst hr)
  · obtain rfl := Option.some.inj ((edgeSets_eq hop x).2.symm.trans hs)
    exact hmem (hg.mem_of_surfaces hop hlast hl)

/-- **The matrix is complete but for what FIRSTVT and LASTVT miss.** In an
operator-precedence grammar, neighbours in a sentential form have a
relation, unless one of them surfaces at an end of a nonterminal beside
the other one and the set of the nonterminal lacks it. If the sets are
inherited through leading and trailing nonterminals, nothing is missed and
all neighbours have a relation. -/
theorem neighbours_related (hg : g.Constructed)
    (hv : (ofGrammar g).verdict = .operatorPrecedence) :
    ∃ m, (ofGrammar g).matrix? = some m
      ∧ (∀ u, g.Derives [.nonterminal g.start] u → ∀ l r, Neighbours u l r →
          (m.get? l r).isSome ∨ (ofGrammar g).Misses l r)
      ∧ (g.Inherits .first (g.solveEdge .first).table.holds →
          g.Inherits .last (g.solveEdge .last).table.holds →
          ∀ u, g.Derives [.nonterminal g.start] u → ∀ l r, Neighbours u l r →
            (m.get? l r).isSome) := by
  have hwf := hg.wellFormed
  obtain ⟨hop, -⟩ := verdict_eq_operatorPrecedence_iff.mp hv
  obtain ⟨m, hm, hget⟩ := get?_matrix_iff hwf hv
  have hrelated : ∀ u, g.Derives [.nonterminal g.start] u → ∀ l r, Neighbours u l r →
      (m.get? l r).isSome ∨ (ofGrammar g).Misses l r := by
    intro u hu l r hn
    obtain ⟨p, hp, hlhs, hmeets⟩ := exists_production_of_meets hop hu (Meets.of_neighbours hn)
    refine (asserts_or_misses hwf hop hp hlhs hmeets).imp_left fun ⟨relation, h⟩ => ?_
    rw [(hget l relation r).mpr h, Option.isSome_some]
  refine ⟨m, hm, hrelated, fun hfirst hlast u hu l r hn => ?_⟩
  exact (hrelated u hu l r hn).resolve_right (not_misses hwf hop hfirst hlast)

/-- In the form `E+T+T` of sums the two plus signs are neighbours, and the
matrix relates them. -/
theorem neighbours_related_sums : sums.Constructed
    ∧ (ofGrammar sums).verdict = .operatorPrecedence
    ∧ sums.Inherits .first (sums.solveEdge .first).table.holds
    ∧ sums.Inherits .last (sums.solveEdge .last).table.holds
    ∧ ∃ m, (ofGrammar sums).matrix? = some m ∧ (m.get? ⟨0⟩ ⟨0⟩).isSome := by
  have hv : (ofGrammar sums).verdict = .operatorPrecedence := by decide +kernel
  obtain ⟨hop, -⟩ := verdict_eq_operatorPrecedence_iff.mp hv
  obtain ⟨m, hm, -, hrelated⟩ := neighbours_related constructed_sums hv
  have hsum : sums.Derives [.nonterminal ⟨0⟩] [.nonterminal ⟨0⟩, .terminal ⟨0⟩, .nonterminal ⟨1⟩] :=
    hop.derives_of_mem (by decide)
  refine ⟨constructed_sums, hv, inherits_sums.1, inherits_sums.2, m, hm,
    hrelated inherits_sums.1 inherits_sums.2 _
      (hsum.trans (hsum.append_right [.terminal ⟨0⟩, .nonterminal ⟨1⟩])) _ _ ?_⟩
  exact Or.inr ⟨⟨1⟩, [.nonterminal ⟨0⟩], [.nonterminal ⟨1⟩], rfl⟩

/-- **The matrix need not relate neighbours.** The assignments are an
operator-precedence grammar and `i=i;A` is a sentential form of theirs, but
the cell of `i` and `;` is empty. -/
theorem assignments_unrelated_neighbours : assignments.Constructed
    ∧ (ofGrammar assignments).verdict = .operatorPrecedence
    ∧ ∃ u m, assignments.Derives [.nonterminal assignments.start] u
      ∧ Neighbours u ⟨0⟩ ⟨3⟩
      ∧ (ofGrammar assignments).matrix? = some m ∧ m.get? ⟨0⟩ ⟨3⟩ = none := by
  have hv : (ofGrammar assignments).verdict = .operatorPrecedence := by decide +kernel
  obtain ⟨hop, -⟩ := verdict_eq_operatorPrecedence_iff.mp hv
  have hsequence : assignments.Derives [.nonterminal ⟨0⟩]
      [.nonterminal ⟨0⟩, .terminal ⟨3⟩, .nonterminal ⟨1⟩] :=
    hop.derives_of_mem (by decide)
  have hsingle : assignments.Derives [.nonterminal ⟨0⟩] [.nonterminal ⟨1⟩] :=
    hop.derives_of_mem (by decide)
  have hassignment : assignments.Derives [.nonterminal ⟨1⟩]
      [.terminal ⟨0⟩, .terminal ⟨1⟩, .nonterminal ⟨2⟩] :=
    hop.derives_of_mem (by decide)
  have hvariable : assignments.Derives [.nonterminal ⟨2⟩] [.terminal ⟨0⟩] :=
    hop.derives_of_mem (by decide)
  have hfirst : assignments.Derives [.nonterminal ⟨0⟩]
      [.terminal ⟨0⟩, .terminal ⟨1⟩, .terminal ⟨0⟩] :=
    hsingle.trans (hassignment.trans (hvariable.append_left [.terminal ⟨0⟩, .terminal ⟨1⟩]))
  have hempty : (ofGrammar assignments).matrix?.map (fun m => m.get? ⟨0⟩ ⟨3⟩) = some none := by
    decide +kernel
  obtain ⟨m, hm, hnone⟩ := Option.map_eq_some_iff.mp hempty
  refine ⟨constructed_assignments, hv, _, m,
    hsequence.trans (hfirst.append_right [.terminal ⟨3⟩, .nonterminal ⟨1⟩]), ?_, hm, hnone⟩
  exact Or.inl ⟨[.terminal ⟨0⟩, .terminal ⟨1⟩], [.nonterminal ⟨1⟩], rfl⟩

end PrecedenceAnalysis

end GrammarAnalysis
