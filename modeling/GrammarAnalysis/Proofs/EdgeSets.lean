import GrammarAnalysis.Proofs.FirstSets
import GrammarAnalysis.Proofs.OperatorShape

/-!
# FIRSTVT, LASTVT and the ends of derived strings

A terminal opens a string when it is the first terminal there and at most
one nonterminal stands before it. FIRSTVT of a nonterminal holds only
terminals that open strings derived from it (`surfaces_of_mem_solveEdge`),
but it need not hold all of them. A right-hand side `N t …` contributes
`t` and nothing else, although `N` may derive a string that another
terminal opens: sets are inherited along productions of a single
nonterminal only.

`Inherits` says that nothing is lost by this in a grammar: whatever is in
the set of such a leading nonterminal is also in the set of the left-hand
side. Then every terminal that opens a derived string is in FIRSTVT
(`Shows.of_derives`, `mem_of_surfaces`). LASTVT is read off the mirror
image.
-/

namespace GrammarAnalysis

/-- **A terminal opens a string**: it stands at its beginning, or behind
one nonterminal there. -/
inductive Opens : List Symbol → Terminal → Prop
  | terminal (t : Terminal) (rest : List Symbol) : Opens (.terminal t :: rest) t
  | nonterminal (x : Nonterminal) (t : Terminal) (rest : List Symbol) :
    Opens (.nonterminal x :: .terminal t :: rest) t

/-- **What a right-hand side contributes** to the set of its left-hand
side: the terminal that opens it, or the set of the single nonterminal it
consists of. -/
inductive Contributes (f : Family) : List Symbol → Terminal → Prop
  | opens {u : List Symbol} {t : Terminal} (h : Opens u t) : Contributes f u t
  | inherited {x : Nonterminal} {t : Terminal} (h : f x t) : Contributes f [.nonterminal x] t

section Opens

variable {f : Family} {u v : List Symbol} {a t : Terminal} {x : Nonterminal}

@[simp] theorem not_opens_nil : ¬ Opens [] t := nofun

@[simp] theorem not_opens_singleton : ¬ Opens [.nonterminal x] t := nofun

@[simp] theorem not_opens_nonterminal {y : Nonterminal} :
    ¬ Opens (.nonterminal x :: .nonterminal y :: u) t := nofun

@[simp] theorem opens_terminal : Opens (.terminal a :: u) t ↔ t = a := by
  constructor
  · rintro ⟨⟩
    rfl
  · rintro rfl
    exact .terminal t u

@[simp] theorem opens_nonterminal_terminal :
    Opens (.nonterminal x :: .terminal a :: u) t ↔ t = a := by
  constructor
  · rintro ⟨⟩
    rfl
  · rintro rfl
    exact .nonterminal x t u

theorem Opens.mem (h : Opens u t) : .terminal t ∈ u := by
  cases h with
  | terminal t rest => exact List.mem_cons_self
  | nonterminal x t rest => exact List.mem_cons_of_mem _ List.mem_cons_self

/-- What opens a string opens every longer one. -/
theorem Opens.append_right (h : Opens u t) (v : List Symbol) : Opens (u ++ v) t := by
  cases h with
  | terminal t rest => exact .terminal t (rest ++ v)
  | nonterminal x t rest => exact .nonterminal x t (rest ++ v)

/-- The parts of a string that a terminal opens: it opens the first part,
or the second one after a first part of at most one nonterminal. -/
theorem Opens.append_cases (h : Opens (u ++ v) t) :
    Opens u t ∨ (u = [] ∧ Opens v t)
      ∨ ∃ x rest, u = [.nonterminal x] ∧ v = .terminal t :: rest := by
  match u with
  | [] => exact Or.inr (Or.inl ⟨rfl, h⟩)
  | .terminal a :: u =>
    rw [List.cons_append, opens_terminal] at h
    exact Or.inl (opens_terminal.mpr h)
  | [.nonterminal x] =>
    rw [List.singleton_append] at h
    cases h with
    | nonterminal x t rest => exact Or.inr (Or.inr ⟨x, rest, rfl, rfl⟩)
  | .nonterminal x :: .terminal a :: u =>
    rw [List.cons_append, List.cons_append, opens_nonterminal_terminal] at h
    exact Or.inl (opens_nonterminal_terminal.mpr h)
  | .nonterminal x :: .nonterminal y :: u => exact absurd h not_opens_nonterminal

theorem yields_edgeContribution {marker : Terminal} :
    (edgeContribution u).Yields marker f t ↔ Contributes f u t := by
  constructor
  · intro h
    unfold edgeContribution at h
    split at h
    · exact .opens (opens_terminal.mpr (TerminalSet.mem_single.mp h))
    · exact .opens (opens_nonterminal_terminal.mpr (TerminalSet.mem_single.mp h))
    · exact .inherited h
    · exact absurd h (TerminalSet.not_mem_empty t)
  · rintro (h | h)
    · cases h with
      | terminal t rest => exact TerminalSet.mem_single.mpr rfl
      | nonterminal x t rest => exact TerminalSet.mem_single.mpr rfl
    · exact h

/-- What a right-hand side contributes at an end is what it contributes when it
is read from there. -/
theorem yields_contribution {marker : Terminal} {edge : Edge} :
    (edge.contribution u).Yields marker f t ↔ Contributes f (edge.read u) t := by
  rw [Edge.contribution_eq, yields_edgeContribution]

end Opens

namespace Grammar

variable {g : Grammar} {f : Family} {u v : List Symbol} {x : Nonterminal} {t : Terminal}
  {edge : Edge}

/-- **A terminal surfaces at an end of a string** when it opens a string
derived from it, read from that end. -/
def Surfaces (g : Grammar) (edge : Edge) (u : List Symbol) (t : Terminal) : Prop :=
  ∃ v, g.Derives u v ∧ Opens (edge.read v) t

theorem surfaces_mirror_iff :
    g.mirror.Surfaces edge u t ↔ g.Surfaces edge.opposite u.reverse t := by
  constructor
  · rintro ⟨v, h, ht⟩
    exact ⟨v.reverse, derives_mirror_iff.mp h, by simpa using ht⟩
  · rintro ⟨v, h, ht⟩
    exact ⟨v.reverse, derives_mirror_iff.mpr (by simpa using h), by simpa using ht⟩

theorem Derives.surfaces (h : g.Derives u v) (ht : g.Surfaces edge v t) : g.Surfaces edge u t := by
  obtain ⟨w, hv, ht⟩ := ht
  exact ⟨w, h.trans hv, ht⟩

/-! ## The solution -/

namespace WellFormed

/-- **The inclusions of FIRSTVT and LASTVT**: what a right-hand side
contributes is in the set of its left-hand side. -/
theorem closed_edgeSystem_iff (hg : g.WellFormed) :
    (g.edgeSystem edge).Closed f ↔
      ∀ p ∈ g.productions, ∀ t, Contributes f (edge.read p.rhs) t → f p.lhs t := by
  constructor
  · intro h p hp t ht
    have hc : edge.contribution p.rhs ∈ (g.edgeSystem edge).of p.lhs :=
      (mem_of_iff rfl).mpr ⟨hg.lhs_lt_of_mem hp,
        List.mem_map.mpr ⟨p.rhs, hg.mem_alternatives.mpr hp, rfl⟩⟩
    exact h p.lhs _ hc t (yields_contribution.mpr ht)
  · intro h x c hc t ht
    obtain ⟨rhs, hrhs, rfl⟩ := List.mem_map.mp ((mem_of_iff rfl).mp hc).2
    exact h ⟨x, rhs⟩ (hg.mem_alternatives.mp hrhs) t (yields_contribution.mp ht)

/-- What holds of the terminals of all right-hand sides, in every set,
solves the inclusions. -/
theorem closed_of_forall_mem (hg : g.WellFormed) {P : Terminal → Prop}
    (h : ∀ p ∈ g.productions, ∀ t, .terminal t ∈ p.rhs → P t) :
    (g.edgeSystem edge).Closed (fun _ t => P t) := by
  refine hg.closed_edgeSystem_iff.mpr (fun p hp t ht => ?_)
  have hmem : ∀ s, s ∈ edge.read p.rhs → s ∈ p.rhs := fun _ => Edge.mem_read.mp
  generalize edge.read p.rhs = u at ht hmem
  cases ht with
  | inherited ht => exact ht
  | opens ht => exact h p hp t (hmem _ ht.mem)

theorem solvable_edgeSystem (hg : g.WellFormed) :
    (g.edgeSystem edge).Solvable (SetTable.blank g.nonterminals.length) :=
  SetSystem.solvable_blank (size_eq rfl).symm
    (hg.closed_of_forall_mem fun _ hp _ ht => (hg.isRhs_of_mem hp).declared _ ht)

theorem isLeast_solveEdge (hg : g.WellFormed) :
    IsLeast {f | (g.edgeSystem edge).Closed f} (g.solveEdge edge).table.holds :=
  SetSystem.isLeast_solve_blank hg.solvable_edgeSystem

theorem closed_solveEdge (hg : g.WellFormed) :
    (g.edgeSystem edge).Closed (g.solveEdge edge).table.holds :=
  hg.isLeast_solveEdge.1

/-- What is in FIRSTVT or LASTVT is in every solution. -/
theorem solveEdge_le (hg : g.WellFormed) (hf : (g.edgeSystem edge).Closed f) :
    (g.solveEdge edge).table.holds ≤ f :=
  hg.isLeast_solveEdge.2 hf

/-- The members of FIRSTVT and LASTVT are proper symbols. -/
theorem isProper_of_mem_solveEdge (hg : g.WellFormed) (hop : g.OperatorShaped)
    (ht : t ∈ (g.solveEdge edge).table.get x) : g.IsProper (.terminal t) :=
  hg.solveEdge_le (hg.closed_of_forall_mem
    (fun _ hp _ hs => hop.isProper_of_mem hg hp hs)) x t ht

/-- **The members of FIRSTVT and LASTVT surface at the end of a derived
string.** -/
theorem surfaces_of_mem_solveEdge (hg : g.WellFormed) (hop : g.OperatorShaped)
    (ht : t ∈ (g.solveEdge edge).table.get x) : g.Surfaces edge [.nonterminal x] t := by
  refine hg.solveEdge_le (f := fun x t => g.Surfaces edge [.nonterminal x] t)
    (hg.closed_edgeSystem_iff.mpr fun p hp t ht => ?_) x t ht
  have hstep := hop.derives_of_mem hp
  generalize hu : edge.read p.rhs = u at ht
  cases ht with
  | opens ht => exact ⟨p.rhs, hstep, hu ▸ ht⟩
  | @inherited y t ht =>
    have hrhs : p.rhs = [.nonterminal y] := Edge.read_eq_singleton.mp hu
    exact (hrhs ▸ hstep).surfaces ht

end WellFormed

/-! ## Complete sets -/

/-- **A family inherits through leading nonterminals** when, for every
right-hand side that begins with a nonterminal and a terminal, the set of
the nonterminal is part of the set of the left-hand side. -/
def Inherits (g : Grammar) (edge : Edge) (f : Family) : Prop :=
  ∀ p ∈ g.productions, ∀ x t rest, edge.read p.rhs = .nonterminal x :: .terminal t :: rest →
    f x ≤ f p.lhs

/-- What a family says about the beginning of a string: a terminal opens
it, or is in the set of the nonterminal there. -/
def Shows (f : Family) (u : List Symbol) (t : Terminal) : Prop :=
  Opens u t ∨ ∃ x rest, u = .nonterminal x :: rest ∧ f x t

/-- What is shown after replacing a leading nonterminal by a string is
shown before, if what the string shows is in the set of the
nonterminal. -/
theorem Shows.of_append (hv : v ≠ []) (hx : Shows f v t → f x t) (ht : Shows f (v ++ u) t) :
    Shows f (.nonterminal x :: u) t := by
  obtain ht | ⟨y, rest, heq, ht⟩ := ht
  · obtain hopen | ⟨hnil, -⟩ | ⟨y, rest, -, hu⟩ := ht.append_cases
    · exact Or.inr ⟨x, u, rfl, hx (Or.inl hopen)⟩
    · exact absurd hnil hv
    · rw [hu]
      exact Or.inl (.nonterminal x t rest)
  · obtain ⟨hnil, -⟩ | ⟨rest', hv', -⟩ := List.append_eq_cons_iff.mp heq
    · exact absurd hnil hv
    · exact Or.inr ⟨x, u, rfl, hx (Or.inr ⟨y, rest', hv', ht⟩)⟩

/-- In a solution that inherits, what a right-hand side shows is in the set
of its left-hand side. -/
theorem Shows.lhs (hg : g.WellFormed) (hop : g.OperatorShaped)
    (hf : (g.edgeSystem .first).Closed f) (hinherits : g.Inherits .first f) {p : Production}
    (hp : p ∈ g.productions) (ht : Shows f p.rhs t) : f p.lhs t := by
  have hclosed := hg.closed_edgeSystem_iff.mp hf p hp t
  obtain ht | ⟨x, rest, hrhs, ht⟩ := ht
  · exact hclosed (.opens ht)
  · -- the right-hand side is a single nonterminal, or a terminal follows it
    have hsep : Separated ([] ++ .nonterminal x :: rest) := hrhs ▸ hop.separated p hp
    obtain rfl | ⟨a, rest, rfl⟩ := hsep.after_cases
    · refine hclosed ?_
      rw [hrhs]
      exact .inherited ht
    · exact hinherits p hp x a rest hrhs t ht

/-- In a solution that inherits, what a string shows after a derivation
step it shows before. -/
theorem Step.shows (hg : g.WellFormed) (hop : g.OperatorShaped)
    (hf : (g.edgeSystem .first).Closed f) (hinherits : g.Inherits .first f) (h : g.Step u v)
    (hu : Separated u) (ht : Shows f v t) : Shows f u t := by
  cases h with
  | @expand p hp before after =>
    rw [hop.expansion_eq hp] at ht
    have hlhs := Shows.lhs hg hop hf hinherits hp (t := t)
    match before with
    | [] => exact Shows.of_append (hg.isRhs_of_mem hp).ne_nil hlhs ht
    | .terminal a :: before =>
      obtain ht | ⟨x, rest, heq, -⟩ := ht
      · exact Or.inl (opens_terminal.mpr (opens_terminal.mp ht))
      · cases heq
    | .nonterminal y :: .terminal a :: before =>
      obtain ht | ⟨x, rest, heq, ht⟩ := ht
      · exact Or.inl (opens_nonterminal_terminal.mpr (opens_nonterminal_terminal.mp ht))
      · exact Or.inr ⟨x, _, by rw [(List.cons.inj heq).1]; rfl, ht⟩
    -- adjacent nonterminals
    | [.nonterminal y] => exact absurd (List.isChain_cons_cons.mp hu).1 id
    | .nonterminal y :: .nonterminal z :: before =>
      exact absurd (List.isChain_cons_cons.mp hu).1 id

/-- **In a solution that inherits, what opens a derived string is shown by
the string it is derived from.** -/
theorem Shows.of_derives (hg : g.WellFormed) (hop : g.OperatorShaped)
    (hf : (g.edgeSystem .first).Closed f) (hinherits : g.Inherits .first f)
    (h : g.Derives u v) (hu : Separated u) (ht : Shows f v t) : Shows f u t := by
  induction h with
  | refl => exact ht
  | tail hderives hstep ih =>
    exact ih (hstep.shows hg hop hf hinherits (separated_of_derives hop.separated hderives hu) ht)

/-- **FIRSTVT and LASTVT are complete where they inherit**: they hold every
terminal that surfaces at the end of a derived string. -/
theorem WellFormed.mem_of_surfaces (hg : g.WellFormed) (hop : g.OperatorShaped)
    (hinherits : g.Inherits edge (g.solveEdge edge).table.holds)
    (ht : g.Surfaces edge [.nonterminal x] t) : t ∈ (g.solveEdge edge).table.get x := by
  -- it is enough to look at left ends, in all grammars of this shape
  have hleft : ∀ {g : Grammar}, g.WellFormed → g.OperatorShaped →
      g.Inherits .first (g.solveEdge .first).table.holds →
      g.Surfaces .first [.nonterminal x] t → t ∈ (g.solveEdge .first).table.get x := by
    intro g hg hop hinherits ⟨v, h, ht⟩
    obtain ht | ⟨y, rest, heq, ht⟩ := Shows.of_derives hg hop hg.closed_solveEdge hinherits h
      (Separated.singleton _) (Or.inl ht)
    · exact absurd ht not_opens_singleton
    · obtain ⟨heq, -⟩ := List.cons.inj heq
      rwa [Symbol.nonterminal.inj heq]
  cases edge with
  | first => exact hleft hg hop hinherits ht
  | last =>
    have hmirror := hleft hg.mirror hop.mirror
    rw [solveEdge_mirror, surfaces_mirror_iff] at hmirror
    refine hmirror (fun p hp y a rest hread => ?_) ht
    exact hinherits p.mirror (mem_productions_mirror.mp hp) y a rest
      (by rw [← hread]; simp [Production.mirror, Edge.read])

end Grammar

end GrammarAnalysis
