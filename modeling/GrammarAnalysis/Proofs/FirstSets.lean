import GrammarAnalysis.Lookahead.Select
import GrammarAnalysis.Proofs.Derivation
import GrammarAnalysis.Proofs.LeastSolution

/-!
# FIRST is derivability

FIRST of a string is computed twice: as the contribution of a
right-hand side to the set of its nonterminal, where a last nonterminal
is a case of its own, and from finished sets, by `firstOf`. Both follow
one reading of the string, `Leads`, in which the sets of the
nonterminals are a parameter.

Read in this way, a family solves the inclusions of FIRST if and only if
what leads a right-hand side is in the set of its left-hand side
(`closed_firstSystem_iff`). Two solutions matter. The family of what the
strings derived from a nonterminal begin with is one, so the least
solution is not larger; and in any solution, what leads a derived string
leads the string it is derived from (`Leads.of_derives`), so the least
solution is not smaller.
-/

namespace GrammarAnalysis

/-! ## What leads a string -/

/-- **What leads a string of symbols**, when the nonterminals have the
sets of a family: the epsilon terminal leads a string all of whose
symbols may vanish. -/
def Leads (epsilon : Terminal) (f : Family) : List Symbol → Terminal → Prop
  | [], t => t = epsilon
  | .terminal u :: _, t => t = u
  | .nonterminal x :: rest, t =>
    (f x t ∧ t ≠ epsilon) ∨ (f x epsilon ∧ Leads epsilon f rest t)

section Leads

variable {epsilon : Terminal} {f f' : Family} {u v : List Symbol} {t : Terminal}

@[simp] theorem leads_nil : Leads epsilon f [] t ↔ t = epsilon := Iff.rfl

@[simp] theorem leads_terminal {a : Terminal} :
    Leads epsilon f (.terminal a :: u) t ↔ t = a := Iff.rfl

theorem leads_nonterminal {x : Nonterminal} :
    Leads epsilon f (.nonterminal x :: u) t ↔
      (f x t ∧ t ≠ epsilon) ∨ (f x epsilon ∧ Leads epsilon f u t) := Iff.rfl

/-- Larger sets lead with more. -/
theorem Leads.mono (hf : f ≤ f') (h : Leads epsilon f u t) : Leads epsilon f' u t := by
  induction u with
  | nil => exact h
  | cons s u ih =>
    cases s with
    | terminal a => exact h
    | nonterminal x =>
      rw [leads_nonterminal] at h ⊢
      exact h.imp (And.imp_left (hf x t)) (And.imp (hf x epsilon) ih)

/-- A string that is written without the epsilon terminal is led by what
leads its first part, and by what leads the rest if the first part may
vanish. -/
theorem leads_append (hu : .terminal epsilon ∉ u) :
    Leads epsilon f (u ++ v) t ↔
      (Leads epsilon f u t ∧ t ≠ epsilon) ∨ (Leads epsilon f u epsilon ∧ Leads epsilon f v t) := by
  induction u with
  | nil => simp
  | cons s u ih =>
    rw [List.mem_cons, not_or] at hu
    cases s with
    | terminal a =>
      have ha : epsilon ≠ a := fun h => hu.1 (by rw [h])
      rw [List.cons_append, leads_terminal, leads_terminal, leads_terminal]
      constructor
      · rintro rfl
        exact Or.inl ⟨rfl, ha.symm⟩
      · rintro (⟨h, -⟩ | ⟨h, -⟩)
        · exact h
        · exact absurd h ha
    | nonterminal x =>
      rw [List.cons_append, leads_nonterminal, leads_nonterminal, leads_nonterminal, ih hu.2]
      tauto

/-- `firstOf` reads a string in the sets of its table. -/
theorem mem_firstOf {table : SetTable} :
    t ∈ firstOf epsilon table u ↔ Leads epsilon table.holds u t := by
  induction u with
  | nil => rw [firstOf, TerminalSet.mem_single, leads_nil]
  | cons s u ih =>
    cases s with
    | terminal a => rw [firstOf, TerminalSet.mem_single, leads_terminal]
    | nonterminal x =>
      rw [firstOf, leads_nonterminal, SetTable.holds_iff, SetTable.holds_iff]
      split
      · next he =>
        rw [TerminalSet.mem_union, TerminalSet.mem_erase, ih]
        exact or_congr Iff.rfl (and_iff_right he).symm
      · next he =>
        have hne : t ∈ table.get x → t ≠ epsilon := fun ht h => he (h ▸ ht)
        exact ⟨fun ht => Or.inl ⟨ht, hne ht⟩,
          fun h => h.elim And.left (fun h => absurd h.1 he)⟩

/-- A right-hand side contributes what leads it. -/
theorem yields_firstContribution (hu : u ≠ []) :
    (firstContribution u).Yields epsilon f t ↔ Leads epsilon f u t := by
  induction u with
  | nil => exact absurd rfl hu
  | cons s u ih =>
    cases s with
    | terminal a =>
      rw [firstContribution, Contribution.yields_known, TerminalSet.mem_single, leads_terminal]
    | nonterminal x =>
      cases u with
      | nil =>
        -- the last nonterminal passes its epsilon on
        rw [firstContribution, Contribution.yields_inherit, leads_nonterminal, leads_nil]
        constructor
        · intro h
          by_cases ht : t = epsilon
          · exact Or.inr ⟨ht ▸ h, ht⟩
          · exact Or.inl ⟨h, ht⟩
        · rintro (⟨h, -⟩ | ⟨h, rfl⟩)
          · exact h
          · exact h
      | cons s' u =>
        rw [firstContribution, Contribution.yields_through, leads_nonterminal,
          ih (List.cons_ne_nil _ _)]
        exact List.cons_ne_nil _ _

end Leads

namespace Grammar

variable {g : Grammar} {f : Family} {u v : List Symbol} {x : Nonterminal} {t : Terminal}

/-! ## The inclusions of FIRST -/

/-- A system that has one list of contributions for every nonterminal of the
grammar has as many sets. -/
theorem size_eq {sys : SetSystem} {contributions : Nonterminal → List Contribution}
    (h : sys.contributions = g.allNonterminals.map contributions) :
    sys.size = g.nonterminals.length := by
  rw [SetSystem.size, h, List.length_map, allNonterminals, List.length_map, List.length_range]

/-- The contributions of a system that has one list of them for every
nonterminal of the grammar. -/
theorem mem_of_iff {sys : SetSystem} {contributions : Nonterminal → List Contribution}
    (h : sys.contributions = g.allNonterminals.map contributions) {c : Contribution} :
    c ∈ sys.of x ↔ x.index < g.nonterminals.length ∧ c ∈ contributions x := by
  rw [SetSystem.of, h, allNonterminals, List.map_map, List.getElem?_map]
  by_cases hx : x.index < g.nonterminals.length
  · rw [List.getElem?_range hx]
    exact (and_iff_right hx).symm
  · rw [List.getElem?_eq_none (by simpa using hx)]
    exact iff_of_false List.not_mem_nil (fun h => hx h.1)

/-- The empty string and its spelling are led by the same. -/
theorem leads_expansion {rhs : List Symbol} (h : g.IsRhs rhs) :
    Leads g.epsilon f (g.expansion rhs) t ↔ Leads g.epsilon f rhs t := by
  obtain ⟨hrhs, he⟩ | ⟨-, he⟩ := h.expansion_cases
  · rw [he, hrhs, leads_nil, leads_terminal]
  · rw [he]

/-- **The inclusions of FIRST**: what leads a right-hand side is in the
set of its left-hand side. -/
theorem WellFormed.closed_firstSystem_iff (hg : g.WellFormed) :
    g.firstSystem.Closed f ↔
      ∀ p ∈ g.productions, ∀ t, Leads g.epsilon f p.rhs t → f p.lhs t := by
  constructor
  · intro h p hp t ht
    have hc : firstContribution p.rhs ∈ g.firstSystem.of p.lhs :=
      (mem_of_iff rfl).mpr ⟨hg.lhs_lt_of_mem hp,
        List.mem_map.mpr ⟨p.rhs, hg.mem_alternatives.mpr hp, rfl⟩⟩
    exact h p.lhs _ hc t ((yields_firstContribution (hg.isRhs_of_mem hp).ne_nil).mpr ht)
  · intro h x c hc t ht
    obtain ⟨rhs, hrhs, rfl⟩ := List.mem_map.mp ((mem_of_iff rfl).mp hc).2
    have hp := hg.mem_alternatives.mp hrhs
    exact h ⟨x, rhs⟩ hp t ((yields_firstContribution (hg.isRhs_of_mem hp).ne_nil).mp ht)

/-- In a solution, what leads a string after a derivation step leads it
before. -/
theorem Step.leads (hg : g.WellFormed) (hf : g.firstSystem.Closed f) (h : g.Step u v)
    (ht : Leads g.epsilon f v t) : Leads g.epsilon f u t := by
  cases h with
  | @expand p hp before after =>
    have hrhs := hg.isRhs_of_mem hp
    have hlhs : ∀ t, Leads g.epsilon f (g.expansion p.rhs) t → f p.lhs t := fun t ht =>
      hg.closed_firstSystem_iff.mp hf p hp t ((leads_expansion hrhs).mp ht)
    induction before with
    | nil =>
      rw [List.nil_append, leads_append hrhs.epsilon_notMem_expansion] at ht
      rw [List.nil_append, leads_nonterminal]
      exact ht.imp (And.imp_left (hlhs t)) (And.imp_left (hlhs g.epsilon))
    | cons s before ih =>
      cases s with
      | terminal a => exact ht
      | nonterminal y =>
        rw [List.cons_append, leads_nonterminal] at ht ⊢
        exact ht.imp_right (And.imp_right ih)

/-- **In a solution, what leads a derived string leads the string it is
derived from.** -/
theorem Leads.of_derives (hg : g.WellFormed) (hf : g.firstSystem.Closed f)
    (h : g.Derives u v) (ht : Leads g.epsilon f v t) : Leads g.epsilon f u t := by
  induction h with
  | refl => exact ht
  | tail _ hstep ih => exact ih (hstep.leads hg hf ht)

/-! ## What derived strings begin with -/

/-- **What the strings derived from `u` begin with**: a terminal, or the
epsilon terminal for the empty string. -/
def Begins (g : Grammar) (u : List Symbol) (t : Terminal) : Prop :=
  (t ≠ g.epsilon ∧ ∃ rest, g.Derives u (.terminal t :: rest))
    ∨ (t = g.epsilon ∧ g.Derives u [])

theorem begins_of_ne (ht : t ≠ g.epsilon) :
    g.Begins u t ↔ ∃ rest, g.Derives u (.terminal t :: rest) := by
  rw [Begins, and_iff_right ht, or_iff_left (fun h => ht h.1)]

@[simp] theorem begins_epsilon : g.Begins u g.epsilon ↔ g.Derives u [] := by
  rw [Begins, and_iff_right rfl, or_iff_right (fun h => h.1 rfl)]

@[simp] theorem begins_nil : g.Begins [] t ↔ t = g.epsilon := by
  constructor
  · rintro (⟨-, rest, h⟩ | ⟨h, -⟩)
    · exact absurd (derives_nil_iff.mp h) (List.cons_ne_nil _ _)
    · exact h
  · rintro rfl
    exact begins_epsilon.mpr (Derives.refl g [])

/-- What a derived string begins with, the string it is derived from
begins with. -/
theorem Derives.begins (h : g.Derives u v) (ht : g.Begins v t) : g.Begins u t :=
  ht.imp (And.imp_right (fun ⟨rest, hv⟩ => ⟨rest, h.trans hv⟩))
    (And.imp_right (fun hv => h.trans hv))

/-- A string begins with what leads it, when the nonterminals have the
sets of what they begin with. -/
theorem begins_of_leads (hu : .terminal g.epsilon ∉ u)
    (ht : Leads g.epsilon (fun x => g.Begins [.nonterminal x]) u t) : g.Begins u t := by
  induction u with
  | nil => exact Or.inr ⟨ht, Derives.refl g []⟩
  | cons s u ih =>
    rw [List.mem_cons, not_or] at hu
    cases s with
    | terminal a =>
      rw [leads_terminal] at ht
      subst ht
      exact (begins_of_ne (fun h => hu.1 (by rw [h]))).mpr ⟨u, Derives.refl g _⟩
    | nonterminal x =>
      obtain ⟨hx, hne⟩ | ⟨hx, ht⟩ := ht
      · obtain ⟨rest, hrest⟩ := (begins_of_ne hne).mp hx
        exact (begins_of_ne hne).mpr ⟨rest ++ u, hrest.append_right u⟩
      · -- the nonterminal vanishes
        have hvanish : g.Derives (.nonterminal x :: u) u :=
          (begins_epsilon.mp hx).append_right u
        exact hvanish.begins (ih hu.2 ht)

/-- What derived strings begin with is a solution. -/
theorem WellFormed.closed_begins (hg : g.WellFormed) :
    g.firstSystem.Closed (fun x => g.Begins [.nonterminal x]) := by
  refine hg.closed_firstSystem_iff.mpr (fun p hp t ht => ?_)
  have hrhs := hg.isRhs_of_mem hp
  exact (Derives.of_mem hp).begins
    (begins_of_leads hrhs.epsilon_notMem_expansion ((leads_expansion hrhs).mpr ht))

/-- What a string begins with leads it in any solution. -/
theorem Begins.leads (hg : g.WellFormed) (hf : g.firstSystem.Closed f) (ht : g.Begins u t) :
    Leads g.epsilon f u t := by
  obtain ⟨-, rest, h⟩ | ⟨rfl, h⟩ := ht
  · exact Leads.of_derives hg hf h rfl
  · exact Leads.of_derives hg hf h rfl

/-! ## The solution -/

/-- A string of declared symbols is led by declared terminals, or by what
the sets of its nonterminals hold. -/
theorem Leads.index_lt (hg : g.WellFormed) {n : Nat} (hn : g.terminals.length ≤ n)
    (hu : ∀ s ∈ u, g.IsDeclared s) (ht : Leads g.epsilon (fun _ t => t.index < n) u t) :
    t.index < n := by
  induction u with
  | nil =>
    rw [leads_nil.mp ht]
    exact Nat.lt_of_lt_of_le hg.epsilon_lt hn
  | cons s u ih =>
    cases s with
    | terminal a =>
      rw [leads_terminal.mp ht]
      exact Nat.lt_of_lt_of_le (hu _ List.mem_cons_self) hn
    | nonterminal x =>
      obtain ⟨hx, -⟩ | ⟨-, ht⟩ := ht
      · exact hx
      · exact ih (fun s hs => hu s (List.mem_cons_of_mem _ hs)) ht

namespace WellFormed

/-- The declared terminals, in every set, solve the inclusions. -/
theorem closed_index_lt (hg : g.WellFormed) {n : Nat} (hn : g.terminals.length ≤ n) :
    g.firstSystem.Closed (fun _ t => t.index < n) :=
  hg.closed_firstSystem_iff.mpr (fun _ hp _ ht =>
    Leads.index_lt hg hn (hg.isRhs_of_mem hp).declared ht)

theorem solvable_firstSystem (hg : g.WellFormed) :
    g.firstSystem.Solvable (SetTable.blank g.nonterminals.length) :=
  SetSystem.solvable_blank (size_eq rfl).symm (hg.closed_index_lt (Nat.le_succ _))

theorem isLeast_solveFirst (hg : g.WellFormed) :
    IsLeast {f | g.firstSystem.Closed f} g.solveFirst.table.holds :=
  SetSystem.isLeast_solve_blank hg.solvable_firstSystem

theorem closed_solveFirst (hg : g.WellFormed) :
    g.firstSystem.Closed g.solveFirst.table.holds :=
  hg.isLeast_solveFirst.1

/-- What is in FIRST is in every solution. -/
theorem solveFirst_le (hg : g.WellFormed) (hf : g.firstSystem.Closed f) :
    g.solveFirst.table.holds ≤ f :=
  hg.isLeast_solveFirst.2 hf

/-- **FIRST of a nonterminal is what its derived strings begin with.** -/
theorem mem_solveFirst_iff (hg : g.WellFormed) :
    t ∈ g.solveFirst.table.get x ↔ g.Begins [.nonterminal x] t := by
  refine ⟨hg.solveFirst_le hg.closed_begins x t, fun h => ?_⟩
  obtain ⟨h, -⟩ | ⟨hx, ht⟩ := h.leads hg hg.closed_solveFirst
  · exact h
  · rwa [leads_nil.mp ht]

/-- **FIRST of a string is what its derived strings begin with.** -/
theorem mem_firstOf_iff (hg : g.WellFormed) (hu : .terminal g.epsilon ∉ u) :
    t ∈ firstOf g.epsilon g.solveFirst.table u ↔ g.Begins u t := by
  rw [mem_firstOf]
  refine ⟨fun h => begins_of_leads hu (h.mono ?_), fun h => h.leads hg hg.closed_solveFirst⟩
  exact fun x t h => hg.mem_solveFirst_iff.mp h

/-- FIRST of a string of declared symbols holds declared terminals. -/
theorem index_lt_of_leads (hg : g.WellFormed) (hu : ∀ s ∈ u, g.IsDeclared s)
    (ht : Leads g.epsilon g.solveFirst.table.holds u t) : t.index < g.terminals.length :=
  Leads.index_lt hg (Nat.le_refl _) hu
    (ht.mono (hg.solveFirst_le (hg.closed_index_lt (Nat.le_refl _))))

/-- FIRST of a nonterminal is made up of FIRST of its right-hand sides. -/
theorem mem_solveFirst_iff_exists (hg : g.WellFormed) :
    t ∈ g.solveFirst.table.get x ↔
      ∃ rhs ∈ g.alternatives x, t ∈ firstOf g.epsilon g.solveFirst.table rhs := by
  have hback : ∀ y a, (∃ rhs ∈ g.alternatives y, a ∈ firstOf g.epsilon g.solveFirst.table rhs) →
      g.solveFirst.table.holds y a := by
    rintro y a ⟨rhs, hrhs, ha⟩
    exact hg.closed_firstSystem_iff.mp hg.closed_solveFirst ⟨y, rhs⟩
      (hg.mem_alternatives.mp hrhs) a (mem_firstOf.mp ha)
  -- the union over the right-hand sides is a solution itself
  have hunion : g.firstSystem.Closed
      (fun y a => ∃ rhs ∈ g.alternatives y, a ∈ firstOf g.epsilon g.solveFirst.table rhs) :=
    hg.closed_firstSystem_iff.mpr (fun p hp a ha =>
      ⟨p.rhs, hg.mem_alternatives.mpr hp, mem_firstOf.mpr (ha.mono hback)⟩)
  exact ⟨hg.solveFirst_le hunion x t, hback x t⟩

end WellFormed

/-! ## The analysis -/

/-- **A set is FIRST of a string**: a terminal is in it exactly when some
derived string begins with the terminal, epsilon exactly when the empty
string is derived, and nothing else. -/
structure IsFirstOf (g : Grammar) (s : TerminalSet) (u : List Symbol) : Prop where
  terminal : ∀ t, t ≠ g.epsilon → (t ∈ s ↔ ∃ rest, g.Derives u (.terminal t :: rest))
  epsilon : g.epsilon ∈ s ↔ g.Derives u []
  declared : ∀ t ∈ s, t.index < g.terminals.length
  endMarker : g.endMarker ∉ s

theorem isFirstOf_of_begins {s : TerminalSet} (h : ∀ t, t ∈ s ↔ g.Begins u t)
    (hlt : ∀ t ∈ s, t.index < g.terminals.length) : g.IsFirstOf s u where
  terminal := fun t ht => (h t).trans (begins_of_ne ht)
  epsilon := (h g.epsilon).trans begins_epsilon
  declared := hlt
  endMarker := fun he => ne_endMarker (hlt _ he) rfl

/-- **FIRST is derivability.** In every constructed grammar the set of
every nonterminal is FIRST of the nonterminal; the set that is read off
for a string is FIRST of the string, if the string is written without
the epsilon terminal, and the epsilon terminal alone is read as the
empty string. The set of a nonterminal is therefore made up of the sets
that are read off for its right-hand sides. -/
theorem first_exact (hg : g.Constructed) :
    let a := LookaheadAnalysis.ofGrammar g
    (∀ x, g.IsFirstOf (a.firstOf x) [.nonterminal x]
        ∧ (a.nullable x = true ↔ g.Derives [.nonterminal x] []))
      ∧ (∀ u : List Symbol, (∀ s ∈ u, g.IsDeclared s) → .terminal g.epsilon ∉ u →
        g.IsFirstOf (firstOf g.epsilon a.first.table u) u)
      ∧ g.IsFirstOf (firstOf g.epsilon a.first.table [.terminal g.epsilon]) []
      ∧ ∀ x t, t ∈ a.firstOf x ↔
        ∃ rhs ∈ g.alternatives x, t ∈ firstOf g.epsilon a.first.table rhs := by
  intro a
  have hwf := hg.wellFormed
  refine ⟨fun x => ⟨?_, ?_⟩, fun u hu he => ?_, ?_, fun x t => ?_⟩
  · exact isFirstOf_of_begins (fun t => hwf.mem_solveFirst_iff)
      (hwf.solveFirst_le (hwf.closed_index_lt (Nat.le_refl _)) x)
  · refine decide_eq_true_iff.trans ?_
    exact hwf.mem_solveFirst_iff.trans begins_epsilon
  · exact isFirstOf_of_begins (fun t => hwf.mem_firstOf_iff he)
      (fun t ht => hwf.index_lt_of_leads hu (mem_firstOf.mp ht))
  · have hone : ∀ t, t ∈ firstOf g.epsilon a.first.table [.terminal g.epsilon] ↔ t = g.epsilon :=
      fun t => TerminalSet.mem_single
    refine isFirstOf_of_begins (fun t => (hone t).trans begins_nil.symm) (fun t ht => ?_)
    rw [(hone t).mp ht]
    exact hwf.epsilon_lt
  · exact hwf.mem_solveFirst_iff_exists

/-- In the grammar of brackets, `S` derives the empty string and strings
that begin with `(`, the string `S)` strings that begin with `)`, and
`L` not the empty string. -/
theorem first_exact_brackets :
    brackets.Constructed ∧ brackets.Derives [.nonterminal ⟨0⟩] []
      ∧ (∃ rest, brackets.Derives [.nonterminal ⟨0⟩] (.terminal ⟨0⟩ :: rest))
      ∧ (∃ rest, brackets.Derives [.nonterminal ⟨0⟩, .terminal ⟨1⟩] (.terminal ⟨1⟩ :: rest))
      ∧ ¬ brackets.Derives [.nonterminal ⟨1⟩] [] := by
  obtain ⟨hsymbol, hstring, -, -⟩ := first_exact constructed_brackets
  refine ⟨constructed_brackets, (hsymbol ⟨0⟩).1.epsilon.mp (by decide +kernel),
    ((hsymbol ⟨0⟩).1.terminal ⟨0⟩ (by decide)).mp (by decide +kernel), ?_,
    fun h => absurd ((hsymbol ⟨1⟩).1.epsilon.mpr h) (by decide +kernel)⟩
  have hu : ∀ s ∈ [Symbol.nonterminal ⟨0⟩, .terminal ⟨1⟩], brackets.IsDeclared s := by
    simp [IsDeclared, brackets]
  exact ((hstring _ hu (by decide)).terminal ⟨1⟩ (by decide)).mp (by decide +kernel)

end Grammar

end GrammarAnalysis
