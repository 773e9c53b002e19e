import GrammarAnalysis.Proofs.EdgeSets
import GrammarAnalysis.Proofs.FollowSets
import GrammarAnalysis.Proofs.UnitChains
import GrammarAnalysis.Proofs.Visits

/-!
# How many passes there are

Every pass but the last one adds a member to some set. So there are no more of
them than members that can be added, and how many these are depends on what
the sets can hold at all: any solution of the inclusions above the starting
table bounds them (`Solvable.le_of_changed`).

FIRST holds declared terminals. FOLLOW holds the end-marker as well, but not
the epsilon terminal, which makes as many. FIRSTVT and LASTVT hold neither if
the grammar has the right shape. With `n` nonterminals and `t` terminals this
comes to `n * t` members, and to `n * (t - 1)` for the last two.
-/

namespace GrammarAnalysis

namespace SetSystem

variable {sys : SetSystem} {start : SetTable} {f f' : Family} {n : Nat}

/-- What two solutions have in common is a solution. -/
theorem Closed.and (hf : sys.Closed f) (hf' : sys.Closed f') :
    sys.Closed (fun x t => f x t ∧ f' x t) :=
  fun x c hc t ht => ⟨hf x c hc t (ht.mono fun _ _ => And.left),
    hf' x c hc t (ht.mono fun _ _ => And.right)⟩

/-! ## Several passes -/

theorem tableAfter_succ (start : SetTable) (n : Nat) :
    sys.tableAfter start (n + 1) = (sys.pass (sys.tableAfter start n)).table :=
  Function.iterate_succ_apply' _ n start

theorem Solvable.tableAfter (h : sys.Solvable start) (n : Nat) :
    sys.Solvable (sys.tableAfter start n) := by
  induction n with
  | zero => exact h
  | succ n ih =>
    rw [tableAfter_succ]
    exact ih.pass

theorem tableAfter_below (hf : sys.Closed f) (hstart : start.holds ≤ f) (n : Nat) :
    (sys.tableAfter start n).holds ≤ f := by
  induction n with
  | zero => exact hstart
  | succ n ih =>
    rw [tableAfter_succ]
    exact pass_below hf ih

/-- A pass that changes something enlarges a set. -/
theorem Solvable.exists_enlarged (h : sys.Solvable start)
    (hchanged : (sys.pass start).changed = true) :
    ∃ x t, t ∈ (sys.pass start).table.get x ∧ t ∉ start.get x :=
  ((sys.pass_extends start).enlarged h.size hchanged).resolve_left Bool.false_ne_true

/-- **Passes that change something add up.** -/
theorem Solvable.le_card_members (h : sys.Solvable start)
    (hchanged : ∀ k < n, (sys.pass (sys.tableAfter start k)).changed = true) :
    n ≤ (sys.members (sys.tableAfter start n)).card := by
  induction n with
  | zero => exact Nat.zero_le _
  | succ n ih =>
    have hbefore := ih fun k hk => hchanged k (Nat.lt_succ_of_lt hk)
    have hlt := card_members_lt (h.tableAfter n).size (h.tableAfter n).pass.within
      (hchanged n (Nat.lt_succ_self n))
    rw [tableAfter_succ]
    exact Nat.lt_of_le_of_lt hbefore hlt

/-- A table has no more members than there are terminals it can hold, for
every set. -/
theorem card_members_le_of_mem {table : SetTable} {s : Finset ℕ}
    (hs : ∀ x t, t ∈ table.get x → t.index ∈ s) :
    (sys.members table).card ≤ sys.size * s.card := by
  have hsub : sys.members table ⊆ Finset.range sys.size ×ˢ s := by
    intro q hq
    have hmem := (mem_members (x := ⟨q.1⟩) (t := ⟨q.2⟩)).mp hq
    exact Finset.mem_product.mpr
      ⟨Finset.mem_range.mpr hmem.1.1, hs _ _ hmem.2⟩
  refine (Finset.card_le_card hsub).trans ?_
  rw [Finset.card_product, Finset.card_range]

/-- **No more passes change something** than there are places for members in
a solution. -/
theorem Solvable.le_of_changed (h : sys.Solvable start) (hf : sys.Closed f)
    (hstart : start.holds ≤ f) {s : Finset ℕ} (hs : ∀ x t, f x t → t.index ∈ s)
    (hchanged : ∀ k < n, (sys.pass (sys.tableAfter start k)).changed = true) :
    n ≤ sys.size * s.card :=
  (h.le_card_members hchanged).trans
    (card_members_le_of_mem fun x t ht => hs x t (tableAfter_below hf hstart n x t ht))

/-! ## What the solver does -/

/-- **The solver comes to an end.** The nonterminals `xs` have sets. In every
pass, from whatever sets it starts, visits take one course and end: the body of
every nonterminal is begun and ended once, there are never more bodies active
than nonterminals, and no set loses a member. A pass that changes something
enlarges a set. The passes go on as long as they change something, and there
are at most `bound` of them, the last one included, which leaves all sets as
they are. -/
structure Terminates (sys : SetSystem) (start : SetTable) (xs : List Nonterminal)
    (bound : Nat) : Prop where
  course : ∀ table, ∃ events, sys.Runs (.visits xs) ⟨table, [], false⟩ events (sys.pass table)
    ∧ (∀ events' q, sys.Runs (.visits xs) ⟨table, [], false⟩ events' q →
      events' = events ∧ q = sys.pass table)
    ∧ (begun events).Perm xs ∧ (ended events).Perm xs
    ∧ (∀ sofar, sofar.IsPrefix events → (active sofar).length ≤ xs.length)
    ∧ Rising table (tables events) (sys.pass table).table
  enlarged : ∀ m, (sys.pass (sys.tableAfter start m)).changed = true →
    ∃ x t, t ∈ (sys.tableAfter start (m + 1)).get x ∧ t ∉ (sys.tableAfter start m).get x
  passes : ∃ m, sys.solve start = ⟨sys.tableAfter start m, m + 1⟩
    ∧ (∀ k < m, (sys.pass (sys.tableAfter start k)).changed = true)
    ∧ (sys.pass (sys.tableAfter start m)).changed = false
    ∧ sys.tableAfter start (m + 1) = sys.tableAfter start m
    ∧ m + 1 ≤ bound

theorem Terminates.passes_le {xs : List Nonterminal} {bound : Nat}
    (h : sys.Terminates start xs bound) : (sys.solve start).passes ≤ bound := by
  obtain ⟨m, heq, -, -, -, hle⟩ := h.passes
  rwa [heq]

/-- **The solver comes to an end** when the inclusions name no other
nonterminals than those that have a set, and after no more passes than a
solution leaves room for. -/
theorem Solvable.terminates (h : sys.Solvable start) (hsys : sys.IsInternal)
    (hf : sys.Closed f) (hstart : start.holds ≤ f) {s : Finset ℕ}
    (hs : ∀ x t, f x t → t.index ∈ s) :
    sys.Terminates start sys.all (sys.size * s.card + 1) where
  course := fun table => by
    obtain ⟨events, hruns⟩ := exists_runs hsys table
    exact ⟨events, hruns, fun events' q h' => hruns.unique h', hruns.perm_begun_all hsys,
      hruns.perm_ended_all hsys, fun _ => hruns.length_active_le hsys, hruns.rising trivial⟩
  enlarged := fun n hchanged => by
    rw [tableAfter_succ]
    exact (h.tableAfter n).exists_enlarged hchanged
  passes := by
    have hbound : sys.size * sys.alphabet
        < (sys.members start).card + (sys.size * sys.alphabet + 1) := by omega
    obtain ⟨n, heq, hbefore, hlast⟩ := exists_iterate_eq h hbound 0
    rw [Nat.zero_add] at heq
    refine ⟨n, heq, hbefore, hlast, ?_,
      Nat.succ_le_succ (h.le_of_changed hf hstart hs hbefore)⟩
    rw [tableAfter_succ]
    exact ((sys.pass_extends _).unchanged hlast).2

end SetSystem

namespace Grammar

variable {g : Grammar} {u : List Symbol} {edge : Edge}

/-! ## The terminals that a set can hold -/

/-- The numbers below `n` but for the number of one terminal. -/
def indicesBut (a : Terminal) (n : Nat) : Finset ℕ := (Finset.range n).erase a.index

theorem mem_indicesBut {a t : Terminal} {n : Nat} :
    t.index ∈ indicesBut a n ↔ t.index < n ∧ t ≠ a := by
  rw [indicesBut, Finset.mem_erase, Finset.mem_range, and_comm, ne_eq, ne_eq, Terminal.mk.injEq]

theorem card_indicesBut {a : Terminal} {n : Nat} (ha : a.index < n) :
    (indicesBut a n).card = n - 1 := by
  rw [indicesBut, Finset.card_erase_of_mem (Finset.mem_range.mpr ha), Finset.card_range]

/-! ## The systems of a grammar -/

theorem isInternal_firstContribution (hu : ∀ s ∈ u, g.IsDeclared s) :
    (firstContribution u).IsInternal g.nonterminals.length := by
  induction u using firstContribution.induct with
  | case1 => trivial
  | case2 t rest => trivial
  | case3 x => exact hu (.nonterminal x) List.mem_cons_self
  | case4 x rest hne ih =>
    rw [firstContribution]
    · exact ⟨hu (.nonterminal x) List.mem_cons_self,
        ih fun s hs => hu s (List.mem_cons_of_mem _ hs)⟩
    · exact hne

theorem isInternal_edgeContribution (hu : ∀ s ∈ u, g.IsDeclared s) :
    (edgeContribution u).IsInternal g.nonterminals.length := by
  unfold edgeContribution
  split
  · trivial
  · trivial
  · next x => exact hu (.nonterminal x) List.mem_cons_self
  · trivial

namespace WellFormed

theorem isInternal_firstSystem (hg : g.WellFormed) : g.firstSystem.IsInternal := by
  intro x c hc
  obtain ⟨rhs, hrhs, rfl⟩ := List.mem_map.mp ((mem_of_iff rfl).mp hc).2
  rw [size_eq rfl]
  exact isInternal_firstContribution (hg.isRhs_of_mem (hg.mem_alternatives.mp hrhs)).declared

theorem isInternal_followSystem (hg : g.WellFormed) (first : SetTable) :
    (g.followSystem first).IsInternal := by
  intro x c hc
  obtain ⟨p, hp, hc⟩ := List.mem_flatMap.mp ((mem_of_iff rfl).mp hc).2
  obtain ⟨tail, -, hc⟩ := List.mem_flatMap.mp hc
  rw [size_eq rfl]
  simp only [followContributions] at hc
  split at hc
  · obtain rfl | rfl := List.mem_pair.mp hc
    · trivial
    · exact hg.lhs_lt_of_mem hp
  · rw [List.mem_singleton.mp hc]
    trivial

theorem isInternal_edgeSystem (hg : g.WellFormed) : (g.edgeSystem edge).IsInternal := by
  intro x c hc
  obtain ⟨rhs, hrhs, rfl⟩ := List.mem_map.mp ((mem_of_iff rfl).mp hc).2
  rw [size_eq rfl, Edge.contribution_eq]
  exact isInternal_edgeContribution fun s hs =>
    (hg.isRhs_of_mem (hg.mem_alternatives.mp hrhs)).declared s (Edge.mem_read.mp hs)

end WellFormed

theorem all_eq {sys : SetSystem} {contributions : Nonterminal → List Contribution}
    (h : sys.contributions = g.allNonterminals.map contributions) :
    sys.all = g.allNonterminals := by
  rw [SetSystem.all, size_eq h, allNonterminals]

namespace WellFormed

theorem terminates_firstSystem (hg : g.WellFormed) :
    g.firstSystem.Terminates (.blank g.nonterminals.length) g.allNonterminals
      (g.nonterminals.length * g.terminals.length + 1) := by
  have h := hg.solvable_firstSystem.terminates hg.isInternal_firstSystem
    (hg.closed_index_lt (Nat.le_refl _)) (SetTable.blank_le _ _)
    (s := Finset.range g.terminals.length) fun _ _ ht => Finset.mem_range.mpr ht
  rwa [all_eq rfl, size_eq rfl, Finset.card_range] at h

/-- FOLLOW holds declared terminals and the end-marker, but not the epsilon
terminal. -/
theorem terminates_followSystem (hg : g.WellFormed) :
    (g.followSystem g.solveFirst.table).Terminates g.followStart g.allNonterminals
      (g.nonterminals.length * g.terminals.length + 1) := by
  have hsolvable := hg.solvable_followSystem
  have hstart : g.followStart.holds ≤ g.Follows := by
    intro x t ht
    obtain ⟨rfl, rfl⟩ := hg.holds_followStart.mp ht
    exact Or.inr ⟨rfl, [], Derives.refl g _⟩
  -- the derivations rule the epsilon terminal out, the inclusions bound the numbers
  have hmem : ∀ x t, g.Follows x t ∧ t.index < g.terminals.length + 1 →
      t.index ∈ indicesBut g.epsilon (g.terminals.length + 1) := by
    rintro x t ⟨hfollows, hlt⟩
    refine mem_indicesBut.mpr ⟨hlt, fun he => ?_⟩
    subst he
    exact hg.not_follows_epsilon hfollows
  have h := hsolvable.terminates (hg.isInternal_followSystem _)
    (hg.closed_follows.and hsolvable.closed_lt)
    (fun x t ht => ⟨hstart x t ht, hsolvable.start_lt x t ht⟩) hmem
  rwa [all_eq rfl, size_eq rfl, card_indicesBut (Nat.lt_succ_of_lt hg.epsilon_lt),
    Nat.succ_sub_one] at h

/-- FIRSTVT and LASTVT hold declared terminals other than the epsilon
terminal. -/
theorem terminates_edgeSystem (hg : g.WellFormed) (hop : g.OperatorShaped) (edge : Edge) :
    (g.edgeSystem edge).Terminates (.blank g.nonterminals.length) g.allNonterminals
      (g.nonterminals.length * (g.terminals.length - 1) + 1) := by
  have hmem : ∀ t : Terminal, g.IsProper (.terminal t) →
      t.index ∈ indicesBut g.epsilon g.terminals.length :=
    fun t ht => mem_indicesBut.mpr ⟨ht.1, fun he => ht.2 (congrArg Symbol.terminal he)⟩
  have hsolvable : (g.edgeSystem edge).Solvable (.blank g.nonterminals.length) :=
    hg.solvable_edgeSystem
  have h := hsolvable.terminates hg.isInternal_edgeSystem
    (hg.closed_of_forall_mem fun _ hp _ hs => hop.isProper_of_mem hg hp hs)
    (SetTable.blank_le _ _) fun _ => hmem
  rwa [all_eq rfl, size_eq rfl, card_indicesBut hg.epsilon_lt] at h

end WellFormed

/-- **All sets are found, after a bounded number of passes**, whatever the
grammar is, cyclic and left recursive grammars included. -/
theorem passes_bounded (hg : g.Constructed) :
    let n := g.nonterminals.length
    let t := g.terminals.length
    g.firstSystem.Terminates (.blank n) g.allNonterminals (n * t + 1)
      ∧ (g.followSystem g.solveFirst.table).Terminates g.followStart g.allNonterminals (n * t + 1)
      ∧ (g.shapeFault? = none → ∀ edge : Edge,
        (g.edgeSystem edge).Terminates (.blank n) g.allNonterminals (n * (t - 1) + 1))
      ∧ g.solveFirst.passes ≤ n * t + 1
      ∧ (g.solveFollow g.solveFirst.table).passes ≤ n * t + 1
      ∧ (g.shapeFault? = none → ∀ edge : Edge, (g.solveEdge edge).passes ≤ n * (t - 1) + 1) := by
  intro n t
  have hwf := hg.wellFormed
  have hedge : g.shapeFault? = none → ∀ edge : Edge,
      (g.edgeSystem edge).Terminates (.blank n) g.allNonterminals (n * (t - 1) + 1) :=
    fun hshape => hwf.terminates_edgeSystem (shapeFault?_eq_none_iff.mp hshape)
  exact ⟨hwf.terminates_firstSystem, hwf.terminates_followSystem, hedge,
    hwf.terminates_firstSystem.passes_le, hwf.terminates_followSystem.passes_le,
    fun hshape edge => (hedge hshape edge).passes_le⟩

/-- In a grammar where `S` and `T` derive each other and `U` derives itself, a
pass for FIRSTVT begins the body of each once, and there are at most seven
passes. -/
theorem passes_bounded_unitCycles : unitCycles.Constructed ∧ unitCycles.shapeFault? = none
    ∧ (∃ events, (unitCycles.edgeSystem .first).Runs (.visits [⟨0⟩, ⟨1⟩, ⟨2⟩])
        ⟨.blank 3, [], false⟩ events ((unitCycles.edgeSystem .first).pass (.blank 3))
      ∧ (SetSystem.begun events).Perm [⟨0⟩, ⟨1⟩, ⟨2⟩])
    ∧ (unitCycles.solveEdge .first).passes ≤ 7 := by
  have hshape : unitCycles.shapeFault? = none := by decide +kernel
  obtain ⟨-, -, hedge, -, -, hpasses⟩ := passes_bounded constructed_unitCycles
  obtain ⟨events, hruns, -, hbegun, -⟩ := (hedge hshape .first).course (.blank 3)
  exact ⟨constructed_unitCycles, hshape, ⟨events, hruns, hbegun⟩, hpasses hshape .first⟩

end Grammar

end GrammarAnalysis
