import GrammarAnalysis.Proofs.Automaton
import GrammarAnalysis.Proofs.SelectSets

/-!
# Descents end

An expansion reads nothing and may lengthen the stack, so nothing about
the stack alone says that a descent ends. What says it is that the table
is the one of the SELECT sets and has one production in a cell.

A lookahead in FIRST of a nonterminal is there for a reason that comes
to an end: FIRST is the *least* solution of its inclusions. The table
holds, for that nonterminal and lookahead, the production that the
reason begins with, for it holds no other. So the family of what is in
FIRST and is *resolved* by descents is a solution too
(`closed_resolves`), and all of FIRST is resolved: an expansion uncovers
the lookahead, or vanishes where the lookahead follows. FOLLOW enters
only through its inclusions. Left recursion, unit cycles and
nonterminals that derive nothing need no attention; they have no cell,
or they have conflicts.

That descents come to an end at some depth is then brought down to the
depth the parser grants. The nonterminals whose expansion ends at a
depth are more at every depth, or the same from there on
(`Nat.stabilises_of_monotone`), so all of them end at a depth of the
number of nonterminals.
-/

namespace GrammarAnalysis.PredictiveParser

variable {p : PredictiveParser} {g : Grammar} {c t : Terminal} {x : Nonterminal}
  {s : List Symbol} {d : Descent}

/-! ## Descents at some depth -/

/-- **A descent settles** at `d` when it comes to `d` at every depth from
some depth on. -/
def Settles (p : PredictiveParser) (c : Terminal) (s : List Symbol) (d : Descent) : Prop :=
  ∃ least, ∀ depth, least ≤ depth → (descendBy (p.expand c depth) s).2 = d

/-- Whether all of a stack is replaced by nothing. -/
def Vanishes (p : PredictiveParser) (c : Terminal) (s : List Symbol) : Prop :=
  p.Settles c s .vanished

/-- Whether the lookahead comes to the top of a stack. -/
def Uncovers (p : PredictiveParser) (c : Terminal) (s : List Symbol) : Prop :=
  ∃ left, p.Settles c s (.reached c left)

theorem descendBy_singleton (f : Nonterminal → List ParseStep × Descent) (x : Nonterminal) :
    (descendBy f [.nonterminal x]).2 = (f x).2 := by
  cases hd : (f x).2 with
  | vanished =>
    rw [descendBy_of_vanished hd]
    rfl
  | reached t left => rw [descendBy_of_reached hd, List.append_nil]
  | blocked y => rw [descendBy_of_blocked hd]
  | endless y => rw [descendBy_of_endless hd]

theorem vanishes_nil : p.Vanishes c [] :=
  ⟨0, fun _ _ => rfl⟩

theorem uncovers_terminal : p.Uncovers c (.terminal c :: s) :=
  ⟨s, 0, fun _ _ => rfl⟩

/-- A nonterminal that vanishes uncovers what is below it. -/
theorem Settles.cons (hx : p.Vanishes c [.nonterminal x]) (h : p.Settles c s d) :
    p.Settles c (.nonterminal x :: s) d := by
  obtain ⟨m, hm⟩ := hx
  obtain ⟨n, hn⟩ := h
  refine ⟨max m n, fun depth hdepth => ?_⟩
  have hvanished := hm depth (Nat.le_trans (Nat.le_max_left m n) hdepth)
  rw [descendBy_singleton] at hvanished
  rw [descendBy_of_vanished hvanished]
  exact hn depth (Nat.le_trans (Nat.le_max_right m n) hdepth)

theorem Uncovers.cons (hx : p.Uncovers c [.nonterminal x]) (s : List Symbol) :
    p.Uncovers c (.nonterminal x :: s) := by
  obtain ⟨left, m, hm⟩ := hx
  refine ⟨left ++ s, m, fun depth hdepth => ?_⟩
  have hreached := hm depth hdepth
  rw [descendBy_singleton] at hreached
  rw [descendBy_of_reached hreached]

/-- A nonterminal comes to what its expansion comes to. -/
theorem settles_of_get? {n : Nat} (hget : p.table.get? x c = some n)
    (h : p.Settles c (p.expansionAt n) d) : p.Settles c [.nonterminal x] d := by
  obtain ⟨m, hm⟩ := h
  refine ⟨m + 1, fun depth hdepth => ?_⟩
  obtain ⟨depth, rfl⟩ : ∃ k, depth = k + 1 := ⟨depth - 1, by omega⟩
  rw [descendBy_singleton, expand, hget]
  exact hm depth (Nat.le_of_succ_le_succ hdepth)

theorem settles_of_get?_none (hget : p.table.get? x c = none) :
    p.Settles c [.nonterminal x] (.blocked x) := by
  refine ⟨1, fun depth hdepth => ?_⟩
  obtain ⟨depth, rfl⟩ : ∃ k, depth = k + 1 := ⟨depth - 1, by omega⟩
  rw [descendBy_singleton, expand, hget]

/-! ## FIRST is resolved by descents -/

/-- **What is in FIRST and is resolved by descents**: a terminal is
uncovered under itself as lookahead, and epsilon stands for a nonterminal
that vanishes under whatever follows it. -/
def Resolves (p : PredictiveParser) (g : Grammar) : Family := fun x t =>
  t ∈ g.solveFirst.table.get x
    ∧ (t ≠ g.epsilon → p.Uncovers t [.nonterminal x])
    ∧ (t = g.epsilon → ∀ c ∈ (g.solveFollow g.solveFirst.table).table.get x,
        p.Vanishes c [.nonterminal x])

theorem resolves_le : p.Resolves g ≤ g.solveFirst.table.holds := fun _ _ h => h.1

/-- A part of a right-hand side that may vanish vanishes under whatever
follows the left-hand side. -/
theorem vanishes_of_leads {lhs : Nonterminal} (hε : .terminal g.epsilon ∉ s)
    (hfollow : g.Agrees g.solveFirst.table (g.solveFollow g.solveFirst.table).table.holds lhs s)
    (hc : c ∈ (g.solveFollow g.solveFirst.table).table.get lhs)
    (h : Leads g.epsilon (p.Resolves g) s g.epsilon) : p.Vanishes c s := by
  induction s with
  | nil => exact vanishes_nil
  | cons y s ih =>
    rw [List.mem_cons, not_or] at hε
    cases y with
    | terminal a => exact absurd (by rw [leads_terminal.mp h]) hε.1
    | nonterminal x =>
      obtain ⟨-, hne⟩ | ⟨hx, h⟩ := leads_nonterminal.mp h
      · exact absurd rfl hne
      · have hcx := (hfollow [] x s rfl).2 (h.mono resolves_le) c hc
        exact (ih hε.2 hfollow.tail h).cons (hx.2.2 rfl c hcx)

/-- A part of a right-hand side that is led by a terminal comes down to
it. -/
theorem uncovers_of_leads {lhs : Nonterminal} (ht : t ≠ g.epsilon)
    (hfollow : g.Agrees g.solveFirst.table (g.solveFollow g.solveFirst.table).table.holds lhs s)
    (h : Leads g.epsilon (p.Resolves g) s t) : p.Uncovers t s := by
  induction s with
  | nil => exact absurd h ht
  | cons y s ih =>
    cases y with
    | terminal a =>
      rw [leads_terminal.mp h]
      exact uncovers_terminal
    | nonterminal x =>
      obtain ⟨hx, -⟩ | ⟨hx, h⟩ := leads_nonterminal.mp h
      · exact (hx.2.1 ht).cons s
      · -- the nonterminal vanishes, for the lookahead follows it
        have htx := (hfollow [] x s rfl).1 t (h.mono resolves_le) ht
        obtain ⟨left, hleft⟩ := ih hfollow.tail h
        exact ⟨left, hleft.cons (hx.2.2 rfl t htx)⟩

namespace IsFor

theorem expansionAt_eq (hp : p.IsFor g) {n : Nat} {q : Production}
    (hq : g.productions[n]? = some q) : p.expansionAt n = g.expansion q.rhs := by
  rw [expansionAt, hp.grammar_eq, hq, Option.map_some, Option.getD_some]

/-- **What is resolved is a solution of the inclusions of FIRST.** -/
theorem closed_resolves (hp : p.IsFor g) : g.firstSystem.Closed (p.Resolves g) := by
  have hg := hp.wellFormed
  refine hg.closed_firstSystem_iff.mpr (fun q hq t ht => ?_)
  have hrhs := hg.isRhs_of_mem hq
  have hfirst := ht.mono resolves_le
  have hfollow := hg.closed_followSystem_iff.mp hg.closed_solveFollow q hq
  obtain ⟨n, hn⟩ := List.mem_iff_getElem?.mp hq
  -- the table holds this production wherever it is selected
  have hget : ∀ c, c ∈ g.select q → p.table.get? q.lhs c = some n :=
    fun c hc => hp.get?.mpr ⟨q, hn, rfl, hc⟩
  refine ⟨hg.closed_firstSystem_iff.mp hg.closed_solveFirst q hq t hfirst, fun hne => ?_,
    fun he c hc => ?_⟩
  · obtain ⟨hrhs', -⟩ | ⟨-, hself⟩ := hrhs.expansion_cases
    · rw [hrhs', leads_terminal] at hfirst
      exact absurd hfirst hne
    · obtain ⟨left, hleft⟩ := uncovers_of_leads hne hfollow ht
      refine ⟨left, settles_of_get? (hget t (Grammar.mem_selectOf.mpr (Or.inl ⟨hne, hfirst⟩))) ?_⟩
      rwa [hp.expansionAt_eq hn, hself]
  · subst he
    refine settles_of_get? (hget c (Grammar.mem_selectOf.mpr (Or.inr ⟨hfirst, hc⟩))) ?_
    rw [hp.expansionAt_eq hn]
    obtain ⟨-, hnil⟩ | ⟨hε, hself⟩ := hrhs.expansion_cases
    · rw [hnil]
      exact vanishes_nil
    · rw [hself]
      exact vanishes_of_leads hε hfollow hc ht

/-- **Every expansion settles**: the table is empty in the cell, or the
nonterminal vanishes, or it uncovers the lookahead. -/
theorem settles_nonterminal (hp : p.IsFor g) (c : Terminal) (x : Nonterminal) :
    p.Settles c [.nonterminal x] (.blocked x) ∨ p.Vanishes c [.nonterminal x]
      ∨ p.Uncovers c [.nonterminal x] := by
  have hg := hp.wellFormed
  cases hget : p.table.get? x c with
  | none => exact Or.inl (settles_of_get?_none hget)
  | some n =>
    obtain ⟨q, hq, rfl, hc⟩ := hp.get?.mp hget
    have hfirst : ∀ t, Leads g.epsilon g.solveFirst.table.holds q.rhs t → p.Resolves g q.lhs t :=
      fun t ht => hg.solveFirst_le hp.closed_resolves q.lhs t
        (hg.closed_firstSystem_iff.mp hg.closed_solveFirst q (List.mem_of_getElem? hq) t ht)
    obtain ⟨hne, ht⟩ | ⟨he, hc⟩ := Grammar.mem_selectOf.mp hc
    · exact Or.inr (Or.inr ((hfirst c ht).2.1 hne))
    · exact Or.inr (Or.inl ((hfirst g.epsilon he).2.2 rfl c hc))

end IsFor

/-! ## The depth of descents -/

/-- Two ways to expand that agree where the first one ends lead to the
same descents where these end. -/
theorem descendBy_congr {f f' : Nonterminal → List ParseStep × Descent}
    (h : ∀ x, .nonterminal x ∈ s → (f x).2.Ends → f' x = f x)
    (hends : (descendBy f s).2.Ends) : descendBy f' s = descendBy f s := by
  induction s with
  | nil => rfl
  | cons y s ih =>
    cases y with
    | terminal a => rfl
    | nonterminal x =>
      have hx := h x List.mem_cons_self
      have ih := ih (fun x hmem => h x (List.mem_cons_of_mem _ hmem))
      cases hd : (f x).2 with
      | vanished =>
        have hfx := hx (hd ▸ Descent.ends_vanished)
        rw [descendBy_of_vanished hd] at hends
        rw [descendBy_of_vanished hd, descendBy_of_vanished (hfx ▸ hd), hfx, ih hends]
      | reached t left =>
        have hfx := hx (hd ▸ Descent.ends_reached t left)
        rw [descendBy_of_reached hd, descendBy_of_reached (hfx ▸ hd), hfx]
      | blocked y =>
        have hfx := hx (hd ▸ Descent.ends_blocked y)
        rw [descendBy_of_blocked hd, descendBy_of_blocked (hfx ▸ hd), hfx]
      | endless y =>
        rw [descendBy_of_endless hd] at hends
        exact absurd hends (Descent.not_ends_endless y)

/-- A descent ends if every nonterminal ends. -/
theorem ends_descendBy {f : Nonterminal → List ParseStep × Descent}
    (h : ∀ x, (f x).2.Ends) (s : List Symbol) : (descendBy f s).2.Ends := by
  induction s with
  | nil => exact Descent.ends_vanished
  | cons y s ih =>
    cases y with
    | terminal a => exact Descent.ends_reached a s
    | nonterminal x =>
      cases hd : (f x).2 with
      | vanished =>
        rw [descendBy_of_vanished hd]
        exact ih
      | reached t left =>
        rw [descendBy_of_reached hd]
        exact Descent.ends_reached t _
      | blocked y =>
        rw [descendBy_of_blocked hd]
        exact Descent.ends_blocked y
      | endless y => exact absurd (hd ▸ h x) (Descent.not_ends_endless y)

/-- An expansion that ends at a depth is the same at the next depth. -/
theorem expand_succ {depth : Nat} (h : (p.expand c depth x).2.Ends) :
    p.expand c (depth + 1) x = p.expand c depth x := by
  induction depth generalizing x with
  | zero => exact absurd h (Descent.not_ends_endless x)
  | succ depth ih =>
    rw [expand] at h ⊢
    rw [expand]
    cases hget : p.table.get? x c with
    | none => rfl
    | some n =>
      rw [hget] at h
      simp only
      rw [descendBy_congr (fun _ _ hx => ih hx) h]

/-- The declared nonterminals whose expansion ends at a depth. -/
def ending (p : PredictiveParser) (c : Terminal) (depth : Nat) : Finset Nat :=
  (Finset.range p.grammar.nonterminals.length).filter (fun i => (p.expand c depth ⟨i⟩).2.Ends)

theorem mem_ending {depth i : Nat} : i ∈ p.ending c depth ↔
    i < p.grammar.nonterminals.length ∧ (p.expand c depth ⟨i⟩).2.Ends := by
  rw [ending, Finset.mem_filter, Finset.mem_range]

theorem ending_mono : Monotone (p.ending c) := by
  refine monotone_nat_of_le_succ (fun depth i hi => ?_)
  obtain ⟨hlt, hends⟩ := mem_ending.mp hi
  exact mem_ending.mpr ⟨hlt, (expand_succ hends).symm ▸ hends⟩

/-- Nonterminals that stay the same over one depth stay the same over
the next one. -/
theorem IsFor.ending_stable (hp : p.IsFor g) {depth : Nat}
    (h : p.ending c depth = p.ending c (depth + 1)) :
    p.ending c (depth + 1) = p.ending c (depth + 2) := by
  refine Finset.Subset.antisymm (ending_mono (Nat.le_succ _)) (fun i hi => ?_)
  obtain ⟨hlt, hends⟩ := mem_ending.mp hi
  refine mem_ending.mpr ⟨hlt, ?_⟩
  rw [expand] at hends ⊢
  cases hget : p.table.get? ⟨i⟩ c with
  | none => exact Descent.ends_blocked _
  | some n =>
    rw [hget] at hends
    simp only at hends ⊢
    obtain ⟨q, hq, -, -⟩ := hp.get?.mp hget
    have hrhs := hp.wellFormed.isRhs_of_mem (List.mem_of_getElem? hq)
    rw [descendBy_congr (fun y hy hends => ?_) hends]
    · exact hends
    · rw [hp.expansionAt_eq hq] at hy
      have hlt : y.index < g.nonterminals.length := hrhs.declared_expansion hy
      have hmem : y.index ∈ p.ending c (depth + 1) :=
        mem_ending.mpr ⟨hp.grammar_eq ▸ hlt, hends⟩
      exact (expand_succ (mem_ending.mp (h ▸ hmem)).2).symm

namespace IsFor

/-- At some depth, every expansion ends. -/
theorem exists_ends_expand (hp : p.IsFor g) (c : Terminal) (x : Nonterminal) :
    ∃ least, ∀ depth, least ≤ depth → (p.expand c depth x).2.Ends := by
  obtain ⟨d, ⟨least, hd⟩, hends⟩ : ∃ d, p.Settles c [.nonterminal x] d ∧ d.Ends := by
    obtain h | h | ⟨left, h⟩ := hp.settles_nonterminal c x
    · exact ⟨_, h, Descent.ends_blocked x⟩
    · exact ⟨_, h, Descent.ends_vanished⟩
    · exact ⟨_, h, Descent.ends_reached c left⟩
  refine ⟨least, fun depth hdepth => ?_⟩
  rw [← descendBy_singleton, hd depth hdepth]
  exact hends

/-- **Every expansion ends at the depth the parser grants.** -/
theorem ends_expand (hp : p.IsFor g) (c : Terminal) (x : Nonterminal) :
    (p.expand c p.grammar.nonterminals.length x).2.Ends := by
  by_cases hx : x.index < p.grammar.nonterminals.length
  · obtain ⟨least, hleast⟩ := hp.exists_ends_expand c x
    have hcard : ∀ depth, (p.ending c depth).card ≤ p.grammar.nonterminals.length := fun depth =>
      (Finset.card_filter_le _ _).trans (Finset.card_range _).le
    have hstable : ∀ depth, (p.ending c depth).card = (p.ending c (depth + 1)).card →
        (p.ending c (depth + 1)).card = (p.ending c (depth + 2)).card := fun depth h =>
      congrArg Finset.card (hp.ending_stable
        (Finset.eq_of_subset_of_card_le (ending_mono (Nat.le_succ depth)) h.ge))
    have hlast := Nat.stabilises_of_monotone
      (fun m n hmn => Finset.card_le_card (ending_mono hmn)) hcard hstable
      (Nat.le_max_right least p.grammar.nonterminals.length)
    have hmem : x.index ∈ p.ending c (max least p.grammar.nonterminals.length) :=
      mem_ending.mpr ⟨hx, hleast _ (Nat.le_max_left _ _)⟩
    rw [← Finset.eq_of_subset_of_card_le (ending_mono (Nat.le_max_right _ _)) hlast.le] at hmem
    exact (mem_ending.mp hmem).2
  · -- the table has no cell for a nonterminal that is not declared
    have hget : p.table.get? x c = none := by
      rw [Option.eq_none_iff_forall_ne_some]
      intro n hn
      obtain ⟨q, hq, rfl, -⟩ := hp.get?.mp hn
      rw [hp.grammar_eq] at hx
      exact hx (hp.wellFormed.lhs_lt_of_mem (List.mem_of_getElem? hq))
    have hpos : 0 < p.grammar.nonterminals.length := by
      rw [hp.grammar_eq]
      exact Nat.zero_lt_of_lt hp.wellFormed.start_declared
    rw [← Nat.succ_pred_eq_of_pos hpos, Nat.succ_eq_add_one, expand, hget]
    exact Descent.ends_blocked x

/-- **Every descent ends.** -/
theorem ends_descend (hp : p.IsFor g) (c : Terminal) (s : List Symbol) :
    (p.descend c s).2.Ends :=
  ends_descendBy (hp.ends_expand c) s

/-- No production puts the end-marker on the stack. -/
theorem keepsEndMarker (hp : p.IsFor g) : p.KeepsEndMarker := by
  intro n hmem
  unfold expansionAt at hmem
  rw [hp.grammar_eq] at hmem
  cases hq : g.productions[n]? with
  | none => simp [hq] at hmem
  | some q =>
    rw [hq, Option.map_some, Option.getD_some] at hmem
    have hrhs := hp.wellFormed.isRhs_of_mem (List.mem_of_getElem? hq)
    exact Grammar.ne_endMarker (hrhs.declared_expansion hmem) rfl

/-- The loop returns, and it returns what the parser returns. -/
theorem exists_loop_eq_run (hp : p.IsFor g) {input : List String} {c₀ : Configuration}
    (h : p.initial input = .ok c₀) : ∃ limit, p.loop limit c₀ = some (p.run input) :=
  loop_eq_run hp.keepsEndMarker hp.ends_descend h

/-- The depth that the parser grants is never used up. -/
theorem parse_ne_endlessExpansion (hp : p.IsFor g) (input : List String) (x found : String)
    (position : Nat) : p.parse input ≠ .error ⟨.endlessExpansion x found, position⟩ := by
  intro h
  have herror := result_eq_error.mp h
  cases hc₀ : p.initial input with
  | error e =>
    rw [run_of_initial_error hc₀] at herror
    exact read_ne_endlessExpansion (initial_eq_error.mp hc₀) x found position
      (Option.some.inj herror)
  | ok c₀ =>
    obtain ⟨limit, hrun⟩ := hp.exists_loop_eq_run hc₀
    obtain ⟨steps, c', last, -, hlast, heq⟩ := exists_of_loop_eq_some hrun
    rw [heq] at herror
    exact error?_ne_endlessExpansion hlast x found position herror

end IsFor

/-! ## The loop ends -/

/-- **The automaton never loops.** In every constructed grammar without
conflicts, and on every input, the loop returns what the parser returns,
after finitely many turns, so that between two reads there are only
finitely many expansions. In every configuration it passes through, the
end-marker is at the bottom of the stack and nowhere else, and the loop
is never left with an empty stack. An input without a first symbol fails
before the first turn. -/
theorem automaton_terminates (hg : g.Constructed)
    (hp : ofAnalysis (LookaheadAnalysis.ofGrammar g) = .ok p) (input : List String) :
    (∀ e, p.initial input = .error e → p.run input = ⟨[], some e⟩)
      ∧ (∀ c₀, p.initial input = .ok c₀ →
        (∃ limit, p.loop limit c₀ = some (p.run input)
          ∧ ∀ steps c more c', p.Reaches c₀ steps c → p.Reaches c more c' →
            steps.length + more.length < limit)
        ∧ ∀ steps c, p.Reaches c₀ steps c →
          (∃ above, c.stack = above ++ [.terminal g.endMarker] ∧ .terminal g.endMarker ∉ above)
            ∧ p.turn c ≠ .leaves)
      ∧ ∀ x found position, p.parse input ≠ .error ⟨.endlessExpansion x found, position⟩ := by
  have hfor := isFor_of_ofAnalysis hg.wellFormed hp
  refine ⟨fun e he => run_of_initial_error he, fun c₀ hc₀ => ⟨?_, fun steps c hr => ?_⟩,
    hfor.parse_ne_endlessExpansion input⟩
  · obtain ⟨limit, hrun⟩ := hfor.exists_loop_eq_run hc₀
    refine ⟨limit, hrun, fun steps c more c' hr hr' => ?_⟩
    rw [← List.length_append]
    exact (hr.trans hr').length_lt hrun
  · have hanch := anchored_of_reaches hfor.keepsEndMarker (anchored_of_initial hc₀) hr
    refine ⟨?_, turn_ne_leaves hanch⟩
    rw [hfor.grammar_eq] at hanch
    exact hanch

/-- In the grammar of brackets, whose nonterminal `L` is replaced by
itself, the loop returns on `()#`. -/
theorem automaton_terminates_brackets :
    Grammar.brackets.Constructed ∧ ∃ p c₀,
      ofAnalysis (LookaheadAnalysis.ofGrammar Grammar.brackets) = .ok p
        ∧ p.initial ["(", ")", "#"] = .ok c₀
        ∧ ∃ limit, p.loop limit c₀ = some (p.run ["(", ")", "#"]) := by
  obtain ⟨p, hp⟩ := (exists_ofAnalysis_iff (LookaheadAnalysis.ofGrammar Grammar.brackets)).mpr
    (by decide +kernel)
  have hinitial : p.initial ["(", ")", "#"]
      = .ok ⟨[.nonterminal ⟨0⟩, .terminal ⟨3⟩], ⟨0⟩, [")", "#"], 0⟩ := by
    obtain ⟨-, rfl⟩ := eq_of_ofAnalysis hp
    rfl
  obtain ⟨-, hloop, -⟩ :=
    automaton_terminates Grammar.constructed_brackets hp ["(", ")", "#"]
  obtain ⟨⟨limit, hrun, -⟩, -⟩ := hloop _ hinitial
  exact ⟨Grammar.constructed_brackets, p, _, hp, hinitial, limit, hrun⟩

end GrammarAnalysis.PredictiveParser
