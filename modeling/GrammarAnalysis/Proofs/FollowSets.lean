import GrammarAnalysis.Proofs.FirstSets

/-!
# FOLLOW is what can follow

The inclusions of FOLLOW speak of single right-hand sides: an occurrence
of a nonterminal is followed by what leads the symbols after it, and by
what follows the left-hand side if these symbols may vanish
(`WellFormed.closed_followSystem_iff`). The sentential forms in which a
nonterminal is followed by a terminal are reached through any number of
right-hand sides.

Both directions rest on leastness. The terminals that follow a
nonterminal in sentential forms are a solution, so FOLLOW holds no
others. In any solution, all occurrences in a sentential form agree with
what stands after them (`Agrees`); a derivation step keeps this, wherever
the occurrence is and whatever is replaced, so FOLLOW holds all of them.

The sentential forms are those of any nonterminal, whether the start
symbol reaches it or not. Only the end-marker is about the start symbol.
-/

namespace GrammarAnalysis

/-! ## Occurrences -/

theorem mem_tailsAfter {x : Nonterminal} {tail u : List Symbol} :
    tail ∈ tailsAfter x u ↔ ∃ before, u = before ++ .nonterminal x :: tail := by
  induction u with
  | nil => simp [tailsAfter]
  | cons s u ih =>
    rw [tailsAfter]
    have hlater : (∃ before, s :: u = before ++ .nonterminal x :: tail) ↔
        (s = .nonterminal x ∧ tail = u) ∨ ∃ before, u = before ++ .nonterminal x :: tail := by
      constructor
      · rintro ⟨before, h⟩
        obtain ⟨-, h⟩ | ⟨before, -, h⟩ := List.cons_eq_append_iff.mp h
        · exact Or.inl ⟨(List.cons.inj h).1.symm, (List.cons.inj h).2⟩
        · exact Or.inr ⟨before, h⟩
      · rintro (⟨rfl, rfl⟩ | ⟨before, rfl⟩)
        · exact ⟨[], rfl⟩
        · exact ⟨s :: before, rfl⟩
    rw [hlater, ← ih]
    split
    · next hs => simp [hs]
    · next hs => simp [hs]

variable {epsilon : Terminal} {table : SetTable} {f : Family} {t : Terminal}

/-- What an occurrence contributes: what leads the symbols after it, and
what follows the left-hand side if these may vanish. -/
theorem yields_followContributions {lhs : Nonterminal} {tail : List Symbol} :
    (∃ c ∈ followContributions epsilon table lhs tail, c.Yields epsilon f t) ↔
      (Leads epsilon table.holds tail t ∧ t ≠ epsilon)
        ∨ (Leads epsilon table.holds tail epsilon ∧ f lhs t) := by
  rw [followContributions, ← mem_firstOf, ← mem_firstOf]
  split
  · next he => simp [he]
  · next he =>
    have hne : t ∈ firstOf epsilon table tail → t ≠ epsilon := fun ht h => he (h ▸ ht)
    simp only [List.mem_singleton, exists_eq_left, Contribution.yields_known]
    exact ⟨fun ht => Or.inl ⟨ht, hne ht⟩, fun h => h.elim And.left (fun h => absurd h.1 he)⟩

namespace Grammar

variable {g : Grammar} {u v w : List Symbol} {x : Nonterminal}

/-! ## The inclusions of FOLLOW -/

/-- **An occurrence agrees with a family**: the nonterminal is followed
by what leads the symbols after it, and by what follows `owner` if these
may vanish. -/
def AgreesAt (g : Grammar) (first : SetTable) (f : Family) (owner x : Nonterminal)
    (after : List Symbol) : Prop :=
  (∀ t, Leads g.epsilon first.holds after t → t ≠ g.epsilon → f x t)
    ∧ (Leads g.epsilon first.holds after g.epsilon → ∀ t, f owner t → f x t)

theorem agreesAt_iff {first : SetTable} {owner : Nonterminal} {after : List Symbol} :
    g.AgreesAt first f owner x after ↔
      ∀ t, (∃ c ∈ followContributions g.epsilon first owner after, c.Yields g.epsilon f t) →
        f x t := by
  simp only [yields_followContributions]
  constructor
  · rintro ⟨hlead, hvanish⟩ t (⟨ht, hne⟩ | ⟨he, ht⟩)
    · exact hlead t ht hne
    · exact hvanish he t ht
  · intro h
    exact ⟨fun t ht hne => h t (Or.inl ⟨ht, hne⟩), fun he t ht => h t (Or.inr ⟨he, ht⟩)⟩

/-- An occurrence that agrees for its left-hand side agrees wherever the
left-hand side does. -/
theorem AgreesAt.append {first : SetTable} {owner lhs : Nonterminal} {m right : List Symbol}
    (hm : .terminal g.epsilon ∉ m) (hin : g.AgreesAt first f lhs x m)
    (hout : g.AgreesAt first f owner lhs right) : g.AgreesAt first f owner x (m ++ right) := by
  constructor
  · intro t ht hne
    obtain ⟨ht, -⟩ | ⟨he, ht⟩ := (leads_append hm).mp ht
    · exact hin.1 t ht hne
    · exact hin.2 he t (hout.1 t ht hne)
  · intro he t ht
    obtain ⟨-, h⟩ | ⟨he, hright⟩ := (leads_append hm).mp he
    · exact absurd rfl h
    · exact hin.2 he t (hout.2 hright t ht)

/-- Whether all occurrences in a string agree with a family. -/
def Agrees (g : Grammar) (first : SetTable) (f : Family) (owner : Nonterminal)
    (u : List Symbol) : Prop :=
  ∀ before x after, u = before ++ .nonterminal x :: after → g.AgreesAt first f owner x after

theorem Agrees.tail {first : SetTable} {owner : Nonterminal} {s : Symbol}
    (h : g.Agrees first f owner (s :: u)) : g.Agrees first f owner u :=
  fun before x after hu => h (s :: before) x after (congrArg (s :: ·) hu)

/-- **The inclusions of FOLLOW**: all occurrences in a right-hand side
agree with the family, and the left-hand side stands for what is
outside. -/
theorem WellFormed.closed_followSystem_iff (hg : g.WellFormed) {first : SetTable} :
    (g.followSystem first).Closed f ↔ ∀ p ∈ g.productions, g.Agrees first f p.lhs p.rhs := by
  constructor
  · intro h p hp before x after hrhs
    have hx : x.index < g.nonterminals.length :=
      (hg.isRhs_of_mem hp).declared (.nonterminal x) (by simp [hrhs])
    refine agreesAt_iff.mpr (fun t ⟨c, hc, ht⟩ => ?_)
    refine h x c ((mem_of_iff rfl).mpr ⟨hx, ?_⟩) t ht
    exact List.mem_flatMap.mpr ⟨p, hp,
      List.mem_flatMap.mpr ⟨after, mem_tailsAfter.mpr ⟨before, hrhs⟩, hc⟩⟩
  · intro h x c hc t ht
    obtain ⟨p, hp, hc⟩ := List.mem_flatMap.mp ((mem_of_iff rfl).mp hc).2
    obtain ⟨after, hafter, hc⟩ := List.mem_flatMap.mp hc
    obtain ⟨before, hrhs⟩ := mem_tailsAfter.mp hafter
    exact agreesAt_iff.mp (h p hp before x after hrhs) t ⟨c, hc, ht⟩

/-- **A derivation step keeps agreement.** The occurrence may stand
before, in, or after what the step puts in. -/
theorem Agrees.step (hg : g.WellFormed) {first : SetTable}
    (hfirst : g.firstSystem.Closed first.holds) (hf : (g.followSystem first).Closed f)
    {owner : Nonterminal} (hu : g.Agrees first f owner u) (h : g.Step u v) :
    g.Agrees first f owner v := by
  cases h with
  | @expand p hp left right =>
    have hrhs := hg.isRhs_of_mem hp
    intro before x after hocc
    obtain ⟨l, hl, rfl⟩ | ⟨l, -, hocc⟩ := append_eq_append_cons hocc
    · -- before: the nonterminal that is replaced stood after the occurrence
      have hold := hu before x (l ++ .nonterminal p.lhs :: right) (by rw [hl]; simp)
      have hstep := Step.expand hp l right
      exact ⟨fun t ht => hold.1 t (hstep.leads hg hfirst ht),
        fun he => hold.2 (hstep.leads hg hfirst he)⟩
    obtain ⟨m, hm, rfl⟩ | ⟨m, rfl, rfl⟩ := append_eq_append_cons hocc
    · -- in: what follows the left-hand side follows the occurrence
      have hself : g.expansion p.rhs = p.rhs := by
        obtain ⟨-, hnil⟩ | ⟨-, hself⟩ := hrhs.expansion_cases
        · rw [hnil] at hm
          exact absurd hm.symm (by simp)
        · exact hself
      have hε : .terminal g.epsilon ∉ m := fun h => hrhs.epsilon_notMem_expansion (by simp [hm, h])
      have hin := hg.closed_followSystem_iff.mp hf p hp l x m (hself ▸ hm)
      exact hin.append hε (hu left p.lhs right rfl)
    · -- after: nothing has changed behind the occurrence
      exact hu (left ++ .nonterminal p.lhs :: m) x after (by simp)

theorem Agrees.of_derives (hg : g.WellFormed) {first : SetTable}
    (hfirst : g.firstSystem.Closed first.holds) (hf : (g.followSystem first).Closed f)
    {owner : Nonterminal} (hu : g.Agrees first f owner u) (h : g.Derives u v) :
    g.Agrees first f owner v := by
  induction h with
  | refl => exact hu
  | tail _ hstep ih => exact ih.step hg hfirst hf hstep

/-- A nonterminal that stands alone is followed by what follows it. -/
theorem agrees_singleton (g : Grammar) (first : SetTable) (f : Family) (x : Nonterminal) :
    g.Agrees first f x [.nonterminal x] := by
  intro before y after h
  obtain ⟨rfl, hy, rfl⟩ := singleton_eq_append_cons_iff.mp h
  obtain rfl := Symbol.nonterminal.inj hy
  exact ⟨fun t ht hne => absurd ht hne, fun _ t ht => ht⟩

/-! ## What follows in sentential forms -/

/-- **What follows a nonterminal in sentential forms**: a terminal, in
some form of any declared nonterminal; or the end-marker, if a form of
the start symbol ends with the nonterminal. -/
def Follows (g : Grammar) (x : Nonterminal) (t : Terminal) : Prop :=
  (t ≠ g.endMarker ∧ ∃ y : Nonterminal, y.index < g.nonterminals.length ∧ ∃ before after,
      g.Derives [.nonterminal y] (before ++ .nonterminal x :: .terminal t :: after))
    ∨ (t = g.endMarker ∧ ∃ before, g.Derives [.nonterminal g.start] (before ++ [.nonterminal x]))

/-- What follows in sentential forms is a solution. -/
theorem WellFormed.closed_follows (hg : g.WellFormed) :
    (g.followSystem g.solveFirst.table).Closed g.Follows := by
  refine hg.closed_followSystem_iff.mpr (fun p hp before x after hrhs => ?_)
  have hx : .nonterminal x ∈ p.rhs := by simp [hrhs]
  have hself := (hg.isRhs_of_mem hp).expansion_of_mem hx
  have hε : .terminal g.epsilon ∉ after := by
    have hmem := (hg.isRhs_of_mem hp).epsilon_notMem_expansion
    rw [hself, hrhs] at hmem
    exact fun h => hmem (by simp [h])
  have hprod := Derives.of_mem hp
  rw [hself, hrhs] at hprod
  constructor
  · intro t ht hne
    have hlt := hg.index_lt_of_leads
      (fun s hs => (hg.isRhs_of_mem hp).declared s (by simp [hrhs, hs])) ht
    obtain ⟨rest, hrest⟩ :=
      (begins_of_ne hne).mp ((hg.mem_firstOf_iff hε).mp (mem_firstOf.mpr ht))
    refine Or.inl ⟨ne_endMarker hlt, p.lhs, hg.lhs_lt_of_mem hp, before, rest, ?_⟩
    exact hprod.trans ((hrest.append_left [.nonterminal x]).append_left before)
  · intro he t ht
    have hvanish : g.Derives after [] :=
      begins_epsilon.mp ((hg.mem_firstOf_iff hε).mp (mem_firstOf.mpr he))
    have hend : g.Derives [.nonterminal p.lhs] (before ++ [.nonterminal x]) :=
      hprod.trans ((hvanish.append_left [.nonterminal x]).append_left before)
    obtain ⟨hne, y, hy, left, right, h⟩ | ⟨rfl, left, h⟩ := ht
    · refine Or.inl ⟨hne, y, hy, left ++ before, right, h.trans ?_⟩
      simpa using (hend.append_right (.terminal t :: right)).append_left left
    · refine Or.inr ⟨rfl, left ++ before, h.trans ?_⟩
      simpa using hend.append_left left

/-! ## The solution -/

namespace WellFormed

/-- Before the first pass, only the end-marker follows, and only the
start symbol. -/
theorem holds_followStart (hg : g.WellFormed) :
    g.followStart.holds x t ↔ x = g.start ∧ t = g.endMarker := by
  unfold followStart
  constructor
  · intro h
    obtain ⟨rfl, ht⟩ | ht := SetTable.mem_of_mem_get_set h
    · exact ⟨rfl, TerminalSet.mem_single.mp ht⟩
    · rw [SetTable.get_blank] at ht
      exact absurd ht (TerminalSet.not_mem_empty t)
  · rintro ⟨rfl, rfl⟩
    rw [SetTable.holds_iff, SetTable.get_set_self]
    · exact TerminalSet.mem_single.mpr rfl
    · simpa [SetTable.blank] using hg.start_declared

theorem solvable_followSystem (hg : g.WellFormed) :
    (g.followSystem g.solveFirst.table).Solvable g.followStart where
  size := by
    rw [size_eq rfl]
    simp [followStart, SetTable.set, SetTable.blank]
  start_lt := fun x t ht => by
    rw [(hg.holds_followStart.mp ht).2]
    exact Nat.lt_succ_self _
  closed_lt := hg.closed_followSystem_iff.mpr (fun p hp before x after hrhs =>
    ⟨fun t ht _ => Nat.lt_succ_of_lt (hg.index_lt_of_leads
        (fun s hs => (hg.isRhs_of_mem hp).declared s (by simp [hrhs, hs])) ht),
      fun _ _ ht => ht⟩)

theorem isLeast_solveFollow (hg : g.WellFormed) :
    IsLeast {f | g.followStart.holds ≤ f ∧ (g.followSystem g.solveFirst.table).Closed f}
      (g.solveFollow g.solveFirst.table).table.holds :=
  SetSystem.isLeast_solve hg.solvable_followSystem

theorem closed_solveFollow (hg : g.WellFormed) :
    (g.followSystem g.solveFirst.table).Closed (g.solveFollow g.solveFirst.table).table.holds :=
  hg.isLeast_solveFollow.1.2

/-- Every occurrence in a sentential form agrees with FOLLOW. -/
theorem agrees_of_derives (hg : g.WellFormed) {y : Nonterminal}
    (h : g.Derives [.nonterminal y] u) :
    g.Agrees g.solveFirst.table (g.solveFollow g.solveFirst.table).table.holds y u :=
  (agrees_singleton g _ _ y).of_derives hg hg.closed_solveFirst hg.closed_solveFollow h

/-- A declared nonterminal may stand in a sentential form. -/
theorem isProper_nonterminal (hx : x.index < g.nonterminals.length) :
    ∀ s ∈ [Symbol.nonterminal x], g.IsProper s := by
  intro s hs
  rw [List.mem_singleton.mp hs]
  exact ⟨hx, by simp⟩

/-- **FOLLOW is what follows in sentential forms.** -/
theorem mem_solveFollow_iff (hg : g.WellFormed) :
    t ∈ (g.solveFollow g.solveFirst.table).table.get x ↔ g.Follows x t := by
  constructor
  · refine hg.isLeast_solveFollow.2 ⟨fun y a ha => ?_, hg.closed_follows⟩ x t
    obtain ⟨rfl, rfl⟩ := hg.holds_followStart.mp ha
    exact Or.inr ⟨rfl, [], Derives.refl g _⟩
  · rintro (⟨-, y, hy, before, after, h⟩ | ⟨rfl, before, h⟩)
    · refine (hg.agrees_of_derives h before x (.terminal t :: after) rfl).1 t rfl ?_
      have hproper := hg.isProper_of_derives h (isProper_nonterminal hy) (.terminal t) (by simp)
      exact fun he => hproper.2 (by rw [he])
    · refine (hg.agrees_of_derives h before x [] rfl).2 rfl _ ?_
      exact hg.isLeast_solveFollow.1.1 _ _ (hg.holds_followStart.mpr ⟨rfl, rfl⟩)

/-- The epsilon terminal follows nothing. -/
theorem not_follows_epsilon (hg : g.WellFormed) : ¬ g.Follows x g.epsilon := by
  rintro (⟨-, y, hy, before, after, h⟩ | ⟨he, -⟩)
  · exact (hg.isProper_of_derives h (isProper_nonterminal hy) (.terminal g.epsilon)
      (by simp)).2 rfl
  · exact ne_endMarker hg.epsilon_lt he

/-- **When the start symbol reaches every nonterminal**, what follows a
nonterminal is what stands after it in the forms that are derived from
the start symbol before the end-marker. -/
theorem follows_iff_of_reachable (hg : g.WellFormed)
    (hreach : ∀ y : Nonterminal, y.index < g.nonterminals.length → ∃ before after,
      g.Derives [.nonterminal g.start] (before ++ .nonterminal y :: after)) :
    g.Follows x t ↔ ∃ before after, g.Derives [.nonterminal g.start, .terminal g.endMarker]
      (before ++ .nonterminal x :: .terminal t :: after) := by
  constructor
  · rintro (⟨-, y, hy, before, after, h⟩ | ⟨rfl, before, h⟩)
    · obtain ⟨left, right, hy⟩ := hreach y hy
      have hall := (hy.trans ((h.append_right right).append_left left)).append_right
        [.terminal g.endMarker]
      exact ⟨left ++ before, after ++ right ++ [.terminal g.endMarker], by simpa using hall⟩
    · exact ⟨before, [], by simpa using h.append_right [.terminal g.endMarker]⟩
  · rintro ⟨before, after, h⟩
    have hsplit : g.Derives ([.nonterminal g.start] ++ [.terminal g.endMarker])
        (before ++ .nonterminal x :: .terminal t :: after) := h
    obtain ⟨form, last, hform, hstart, hlast⟩ := derives_append_iff.mp hsplit
    rw [eq_of_derives (fun y => by simp) hlast] at hform
    obtain ⟨l, rfl, hl⟩ | ⟨l, -, hl⟩ := append_eq_append_cons hform.symm
    · cases l with
      | nil =>
        obtain ⟨ht, -⟩ := List.cons.inj hl
        exact Or.inr ⟨by simpa using ht, before, hstart⟩
      | cons s l =>
        obtain ⟨rfl, -⟩ := List.cons.inj hl
        have hproper := hg.isProper_of_derives hstart (isProper_nonterminal hg.start_declared)
          (.terminal t) (by simp)
        exact Or.inl ⟨ne_endMarker hproper.1, g.start, hg.start_declared, before, l, hstart⟩
    · simp [List.singleton_eq_append_iff] at hl

end WellFormed

/-- **FOLLOW is exactly what can follow.** In every constructed grammar a
terminal is in FOLLOW of a nonterminal if and only if it stands directly
after it in a sentential form of some nonterminal, the end-marker if and
only if a sentential form of the start symbol ends with the nonterminal,
and epsilon never. When the start symbol reaches every nonterminal, this
is what stands after the nonterminal in the forms derived from the start
symbol before the end-marker. -/
theorem follow_exact (hg : g.Constructed) :
    let a := LookaheadAnalysis.ofGrammar g
    (∀ x t, t ≠ g.endMarker → (t ∈ a.followOf x ↔
        ∃ y : Nonterminal, y.index < g.nonterminals.length ∧ ∃ before after,
          g.Derives [.nonterminal y] (before ++ .nonterminal x :: .terminal t :: after)))
      ∧ (∀ x, g.endMarker ∈ a.followOf x ↔
        ∃ before, g.Derives [.nonterminal g.start] (before ++ [.nonterminal x]))
      ∧ (∀ x, g.epsilon ∉ a.followOf x)
      ∧ ((∀ y : Nonterminal, y.index < g.nonterminals.length → ∃ before after,
          g.Derives [.nonterminal g.start] (before ++ .nonterminal y :: after)) →
        ∀ x t, t ∈ a.followOf x ↔ ∃ before after,
          g.Derives [.nonterminal g.start, .terminal g.endMarker]
            (before ++ .nonterminal x :: .terminal t :: after)) := by
  intro a
  have hwf := hg.wellFormed
  have hmem : ∀ x t, t ∈ a.followOf x ↔ g.Follows x t := fun x t => hwf.mem_solveFollow_iff
  refine ⟨fun x t ht => ?_, fun x => ?_, fun x => ?_, fun hreach x t => ?_⟩
  · rw [hmem, Follows, and_iff_right ht, or_iff_left (fun h => ht h.1)]
  · rw [hmem, Follows, and_iff_right rfl, or_iff_right (fun h => h.1 rfl)]
  · rw [hmem]
    exact hwf.not_follows_epsilon
  · rw [hmem]
    exact hwf.follows_iff_of_reachable hreach

/-- In the grammar of brackets, where the start symbol reaches both
nonterminals, `)` and the end-marker follow `L`, and `(` does not. -/
theorem follow_exact_brackets :
    brackets.Constructed
      ∧ (∀ y : Nonterminal, y.index < brackets.nonterminals.length → ∃ before after,
          brackets.Derives [.nonterminal brackets.start] (before ++ .nonterminal y :: after))
      ∧ (∃ before after, brackets.Derives [.nonterminal ⟨0⟩, .terminal ⟨3⟩]
          (before ++ .nonterminal ⟨1⟩ :: .terminal ⟨1⟩ :: after))
      ∧ (∃ before, brackets.Derives [.nonterminal ⟨0⟩] (before ++ [.nonterminal ⟨1⟩]))
      ∧ ¬ ∃ y : Nonterminal, y.index < 2 ∧ ∃ before after, brackets.Derives [.nonterminal y]
          (before ++ .nonterminal ⟨1⟩ :: .terminal ⟨0⟩ :: after) := by
  have hreach : ∀ y : Nonterminal, y.index < brackets.nonterminals.length → ∃ before after,
      brackets.Derives [.nonterminal brackets.start] (before ++ .nonterminal y :: after) := by
    rintro ⟨i⟩ hi
    have hi : i = 0 ∨ i = 1 := by
      have : i < 2 := hi
      omega
    have hL : (⟨⟨0⟩, [.nonterminal ⟨1⟩]⟩ : Production) ∈ brackets.productions := by decide
    obtain rfl | rfl := hi
    · exact ⟨[], [], Derives.refl _ _⟩
    · exact ⟨[], [], Derives.of_mem hL⟩
  obtain ⟨hinner, hend, -, hall⟩ := follow_exact constructed_brackets
  exact ⟨constructed_brackets, hreach, (hall hreach ⟨1⟩ ⟨1⟩).mp (by decide +kernel),
    (hend ⟨1⟩).mp (by decide +kernel),
    fun h => absurd ((hinner ⟨1⟩ ⟨0⟩ (by decide)).mpr h) (by decide +kernel)⟩

end Grammar

end GrammarAnalysis
