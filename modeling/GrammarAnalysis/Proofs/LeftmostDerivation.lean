import GrammarAnalysis.Proofs.Derivation

/-!
# Leftmost derivations

A derivation may replace nonterminals in any order. A *leftmost* one
replaces the first nonterminal of the string each time, and is then
determined by the numbers of the productions it uses
(`LeftmostDerives`). This is the form in which a predictive parser finds
a derivation.

For a derivation of terminals there is a second form, which drops the
terminals at the front as soon as they are there, as the parser does
with its stack (`Generates`). Both forms are the same
(`leftmostDerives_iff_generates`), and every string of terminals that is
derived is also derived leftmost (`derives_iff_exists_generates`).
-/

namespace GrammarAnalysis.Grammar

variable {g : Grammar} {s u v w : List Symbol} {ns ns' : List Nat} {ts ts' : List Terminal}

/-- **Leftmost derivation**, with the numbers of the productions that are
used. Before the nonterminal that is replaced there are only
terminals. -/
inductive LeftmostDerives (g : Grammar) : List Symbol → List Nat → List Symbol → Prop
  | refl (u : List Symbol) : LeftmostDerives g u [] u
  | expand {n : Nat} {q : Production} {done : List Terminal} {after w : List Symbol}
      {ns : List Nat} (hq : g.productions[n]? = some q)
      (h : LeftmostDerives g (done.map .terminal ++ (g.expansion q.rhs ++ after)) ns w) :
      LeftmostDerives g (done.map .terminal ++ .nonterminal q.lhs :: after) (n :: ns) w

/-- **A string generates terminals**: the terminals at its front are
taken off, and the nonterminal behind them is replaced. -/
inductive Generates (g : Grammar) : List Symbol → List Nat → List Terminal → Prop
  | nil : Generates g [] [] []
  | terminal {t : Terminal} {s : List Symbol} {ns : List Nat} {ts : List Terminal}
      (h : Generates g s ns ts) : Generates g (.terminal t :: s) ns (t :: ts)
  | expand {n : Nat} {q : Production} {s : List Symbol} {ns : List Nat} {ts : List Terminal}
      (hq : g.productions[n]? = some q) (h : Generates g (g.expansion q.rhs ++ s) ns ts) :
      Generates g (.nonterminal q.lhs :: s) (n :: ns) ts

/-! ## Leftmost derivations -/

namespace LeftmostDerives

theorem trans (h : g.LeftmostDerives u ns v) (h' : g.LeftmostDerives v ns' w) :
    g.LeftmostDerives u (ns ++ ns') w := by
  induction h with
  | refl u => exact h'
  | expand hq _ ih => exact LeftmostDerives.expand hq (ih h')

theorem single {n : Nat} {q : Production} (hq : g.productions[n]? = some q)
    (done : List Terminal) (after : List Symbol) :
    g.LeftmostDerives (done.map .terminal ++ .nonterminal q.lhs :: after) [n]
      (done.map .terminal ++ (g.expansion q.rhs ++ after)) :=
  LeftmostDerives.expand hq (LeftmostDerives.refl _)

/-- A leftmost derivation is a derivation. -/
theorem derives (h : g.LeftmostDerives u ns v) : g.Derives u v := by
  induction h with
  | refl u => exact Derives.refl g u
  | expand hq _ ih =>
    exact Relation.ReflTransGen.head (Step.expand (List.mem_of_getElem? hq) _ _) ih

/-- Terminals in front do not matter. -/
theorem append_left (h : g.LeftmostDerives u ns v) (done : List Terminal) :
    g.LeftmostDerives (done.map .terminal ++ u) ns (done.map .terminal ++ v) := by
  induction h with
  | refl u => exact LeftmostDerives.refl _
  | expand hq _ ih =>
    rw [← List.append_assoc, ← List.map_append] at ih ⊢
    exact LeftmostDerives.expand hq ih

end LeftmostDerives

/-! ## Generation -/

/-- Terminals generate themselves. -/
theorem generates_map_append_iff {done : List Terminal} :
    g.Generates (done.map .terminal ++ s) ns ts ↔
      ∃ ts', ts = done ++ ts' ∧ g.Generates s ns ts' := by
  induction done generalizing ts with
  | nil => simp
  | cons t done ih =>
    rw [List.map_cons, List.cons_append]
    constructor
    · intro h
      cases h with
      | terminal h =>
        obtain ⟨ts', rfl, hs⟩ := ih.mp h
        exact ⟨ts', rfl, hs⟩
    · rintro ⟨ts', rfl, h⟩
      exact Generates.terminal (ih.mpr ⟨ts', rfl, h⟩)

/-- **The parts of a string generate side by side.** -/
theorem generates_append_iff :
    g.Generates (u ++ v) ns ts ↔ ∃ ns₁ ns₂ ts₁ ts₂, ns = ns₁ ++ ns₂ ∧ ts = ts₁ ++ ts₂
      ∧ g.Generates u ns₁ ts₁ ∧ g.Generates v ns₂ ts₂ := by
  constructor
  · intro h
    generalize hs : u ++ v = s at h
    induction h generalizing u with
    | nil =>
      obtain ⟨rfl, rfl⟩ := List.append_eq_nil_iff.mp hs
      exact ⟨[], [], [], [], rfl, rfl, Generates.nil, Generates.nil⟩
    | @terminal t s ns ts h ih =>
      obtain ⟨rfl, rfl⟩ | ⟨u, rfl, rfl⟩ := List.append_eq_cons_iff.mp hs
      · exact ⟨[], ns, [], t :: ts, rfl, rfl, Generates.nil, Generates.terminal h⟩
      · obtain ⟨ns₁, ns₂, ts₁, ts₂, rfl, rfl, hu, hv⟩ := ih rfl
        exact ⟨ns₁, ns₂, t :: ts₁, ts₂, rfl, rfl, Generates.terminal hu, hv⟩
    | @expand n q s ns ts hq h ih =>
      obtain ⟨rfl, rfl⟩ | ⟨u, rfl, rfl⟩ := List.append_eq_cons_iff.mp hs
      · exact ⟨[], n :: ns, [], ts, rfl, rfl, Generates.nil, Generates.expand hq h⟩
      · obtain ⟨ns₁, ns₂, ts₁, ts₂, rfl, rfl, hu, hv⟩ := ih (List.append_assoc _ _ _)
        exact ⟨n :: ns₁, ns₂, ts₁, ts₂, rfl, rfl, Generates.expand hq hu, hv⟩
  · rintro ⟨ns₁, ns₂, ts₁, ts₂, rfl, rfl, hu, hv⟩
    induction hu with
    | nil => exact hv
    | terminal _ ih => exact Generates.terminal ih
    | expand hq _ ih => exact Generates.expand hq (List.append_assoc _ _ v ▸ ih)

/-- **Generation is leftmost derivation of terminals.** -/
theorem leftmostDerives_iff_generates :
    g.LeftmostDerives u ns (ts.map .terminal) ↔ g.Generates u ns ts := by
  constructor
  · intro h
    generalize hv : ts.map Symbol.terminal = v at h
    induction h with
    | refl u =>
      subst hv
      have h := generates_map_append_iff.mpr ⟨[], (List.append_nil ts).symm, Generates.nil (g := g)⟩
      rwa [List.append_nil] at h
    | expand hq _ ih =>
      obtain ⟨ts', rfl, h⟩ := generates_map_append_iff.mp (ih hv)
      exact generates_map_append_iff.mpr ⟨ts', rfl, Generates.expand hq h⟩
  · intro h
    induction h with
    | nil => exact LeftmostDerives.refl _
    | @terminal t s ns ts _ ih => exact ih.append_left [t]
    | @expand n q s ns ts hq _ ih =>
      show g.LeftmostDerives (([] : List Terminal).map .terminal ++ .nonterminal q.lhs :: s) _ _
      exact LeftmostDerives.expand hq ih

/-- **Derivation is leftmost derivation**, for strings of terminals. -/
theorem derives_iff_exists_generates :
    g.Derives u (ts.map .terminal) ↔ ∃ ns, g.Generates u ns ts := by
  constructor
  · intro h
    induction h using Relation.ReflTransGen.head_induction_on with
    | refl => exact ⟨[], leftmostDerives_iff_generates.mp (LeftmostDerives.refl _)⟩
    | head hstep _ ih =>
      obtain ⟨ns, h⟩ := ih
      cases hstep with
      | @expand p hp before after =>
        -- the production is moved to where the nonterminal is the first one
        obtain ⟨n, hn⟩ := List.mem_iff_getElem?.mp hp
        obtain ⟨ns₁, ns₂, ts₁, ts₂, rfl, rfl, hbefore, h⟩ := generates_append_iff.mp h
        exact ⟨ns₁ ++ n :: ns₂, generates_append_iff.mpr
          ⟨ns₁, n :: ns₂, ts₁, ts₂, rfl, rfl, hbefore, Generates.expand hn h⟩⟩
  · rintro ⟨ns, h⟩
    exact (leftmostDerives_iff_generates.mpr h).derives

end GrammarAnalysis.Grammar
