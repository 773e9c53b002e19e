import GrammarAnalysis.Proofs.Productions
import Mathlib.Logic.Relation

/-!
# Derivations

The meaning of a grammar is its derivation relation, which knows nothing
of the analyses: a step replaces a nonterminal, wherever it stands, by
the symbols of one of its productions, and a production of the empty
string replaces it by nothing. A string that is derived from a symbol is
a *sentential form*; it never holds the epsilon terminal, which is only
the spelling of the empty string.

Symbols are replaced independently of each other, so a derivation from
`u ++ v` is one from `u` beside one from `v` (`derives_append_iff`).
-/

namespace GrammarAnalysis.Grammar

variable {g : Grammar} {u v w : List Symbol}

/-- **A derivation step**: one nonterminal is replaced. -/
inductive Step (g : Grammar) : List Symbol → List Symbol → Prop
  | expand {p : Production} (hp : p ∈ g.productions) (before after : List Symbol) :
    Step g (before ++ .nonterminal p.lhs :: after) (before ++ (g.expansion p.rhs ++ after))

/-- **Derivation**: any number of steps. -/
def Derives (g : Grammar) : List Symbol → List Symbol → Prop :=
  Relation.ReflTransGen g.Step

/-! ## Derivations in context -/

theorem Step.append_left (h : g.Step u v) (l : List Symbol) : g.Step (l ++ u) (l ++ v) := by
  cases h with
  | expand hp before after =>
    rw [← List.append_assoc, ← List.append_assoc l]
    exact Step.expand hp (l ++ before) after

theorem Step.append_right (h : g.Step u v) (l : List Symbol) : g.Step (u ++ l) (v ++ l) := by
  cases h with
  | expand hp before after =>
    rw [List.append_assoc, List.append_assoc, List.append_assoc]
    exact Step.expand hp before (after ++ l)

namespace Derives

theorem refl (g : Grammar) (u : List Symbol) : g.Derives u u :=
  Relation.ReflTransGen.refl

theorem trans (huv : g.Derives u v) (hvw : g.Derives v w) : g.Derives u w :=
  Relation.ReflTransGen.trans huv hvw

theorem append_left (h : g.Derives u v) (l : List Symbol) : g.Derives (l ++ u) (l ++ v) :=
  Relation.ReflTransGen.lift (l ++ ·) (fun _ _ hs => hs.append_left l) _ _ h

theorem append_right (h : g.Derives u v) (l : List Symbol) : g.Derives (u ++ l) (v ++ l) :=
  Relation.ReflTransGen.lift (· ++ l) (fun _ _ hs => hs.append_right l) _ _ h

/-- Two derivations side by side. -/
theorem append {u' v' : List Symbol} (hu : g.Derives u u') (hv : g.Derives v v') :
    g.Derives (u ++ v) (u' ++ v') :=
  (hu.append_right v).trans (hv.append_left u')

/-- A nonterminal derives what a production puts in its place. -/
theorem of_mem {p : Production} (hp : p ∈ g.productions) :
    g.Derives [.nonterminal p.lhs] (g.expansion p.rhs) := by
  have h := Relation.ReflTransGen.single (Step.expand hp [] [])
  rwa [List.append_nil] at h

end Derives

/-! ## Derivations from a part -/

/-- A symbol of `u ++ v` stands in `u` or in `v`. -/
theorem append_eq_append_cons {before after : List Symbol} {s : Symbol}
    (h : u ++ v = before ++ s :: after) :
    (∃ l, u = before ++ s :: l ∧ after = l ++ v) ∨ ∃ l, before = u ++ l ∧ v = l ++ s :: after := by
  obtain ⟨l, hb, hv⟩ | ⟨l, hu, hl⟩ := List.append_eq_append_iff.mp h
  · exact Or.inr ⟨l, hb, hv⟩
  · cases l with
    | nil =>
      rw [List.append_nil] at hu
      exact Or.inr ⟨[], by rw [hu, List.append_nil], hl.symm⟩
    | cons s' l =>
      obtain ⟨rfl, rfl⟩ := List.cons.inj hl
      exact Or.inl ⟨l, hu, rfl⟩

/-- The symbol of a string of one symbol stands alone there. -/
theorem singleton_eq_append_cons_iff {before after : List Symbol} {s s' : Symbol} :
    [s] = before ++ s' :: after ↔ before = [] ∧ s = s' ∧ after = [] := by
  rw [List.cons_eq_append_iff]
  constructor
  · rintro (⟨rfl, h⟩ | ⟨before, -, h⟩)
    · obtain ⟨hs, rfl⟩ := List.cons.inj h
      exact ⟨rfl, hs.symm, rfl⟩
    · exact absurd h (by simp)
  · rintro ⟨rfl, rfl, rfl⟩
    exact Or.inl ⟨rfl, rfl⟩

/-- A step from `u ++ v` is a step from `u` or a step from `v`. -/
theorem Step.append_cases (h : g.Step (u ++ v) w) :
    (∃ u', g.Step u u' ∧ w = u' ++ v) ∨ ∃ v', g.Step v v' ∧ w = u ++ v' := by
  generalize hs : u ++ v = s at h
  cases h with
  | @expand p hp before after =>
    obtain ⟨l, rfl, rfl⟩ | ⟨l, rfl, rfl⟩ := append_eq_append_cons hs
    · exact Or.inl ⟨_, Step.expand hp before l, by simp⟩
    · exact Or.inr ⟨_, Step.expand hp l after, List.append_assoc _ _ _⟩

/-- **Derivations are side by side**: what is derived from `u ++ v` is
what is derived from `u` followed by what is derived from `v`. -/
theorem derives_append_iff :
    g.Derives (u ++ v) w ↔ ∃ u' v', w = u' ++ v' ∧ g.Derives u u' ∧ g.Derives v v' := by
  constructor
  · intro h
    induction h with
    | refl => exact ⟨u, v, rfl, Derives.refl g u, Derives.refl g v⟩
    | tail _ hstep ih =>
      obtain ⟨u', v', rfl, hu, hv⟩ := ih
      obtain ⟨u'', hs, rfl⟩ | ⟨v'', hs, rfl⟩ := hstep.append_cases
      · exact ⟨u'', v', rfl, hu.tail hs, hv⟩
      · exact ⟨u', v'', rfl, hu, hv.tail hs⟩
  · rintro ⟨u', v', rfl, hu, hv⟩
    exact hu.append hv

/-- A string without nonterminals derives only itself. -/
theorem eq_of_derives (hu : ∀ x, .nonterminal x ∉ u) (h : g.Derives u w) : w = u := by
  induction h with
  | refl => rfl
  | tail _ hstep ih =>
    subst ih
    cases hstep with
    | @expand p hp before after => exact absurd (by simp) (hu p.lhs)

@[simp] theorem derives_nil_iff : g.Derives [] w ↔ w = [] :=
  ⟨fun h => eq_of_derives (fun _ => List.not_mem_nil) h, fun h => h ▸ Derives.refl g []⟩

/-! ## Sentential forms -/

/-- **The symbols of sentential forms**: the declared ones but the
epsilon terminal. -/
def IsProper (g : Grammar) (s : Symbol) : Prop :=
  g.IsDeclared s ∧ s ≠ .terminal g.epsilon

/-- The epsilon terminal and the end-marker are no such symbols. -/
theorem not_isProper {t : Terminal} (ht : t = g.epsilon ∨ t = g.endMarker) :
    ¬ g.IsProper (.terminal t) := by
  rintro ⟨hdeclared, hne⟩
  obtain rfl | rfl := ht
  · exact hne rfl
  · exact Nat.lt_irrefl _ hdeclared

/-- Derivation brings in no other symbols. -/
theorem WellFormed.isProper_of_derives (hg : g.WellFormed) (h : g.Derives u v)
    (hu : ∀ s ∈ u, g.IsProper s) : ∀ s ∈ v, g.IsProper s := by
  induction h with
  | refl => exact hu
  | tail _ hstep ih =>
    cases hstep with
    | @expand p hp before after =>
      have hrhs := hg.isRhs_of_mem hp
      intro s hs
      obtain hs | hs := List.mem_append.mp hs
      · exact ih s (List.mem_append_left _ hs)
      obtain hs | hs := List.mem_append.mp hs
      · exact ⟨hrhs.declared_expansion hs, fun he => hrhs.epsilon_notMem_expansion (he ▸ hs)⟩
      · exact ih s (List.mem_append_right _ (List.mem_cons_of_mem _ hs))

end GrammarAnalysis.Grammar
