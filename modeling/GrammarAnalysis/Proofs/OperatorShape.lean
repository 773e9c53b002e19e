import GrammarAnalysis.Precedence.Analysis
import GrammarAnalysis.Proofs.Mirror
import Mathlib.Data.List.Chain

/-!
# The shape of operator grammars

The shape tests look at single right-hand sides: none of them has two
adjacent nonterminals, and none is the empty string. Both properties
extend to sentential forms of any length. A nonterminal that is replaced
stands between terminals, or at an end, so what is put in its place
touches no other nonterminal (`separated_of_derives`); and what is put
there is not shorter (`OperatorShaped.length_le_of_derives`), so no
symbol ever vanishes.
-/

namespace GrammarAnalysis

/-! ## Strings without adjacent nonterminals -/

/-- Whether two symbols are not both nonterminals. -/
def Symbol.Apart : Symbol → Symbol → Prop
  | .nonterminal _, .nonterminal _ => False
  | _, _ => True

/-- **A string without adjacent nonterminals.** -/
def Separated (u : List Symbol) : Prop := u.IsChain Symbol.Apart

namespace Symbol

@[simp] theorem apart_terminal_left (t : Terminal) (s : Symbol) : (terminal t).Apart s := by
  cases s <;> trivial

@[simp] theorem apart_terminal_right (s : Symbol) (t : Terminal) : s.Apart (terminal t) := by
  cases s <;> trivial

theorem Apart.symm {s s' : Symbol} (h : s.Apart s') : s'.Apart s := by
  cases s with
  | terminal t => exact apart_terminal_right s' t
  | nonterminal x =>
    cases s' with
    | terminal t => exact apart_terminal_left t _
    | nonterminal y => exact absurd h id

end Symbol

namespace Separated

variable {u v w before after : List Symbol} {x : Nonterminal}

@[simp] theorem nil : Separated [] := List.isChain_nil

@[simp] theorem singleton (s : Symbol) : Separated [s] := List.isChain_singleton s

@[simp] theorem reverse_iff : Separated u.reverse ↔ Separated u := by
  rw [Separated, Separated, List.isChain_reverse]
  exact ⟨List.IsChain.imp fun _ _ => Symbol.Apart.symm,
    List.IsChain.imp fun _ _ => Symbol.Apart.symm⟩

/-- What follows a nonterminal is empty or begins with a terminal. -/
theorem after_cases (h : Separated (before ++ .nonterminal x :: after)) :
    after = [] ∨ ∃ t rest, after = .terminal t :: rest := by
  have htail := (List.isChain_append.mp h).2.1
  cases after with
  | nil => exact Or.inl rfl
  | cons s rest =>
    cases s with
    | nonterminal y => exact absurd (List.isChain_cons_cons.mp htail).1 id
    | terminal t => exact Or.inr ⟨t, rest, rfl⟩

/-- **A nonterminal may be replaced by any string without adjacent
nonterminals**: the symbols around it are terminals. -/
theorem replace (h : Separated (before ++ .nonterminal x :: after)) (hw : Separated w) :
    Separated (before ++ (w ++ after)) := by
  obtain ⟨hbefore, htail, hlast⟩ := List.isChain_append.mp h
  have hleft : ∀ s ∈ before.getLast?, ∀ s', s.Apart s' := by
    intro s hs s'
    have hx := hlast s hs (.nonterminal x) rfl
    cases s with
    | terminal t => exact Symbol.apart_terminal_left t s'
    | nonterminal y => exact absurd hx id
  have hright : ∀ s ∈ after.head?, ∀ s' : Symbol, s'.Apart s := by
    intro s hs s'
    obtain rfl | ⟨t, rest, rfl⟩ := h.after_cases
    · cases hs
    · cases hs
      exact Symbol.apart_terminal_right s' t
  refine hbefore.append (List.IsChain.append hw htail.tail fun s _ s' hs' => hright s' hs' s) ?_
  exact fun s hs s' _ => hleft s hs s'

end Separated

theorem adjacentFrom_eq_none_iff {n : Nat} {u : List Symbol} :
    adjacentFrom n u = none ↔ Separated u := by
  fun_induction adjacentFrom n u with
  | case1 n x y rest =>
    exact iff_of_false (fun h => by cases h) fun h => (List.isChain_cons_cons.mp h).1
  | case2 n s rest hs ih =>
    rw [ih, Separated, Separated, List.isChain_cons]
    refine (and_iff_right fun s' hs' => ?_).symm
    cases s with
    | terminal t => exact Symbol.apart_terminal_left t s'
    | nonterminal x =>
      cases s' with
      | terminal t => exact Symbol.apart_terminal_right _ t
      | nonterminal y =>
        obtain ⟨rest', rfl⟩ := List.head?_eq_some_iff.mp hs'
        exact (hs x y rest' rfl rfl).elim
  | case3 n => simp

namespace Grammar

variable {g : Grammar} {u v : List Symbol}

/-- **The shape of operator grammars**: no right-hand side has adjacent
nonterminals, and none is the empty string. -/
structure OperatorShaped (g : Grammar) : Prop where
  separated : ∀ p ∈ g.productions, Separated p.rhs
  ne_epsilon : ∀ p ∈ g.productions, p.rhs ≠ [.terminal g.epsilon]

theorem adjacentNonterminals?_eq_none_iff :
    g.adjacentNonterminals? = none ↔ ∀ p ∈ g.productions, Separated p.rhs := by
  simp only [adjacentNonterminals?, List.findSome?_eq_none_iff, Option.map_eq_none_iff,
    adjacentFrom_eq_none_iff, Prod.forall]
  constructor
  · intro h p hp
    obtain ⟨n, hn⟩ := List.mem_iff_getElem?.mp hp
    exact h p n (List.mem_zipIdx_iff_getElem?.mpr hn)
  · exact fun h p n hp => h p (List.mem_of_getElem? (List.mem_zipIdx_iff_getElem?.mp hp))

theorem epsilonProduction?_eq_none_iff :
    g.epsilonProduction? = none ↔ ∀ p ∈ g.productions, p.rhs ≠ [.terminal g.epsilon] := by
  simp [epsilonProduction?, isEpsilonRhs, List.findIdx?_eq_none_iff]

theorem shapeFault?_eq_none_iff_and : g.shapeFault? = none ↔
    g.adjacentNonterminals? = none ∧ g.epsilonProduction? = none := by
  unfold shapeFault?
  cases g.adjacentNonterminals? <;> simp

/-- **The shape tests are passed by the grammars of that shape.** -/
theorem shapeFault?_eq_none_iff : g.shapeFault? = none ↔ g.OperatorShaped := by
  rw [shapeFault?_eq_none_iff_and, adjacentNonterminals?_eq_none_iff,
    epsilonProduction?_eq_none_iff]
  exact ⟨fun h => ⟨h.1, h.2⟩, fun h => ⟨h.1, h.2⟩⟩

theorem OperatorShaped.mirror (h : g.OperatorShaped) : g.mirror.OperatorShaped where
  separated := fun p hp => by
    have := h.separated _ (mem_productions_mirror.mp hp)
    exact Separated.reverse_iff.mp this
  ne_epsilon := fun p hp he => by
    refine h.ne_epsilon _ (mem_productions_mirror.mp hp) ?_
    rw [Production.mirror, he]
    rfl

/-! ## Sentential forms -/

/-- No derivation step brings adjacent nonterminals in, whether or not
there are productions of the empty string. -/
theorem Step.separated (hg : ∀ p ∈ g.productions, Separated p.rhs) (h : g.Step u v)
    (hu : Separated u) : Separated v := by
  cases h with
  | @expand p hp before after =>
    refine hu.replace ?_
    unfold expansion
    split
    · exact Separated.nil
    · exact hg p hp

/-- **No sentential form has adjacent nonterminals**, if no right-hand
side has. -/
theorem separated_of_derives (hg : ∀ p ∈ g.productions, Separated p.rhs) (h : g.Derives u v)
    (hu : Separated u) : Separated v := by
  induction h with
  | refl => exact hu
  | tail _ hstep ih => exact hstep.separated hg ih

namespace OperatorShaped

/-- Every right-hand side stands for itself. -/
theorem expansion_eq (h : g.OperatorShaped) {p : Production} (hp : p ∈ g.productions) :
    g.expansion p.rhs = p.rhs := by
  simp [expansion, isEpsilonRhs, h.ne_epsilon p hp]

/-- A nonterminal derives its right-hand sides. -/
theorem derives_of_mem (h : g.OperatorShaped) {x : Nonterminal} {rhs : List Symbol}
    (hp : ⟨x, rhs⟩ ∈ g.productions) : g.Derives [.nonterminal x] rhs := by
  have hstep := Derives.of_mem hp
  rwa [h.expansion_eq hp] at hstep

/-- The terminals of a right-hand side are proper symbols. -/
theorem isProper_of_mem (h : g.OperatorShaped) (hg : g.WellFormed) {p : Production}
    (hp : p ∈ g.productions) {s : Symbol} (hs : s ∈ p.rhs) : g.IsProper s := by
  have hrhs := hg.isRhs_of_mem hp
  refine ⟨hrhs.declared s hs, ?_⟩
  rintro rfl
  exact h.ne_epsilon p hp (hrhs.epsilon_alone hs)

/-- **No symbol vanishes.** -/
theorem length_le_of_derives (h : g.OperatorShaped) (hg : g.WellFormed) (huv : g.Derives u v) :
    u.length ≤ v.length := by
  induction huv with
  | refl => exact Nat.le_refl _
  | tail _ hstep ih =>
    cases hstep with
    | @expand p hp before after =>
      have hpos := List.length_pos_iff.mpr (hg.isRhs_of_mem hp).ne_nil
      rw [h.expansion_eq hp]
      simp only [List.length_append, List.length_cons] at ih ⊢
      omega

end OperatorShaped

end Grammar

end GrammarAnalysis
