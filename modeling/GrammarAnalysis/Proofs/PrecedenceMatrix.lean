import GrammarAnalysis.Proofs.EdgeSets
import Mathlib.Data.List.Infix

/-!
# The matrix holds what is asserted

The productions assert relations terminal by terminal, looking at the
symbol before a terminal and at the two symbols after it. What a
right-hand side asserts is said once without places and scanning, by
`Asserts`, and `mem_ofSymbols_iff` shows that the scan finds exactly
that.

A matrix is filled by one assertion after the other. `Filling.Holds` is
the invariant: a cell holds a relation exactly when one of the
assertions made so far says so. An assertion keeps it unless it
contradicts an earlier one, and then the filling ends. A filling that
goes through therefore holds all assertions and no other relations
(`get?_matrix_iff`).
-/

namespace GrammarAnalysis

/-! ## Neighbours -/

/-- **Neighbouring terminals** of a string: nothing stands between them,
or one nonterminal. -/
def Neighbours (u : List Symbol) (l r : Terminal) : Prop :=
  [.terminal l, .terminal r] <:+: u ∨ ∃ x, [.terminal l, .nonterminal x, .terminal r] <:+: u

section Neighbours

variable {u before after : List Symbol} {l r : Terminal} {s : Symbol}

theorem pair_infix_iff {s s' : Symbol} :
    [s, s'] <:+: u ↔ ∃ before after, u = before ++ s :: s' :: after := by
  constructor
  · rintro ⟨before, after, rfl⟩
    exact ⟨before, after, by simp⟩
  · rintro ⟨before, after, rfl⟩
    exact ⟨before, after, by simp⟩

/-- The right one of two neighbours opens what follows the left one. -/
theorem neighbours_iff :
    Neighbours u l r ↔ ∃ before after, u = before ++ .terminal l :: after ∧ Opens after r := by
  constructor
  · rintro (⟨before, after, rfl⟩ | ⟨x, before, after, rfl⟩)
    · exact ⟨before, .terminal r :: after, by simp, .terminal r after⟩
    · exact ⟨before, .nonterminal x :: .terminal r :: after, by simp, .nonterminal x r after⟩
  · rintro ⟨before, after, rfl, h⟩
    cases h with
    | terminal r rest => exact Or.inl ⟨before, rest, by simp⟩
    | nonterminal x r rest => exact Or.inr ⟨x, before, rest, by simp⟩

theorem Neighbours.reverse (h : Neighbours u l r) : Neighbours u.reverse r l := by
  obtain h | ⟨x, h⟩ := h
  · have hinfix := List.reverse_infix.mpr h
    exact Or.inl hinfix
  · have hinfix := List.reverse_infix.mpr h
    exact Or.inr ⟨x, hinfix⟩

@[simp] theorem neighbours_reverse_iff : Neighbours u.reverse r l ↔ Neighbours u l r := by
  refine ⟨fun h => ?_, Neighbours.reverse⟩
  have hreverse := h.reverse
  rwa [List.reverse_reverse] at hreverse

theorem Neighbours.mem (h : Neighbours u l r) : .terminal l ∈ u ∧ .terminal r ∈ u := by
  obtain ⟨before, after, rfl, hr⟩ := neighbours_iff.mp h
  exact ⟨by simp, by simp [hr.mem]⟩

end Neighbours

/-! ## Assertions -/

/-- **What a right-hand side asserts**: neighbours are equal, a terminal is
less than FIRSTVT of the nonterminal after it, and LASTVT of the
nonterminal before it is greater than the terminal. -/
inductive Asserts (firstVT lastVT : SetTable) (rhs : List Symbol) :
    Terminal → Relation → Terminal → Prop
  | less {l r : Terminal} {x : Nonterminal} (h : [.terminal l, .nonterminal x] <:+: rhs)
    (hr : r ∈ firstVT.get x) : Asserts firstVT lastVT rhs l .less r
  | equal {l r : Terminal} (h : Neighbours rhs l r) : Asserts firstVT lastVT rhs l .equal r
  | greater {l r : Terminal} {x : Nonterminal} (h : [.nonterminal x, .terminal r] <:+: rhs)
    (hl : l ∈ lastVT.get x) : Asserts firstVT lastVT rhs l .greater r

namespace Assertion

variable {firstVT lastVT : SetTable} {n : Nat} {t : Terminal} {a : Assertion}
  {previous : Option Symbol} {u rest : List Symbol}

theorem mem_before_iff : a ∈ before lastVT n t previous ↔
    ∃ x, previous = some (.nonterminal x) ∧ ∃ l ∈ lastVT.get x, a = ⟨l, .greater, t, n⟩ := by
  unfold before
  split
  · simp [eq_comm]
  · next hprevious =>
    refine iff_of_false List.not_mem_nil ?_
    rintro ⟨x, h, -⟩
    exact hprevious x h

theorem mem_after_iff : a ∈ after firstVT n t rest ↔
    (∃ x rest', rest = .nonterminal x :: rest' ∧ ∃ r ∈ firstVT.get x, a = ⟨t, .less, r, n⟩)
      ∨ ∃ r, Opens rest r ∧ a = ⟨t, .equal, r, n⟩ := by
  match rest with
  | [] => simp [after]
  | .terminal b :: rest => simp [after]
  | .nonterminal x :: .terminal b :: rest => simp [after, eq_comm]
  | [.nonterminal x] => simp [after, eq_comm]
  | .nonterminal x :: .nonterminal y :: rest => simp [after, eq_comm]

/-- The terminals of a string are its first symbol, if that is one, and
those of the rest. -/
theorem exists_terminal_cons_iff {s : Symbol} {P : List Symbol → Terminal → List Symbol → Prop} :
    (∃ left t right, s :: u = left ++ .terminal t :: right ∧ P left t right) ↔
      (∃ t, s = .terminal t ∧ P [] t u)
        ∨ ∃ left t right, u = left ++ .terminal t :: right ∧ P (s :: left) t right := by
  constructor
  · rintro ⟨left, t, right, heq, h⟩
    obtain ⟨rfl, heq⟩ | ⟨left, rfl, hu⟩ := List.cons_eq_append_iff.mp heq
    · obtain ⟨hs, rfl⟩ := List.cons.inj heq
      exact Or.inl ⟨t, hs, h⟩
    · exact Or.inr ⟨left, t, right, hu, h⟩
  · rintro (⟨t, rfl, h⟩ | ⟨left, t, right, rfl, h⟩)
    · exact ⟨[], t, u, rfl, h⟩
    · exact ⟨s :: left, t, right, rfl, h⟩

/-- **The scan of a right-hand side** looks before and after each of its
terminals. -/
theorem mem_ofSymbols_iff_exists : a ∈ ofSymbols firstVT lastVT n previous u ↔
    ∃ left t right, u = left ++ .terminal t :: right
      ∧ (a ∈ before lastVT n t (left.getLast?.or previous) ∨ a ∈ after firstVT n t right) := by
  have hlast : ∀ (s : Symbol) (left : List Symbol) (previous : Option Symbol),
      (s :: left).getLast?.or previous = left.getLast?.or (some s) := by
    intro s left previous
    rw [List.getLast?_cons, Option.some_or]
    cases left.getLast? <;> rfl
  fun_induction ofSymbols firstVT lastVT n previous u with
  | case1 previous => simp
  | case2 previous x rest ih =>
    rw [exists_terminal_cons_iff, or_iff_right nofun]
    simp only [hlast]
    exact ih
  | case3 previous t rest ih =>
    rw [List.mem_append, List.mem_append, exists_terminal_cons_iff]
    simp only [hlast]
    refine or_congr ?_ ih
    simp

/-- **The scan finds what the right-hand side asserts.** -/
theorem mem_ofSymbols_iff : a ∈ ofSymbols firstVT lastVT n none u ↔
    a.production = n ∧ Asserts firstVT lastVT u a.left a.relation a.right := by
  simp only [mem_ofSymbols_iff_exists, Option.or_none, mem_before_iff, mem_after_iff]
  constructor
  · rintro ⟨left, t, right, rfl, ⟨x, hx, l, hl, rfl⟩ | ⟨x, rest, rfl, r, hr, rfl⟩ | ⟨r, hr, rfl⟩⟩
    · obtain ⟨left, rfl⟩ := List.getLast?_eq_some_iff.mp hx
      exact ⟨rfl, .greater (pair_infix_iff.mpr ⟨left, right, by simp⟩) hl⟩
    · exact ⟨rfl, .less (pair_infix_iff.mpr ⟨left, rest, rfl⟩) hr⟩
    · exact ⟨rfl, .equal (neighbours_iff.mpr ⟨left, right, rfl, hr⟩)⟩
  · obtain ⟨l, relation, r, m⟩ := a
    rintro ⟨rfl, h⟩
    cases h with
    | @less _ x h hr =>
      obtain ⟨left, rest, rfl⟩ := pair_infix_iff.mp h
      exact ⟨left, l, _, rfl, Or.inr (Or.inl ⟨x, rest, rfl, r, hr, rfl⟩)⟩
    | equal h =>
      obtain ⟨left, right, rfl, hr⟩ := neighbours_iff.mp h
      exact ⟨left, l, right, rfl, Or.inr (Or.inr ⟨r, hr, rfl⟩)⟩
    | @greater _ x h hl =>
      obtain ⟨left, right, rfl⟩ := pair_infix_iff.mp h
      exact ⟨left ++ [.nonterminal x], r, right, by simp, Or.inl ⟨x, by simp, l, hl, rfl⟩⟩

/-- **All assertions of a grammar** are those of its right-hand sides. -/
theorem mem_all_iff {g : Grammar} : a ∈ all g firstVT lastVT ↔
    ∃ p, g.productions[a.production]? = some p
      ∧ Asserts firstVT lastVT p.rhs a.left a.relation a.right := by
  simp only [all, List.mem_flatMap, Prod.exists, List.mem_zipIdx_iff_getElem?, mem_ofSymbols_iff]
  constructor
  · rintro ⟨p, n, hp, rfl, h⟩
    exact ⟨p, hp, h⟩
  · rintro ⟨p, hp, h⟩
    exact ⟨p, _, hp, rfl, h⟩

end Assertion

/-! ## Cells -/

namespace PrecedenceMatrix

variable {m : PrecedenceMatrix} {l r l' r' : Terminal} {relation : Relation}

/-- A matrix with one cell for every ordered pair. -/
def IsSquare (m : PrecedenceMatrix) : Prop := m.cells.size = m.size * m.size

theorem covers_iff {t : Terminal} : m.covers t = true ↔ t.index < m.size ∧ t ≠ m.epsilon := by
  simp [covers]

/-- Every pair of terminals has a cell of its own. -/
theorem place_inj (hr : r.index < m.size) (hr' : r'.index < m.size) :
    m.place l r = m.place l' r' ↔ l = l' ∧ r = r' := by
  refine ⟨fun h => ?_, fun h => by rw [h.1, h.2]⟩
  have hpos : 0 < m.size := Nat.lt_of_le_of_lt (Nat.zero_le _) hr
  have hleft : l.index = l'.index := by
    have := congrArg (· / m.size) h
    simpa [place, Nat.mul_comm _ m.size, Nat.mul_add_div hpos, Nat.div_eq_of_lt hr,
      Nat.div_eq_of_lt hr'] using this
  have hright : r.index = r'.index := by
    unfold place at h
    rw [hleft] at h
    exact Nat.add_left_cancel h
  exact ⟨congrArg Terminal.mk hleft, congrArg Terminal.mk hright⟩

theorem place_lt (hl : l.index < m.size) (hr : r.index < m.size) :
    m.place l r < m.size * m.size := by
  have hrow : (l.index + 1) * m.size ≤ m.size * m.size := Nat.mul_le_mul_right _ hl
  rw [Nat.add_mul, Nat.one_mul] at hrow
  unfold place
  omega

theorem get?_of_covers (hl : m.covers l = true) (hr : m.covers r = true) :
    m.get? l r = (m.cells[m.place l r]?).getD none := by
  simp [get?, hl, hr]

/-- **Putting a relation into a cell changes this cell only.** -/
theorem get?_set (hm : m.IsSquare) (hl : m.covers l = true) (hr : m.covers r = true) :
    (m.set l r relation).get? l' r' = if l' = l ∧ r' = r then some relation else m.get? l' r' := by
  by_cases hc : m.covers l' = true ∧ m.covers r' = true
  · have hlt : m.place l r < m.cells.size :=
      hm ▸ place_lt (covers_iff.mp hl).1 (covers_iff.mp hr).1
    rw [get?_of_covers (m := m.set l r relation) hc.1 hc.2, get?_of_covers hc.1 hc.2]
    show (((m.cells.setIfInBounds (m.place l r) (some relation)))[m.place l' r']?).getD none = _
    by_cases heq : l' = l ∧ r' = r
    · rw [heq.1, heq.2, if_pos ⟨rfl, rfl⟩, Array.getElem?_setIfInBounds_self_of_lt hlt]
      rfl
    · have hne : m.place l r ≠ m.place l' r' := fun h =>
        heq ((place_inj (covers_iff.mp hc.2).1 (covers_iff.mp hr).1).mp h.symm)
      rw [if_neg heq, Array.getElem?_setIfInBounds_ne hne]
  · have hne : ¬ (l' = l ∧ r' = r) := fun h => hc ⟨h.1 ▸ hl, h.2 ▸ hr⟩
    have hnone : ∀ m' : PrecedenceMatrix, m'.covers = m.covers → m'.get? l' r' = none := by
      intro m' h
      rw [get?, h, if_neg (by simpa using hc)]
    rw [if_neg hne, hnone m rfl, hnone (m.set l r relation) rfl]

@[simp] theorem get?_blank (g : Grammar) (l r : Terminal) : (blank g).get? l r = none := by
  unfold get? blank
  split
  · rw [Array.getElem?_replicate]
    split <;> rfl
  · rfl

end PrecedenceMatrix

/-! ## Filling -/

namespace Filling

variable {g : Grammar} {f : Filling} {done : List Assertion} {a : Assertion}

/-- **The matrix holds the assertions made so far**, and nothing else. -/
structure Holds (g : Grammar) (f : Filling) (done : List Assertion) : Prop where
  isSquare : f.matrix.IsSquare
  covers_iff : ∀ t, f.matrix.covers t = true ↔ g.IsProper (.terminal t)
  get?_iff : ∀ l relation r, f.matrix.get? l r = some relation ↔
    g.IsProper (.terminal l) ∧ g.IsProper (.terminal r)
      ∧ ∃ n, (⟨l, relation, r, n⟩ : Assertion) ∈ done

theorem Holds.blank (g : Grammar) : Holds g ⟨.blank g, [], none⟩ [] where
  isSquare := by simp [PrecedenceMatrix.IsSquare, PrecedenceMatrix.blank]
  covers_iff := fun t => by
    simp [PrecedenceMatrix.covers_iff, PrecedenceMatrix.blank, Grammar.IsProper,
      Grammar.IsDeclared]
  get?_iff := by simp

/-- An assertion about two terminals with a row and a column, and no
relation yet, fills their cell. -/
theorem Holds.set (h : Holds g f done) (hl : f.matrix.covers a.left = true)
    (hr : f.matrix.covers a.right = true) (hnone : f.matrix.get? a.left a.right = none) :
    Holds g { f with matrix := f.matrix.set a.left a.right a.relation, filled := a :: f.filled }
      (done ++ [a]) where
  isSquare := (Array.size_setIfInBounds ..).trans h.isSquare
  covers_iff := h.covers_iff
  get?_iff := fun l relation r => by
    show (f.matrix.set a.left a.right a.relation).get? l r = some relation ↔ _
    rw [PrecedenceMatrix.get?_set h.isSquare hl hr]
    split
    · next heq =>
      obtain ⟨rfl, rfl⟩ := heq
      -- no assertion made before is about this cell
      have hbefore : ∀ relation n, (⟨a.left, relation, a.right, n⟩ : Assertion) ∉ done := by
        intro relation n hmem
        have hsome := (h.get?_iff a.left relation a.right).mpr
          ⟨(h.covers_iff _).mp hl, (h.covers_iff _).mp hr, n, hmem⟩
        rw [hnone] at hsome
        cases hsome
      constructor
      · intro hrel
        obtain rfl := Option.some.inj hrel
        exact ⟨(h.covers_iff _).mp hl, (h.covers_iff _).mp hr, a.production, by simp⟩
      · rintro ⟨-, -, n, hmem⟩
        obtain hmem | hmem := List.mem_append.mp hmem
        · exact absurd hmem (hbefore relation n)
        · rw [← List.mem_singleton.mp hmem]
    · next hne =>
      rw [h.get?_iff]
      refine and_congr_right fun _ => and_congr_right fun _ => exists_congr fun n => ?_
      rw [List.mem_append, List.mem_singleton, or_iff_left]
      rintro rfl
      exact hne ⟨rfl, rfl⟩

/-- An assertion that the matrix need not be changed for, because a
terminal has no row or the relation is there already. -/
theorem Holds.skip (h : Holds g f done)
    (ha : f.matrix.covers a.left = true → f.matrix.covers a.right = true →
      f.matrix.get? a.left a.right = some a.relation) : Holds g f (done ++ [a]) where
  isSquare := h.isSquare
  covers_iff := h.covers_iff
  get?_iff := fun l relation r => by
    constructor
    · intro hsome
      obtain ⟨hl, hr, n, hmem⟩ := (h.get?_iff l relation r).mp hsome
      exact ⟨hl, hr, n, List.mem_append_left _ hmem⟩
    · rintro ⟨hl, hr, n, hmem⟩
      obtain hmem | hmem := List.mem_append.mp hmem
      · exact (h.get?_iff l relation r).mpr ⟨hl, hr, n, hmem⟩
      · obtain rfl := List.mem_singleton.mp hmem
        exact ha ((h.covers_iff l).mpr hl) ((h.covers_iff r).mpr hr)

/-- **One assertion** keeps the invariant, unless it contradicts an earlier
one. -/
theorem Holds.add (h : Holds g f done) (hc : (f.add a).contradiction? = none) :
    Holds g (f.add a) (done ++ [a]) := by
  unfold Filling.add at hc ⊢
  split
  · next hcovers =>
    obtain ⟨hl, hr⟩ : f.matrix.covers a.left = true ∧ f.matrix.covers a.right = true := by
      simpa using hcovers
    rw [if_pos hcovers] at hc
    split
    · next hnone => exact h.set hl hr hnone
    · next existing hsome =>
      simp only [hsome] at hc
      split
      · next heq => exact h.skip fun _ _ => heq ▸ hsome
      · next hne =>
        rw [if_neg hne] at hc
        cases hc
  · next hcovers => exact h.skip fun hl hr => absurd (by simp [hl, hr]) hcovers

/-- **Assertions one after the other** keep the invariant up to the first
contradiction. -/
theorem Holds.addAll {l : List Assertion} (h : Holds g f done)
    (hc : (f.addAll l).contradiction? = none) : Holds g (f.addAll l) (done ++ l) := by
  induction l generalizing f done with
  | nil => rwa [List.append_nil]
  | cons a l ih =>
    rw [Filling.addAll] at hc ⊢
    split
    · next hstop =>
      rw [if_pos hstop] at hc
      simp [hc] at hstop
    · next hgo =>
      rw [if_neg hgo] at hc
      have hstep := h.add (a := a) (by simpa using hgo)
      have hrest := ih hstep hc
      rwa [List.append_assoc, List.singleton_append] at hrest

end Filling

/-! ## The matrix of a grammar -/

/-- **What the productions of a grammar assert.** -/
def Grammar.Asserts (g : Grammar) (l : Terminal) (relation : Relation) (r : Terminal) : Prop :=
  ∃ p ∈ g.productions, GrammarAnalysis.Asserts (g.solveEdge .first).table
    (g.solveEdge .last).table p.rhs l relation r

/-- What is asserted is asserted about proper symbols. -/
theorem Grammar.Asserts.isProper {g : Grammar} (hg : g.WellFormed) (hop : g.OperatorShaped)
    {l r : Terminal} {relation : Relation} (h : g.Asserts l relation r) :
    g.IsProper (.terminal l) ∧ g.IsProper (.terminal r) := by
  obtain ⟨p, hp, h⟩ := h
  have hmem : ∀ {s}, s ∈ p.rhs → g.IsProper s := hop.isProper_of_mem hg hp
  cases h with
  | less h hr =>
    exact ⟨hmem (h.subset (by simp)), hg.isProper_of_mem_solveEdge hop hr⟩
  | equal h => exact ⟨hmem h.mem.1, hmem h.mem.2⟩
  | greater h hl =>
    exact ⟨hg.isProper_of_mem_solveEdge hop hl, hmem (h.subset (by simp))⟩

namespace PrecedenceAnalysis

variable {g : Grammar}

/-- **The verdict is favourable** when the grammar has the right shape and
no assertion contradicts another. -/
theorem verdict_eq_operatorPrecedence_iff :
    (ofGrammar g).verdict = .operatorPrecedence ↔ g.OperatorShaped
      ∧ (Filling.ofGrammar g (g.solveEdge .first).table
          (g.solveEdge .last).table).contradiction? = none := by
  rw [← Grammar.shapeFault?_eq_none_iff]
  unfold ofGrammar verdict
  cases g.shapeFault? with
  | some fault => simp
  | none =>
    simp only [true_and]
    split
    · next c hc => simp [hc]
    · next hc => simp [hc]

/-- **A cell of the matrix holds a relation exactly when some production
asserts it.** -/
theorem get?_matrix_iff (hg : g.WellFormed)
    (hv : (ofGrammar g).verdict = .operatorPrecedence) :
    ∃ m, (ofGrammar g).matrix? = some m
      ∧ ∀ l relation r, m.get? l r = some relation ↔ g.Asserts l relation r := by
  obtain ⟨hop, hc⟩ := verdict_eq_operatorPrecedence_iff.mp hv
  refine ⟨(Filling.ofGrammar g (g.solveEdge .first).table (g.solveEdge .last).table).matrix,
    by simp [ofGrammar, matrix?, Grammar.shapeFault?_eq_none_iff.mpr hop, hc],
    fun l relation r => ?_⟩
  have hholds := (Filling.Holds.blank g).addAll hc
  rw [List.nil_append] at hholds
  have hall : (∃ n, (⟨l, relation, r, n⟩ : Assertion) ∈ Assertion.all g (g.solveEdge .first).table
      (g.solveEdge .last).table) ↔ g.Asserts l relation r := by
    constructor
    · rintro ⟨n, hmem⟩
      obtain ⟨p, hp, h⟩ := Assertion.mem_all_iff.mp hmem
      exact ⟨p, List.mem_of_getElem? hp, h⟩
    · rintro ⟨p, hp, h⟩
      obtain ⟨n, hn⟩ := List.mem_iff_getElem?.mp hp
      exact ⟨n, Assertion.mem_all_iff.mpr ⟨p, hn, h⟩⟩
  refine (hholds.get?_iff l relation r).trans ?_
  rw [hall, ← and_assoc]
  exact and_iff_right_of_imp (Grammar.Asserts.isProper hg hop)

end PrecedenceAnalysis

end GrammarAnalysis
