import GrammarAnalysis.Proofs.AssertionOrder
import Mathlib.Data.Prod.Lex
import Mathlib.Order.Bounds.Basic

/-!
# The outcome of the precedence tests

Three tests are made, each over all productions and each only if the one
before it is passed. The verdict tells the first test that fails, and where
it fails first: for adjacent nonterminals the first place in the order of the
productions and then of the positions (`isLeast_of_adjacentNonterminals?`),
for the empty string the first production. A place with adjacent nonterminals
is therefore reported before an earlier production of the empty string.

The sets and the matrix are not looked up in the verdict. They exist because
the analysis got so far, and `verdict_classified` says that the two agree in
every case.

That the first test looks at single right-hand sides is enough. Adjacent
nonterminals stand in some sentential form exactly when they stand in some
right-hand side, also in a grammar with productions of the empty string
(`separated_iff_of_derives`): what vanishes between two nonterminals would be
a nonterminal, and adjacent to both.
-/

namespace GrammarAnalysis

/-! ## Searching a numbered list -/

/-- A search through a numbered list ends at the first element that has a
result. -/
theorem exists_of_findSome?_zipIdx {α β : Type} {f : α × Nat → Option β} {l : List α} {b : β}
    (h : l.zipIdx.findSome? f = some b) :
    ∃ n a, l[n]? = some a ∧ f (a, n) = some b
      ∧ ∀ m a', m < n → l[m]? = some a' → f (a', m) = none := by
  obtain ⟨before, ⟨a, n⟩, after, hl, hb, hbefore⟩ := List.findSome?_eq_some_iff.mp h
  have hsorted := pairwise_zipIdx l
  rw [hl, List.pairwise_append, List.pairwise_cons] at hsorted
  have ha : (a, n) ∈ l.zipIdx := by simp [hl]
  refine ⟨n, a, List.mem_zipIdx_iff_getElem?.mp ha, hb, fun m a' hlt hm => hbefore (a', m) ?_⟩
  have hmem : (a', m) ∈ before ++ (a, n) :: after := hl ▸ List.mem_zipIdx_iff_getElem?.mpr hm
  obtain hmem | hmem := List.mem_append.mp hmem
  · exact hmem
  · -- the elements from here on have no smaller numbers
    obtain heq | hmem := List.mem_cons.mp hmem
    · cases heq
      exact absurd hlt (Nat.lt_irrefl n)
    · have hgt := hsorted.2.1.1 (a', m) hmem
      exact absurd hlt (Nat.lt_asymm hgt)

/-! ## Places with adjacent nonterminals -/

/-- Whether a nonterminal stands at a position of a string, and another one
directly after it. -/
def AdjacentIn (u : List Symbol) (i : Nat) : Prop :=
  ∃ x y, u[i]? = some (.nonterminal x) ∧ u[i + 1]? = some (.nonterminal y)

section AdjacentIn

variable {u : List Symbol} {s : Symbol} {i n m : Nat}

@[simp] theorem adjacentIn_cons_succ : AdjacentIn (s :: u) (i + 1) ↔ AdjacentIn u i := by
  simp [AdjacentIn]

@[simp] theorem adjacentIn_cons_zero :
    AdjacentIn (s :: u) 0 ↔ ∃ x y, s = .nonterminal x ∧ u.head? = some (.nonterminal y) := by
  simp [AdjacentIn, List.head?_eq_getElem?]

theorem separated_iff_forall_not_adjacentIn : Separated u ↔ ∀ i, ¬ AdjacentIn u i := by
  induction u with
  | nil => simp [AdjacentIn]
  | cons s u ih =>
    have hapart : (∀ s' ∈ u.head?, s.Apart s') ↔ ¬ AdjacentIn (s :: u) 0 := by
      rw [adjacentIn_cons_zero]
      cases u.head? with
      | none => simp
      | some s' => cases s <;> cases s' <;> simp [Symbol.Apart]
    rw [Separated, List.isChain_cons, hapart, ← Separated, ih]
    constructor
    · rintro ⟨hzero, hsucc⟩ (_ | i)
      · exact hzero
      · exact mt adjacentIn_cons_succ.mp (hsucc i)
    · exact fun h => ⟨h 0, fun i => mt adjacentIn_cons_succ.mpr (h (i + 1))⟩

/-- The first place, behind a first symbol that is none. -/
theorem isLeast_adjacentIn_cons (hs : ¬ AdjacentIn (s :: u) 0)
    (h : IsLeast {i | AdjacentIn u i} i) : IsLeast {i | AdjacentIn (s :: u) i} (i + 1) := by
  refine ⟨adjacentIn_cons_succ.mpr h.1, ?_⟩
  rintro (_ | j) hj
  · exact absurd hj hs
  · exact Nat.succ_le_succ (h.2 (adjacentIn_cons_succ.mp hj))

/-- **The scan of a right-hand side finds the first place.** -/
theorem isLeast_of_adjacentFrom (h : adjacentFrom n u = some m) :
    ∃ i, m = n + i ∧ IsLeast {i | AdjacentIn u i} i := by
  fun_induction adjacentFrom n u with
  | case1 n x y rest =>
    cases h
    exact ⟨0, rfl, adjacentIn_cons_zero.mpr ⟨x, y, rfl, rfl⟩, fun _ _ => Nat.zero_le _⟩
  | case2 n s rest hs ih =>
    obtain ⟨i, rfl, hi⟩ := ih h
    refine ⟨i + 1, by omega, isLeast_adjacentIn_cons ?_ hi⟩
    rw [adjacentIn_cons_zero]
    rintro ⟨x, y, rfl, hy⟩
    obtain ⟨rest', rfl⟩ := List.head?_eq_some_iff.mp hy
    exact hs x y rest' rfl rfl
  | case3 n => cases h

end AdjacentIn

namespace Grammar

variable {g : Grammar} {n position : Nat}

/-- **A place with adjacent nonterminals**: a production number and a
position in the right-hand side. -/
def AdjacentAt (g : Grammar) (n position : Nat) : Prop :=
  ∃ p, g.productions[n]? = some p ∧ AdjacentIn p.rhs position

/-- The places with adjacent nonterminals, in lexicographic order. -/
def adjacentPlaces (g : Grammar) : Set (ℕ ×ₗ ℕ) :=
  {q | g.AdjacentAt (ofLex q).1 (ofLex q).2}

/-- Whether the production of a number is the empty string. -/
def EpsilonAt (g : Grammar) (n : Nat) : Prop :=
  ∃ p, g.productions[n]? = some p ∧ p.rhs = [.terminal g.epsilon]

theorem adjacentNonterminals?_eq_none_iff_places :
    g.adjacentNonterminals? = none ↔ ∀ n position, ¬ g.AdjacentAt n position := by
  simp only [adjacentNonterminals?_eq_none_iff, separated_iff_forall_not_adjacentIn, AdjacentAt,
    List.mem_iff_getElem?]
  constructor
  · rintro h n position ⟨p, hp, hposition⟩
    exact h p ⟨n, hp⟩ position hposition
  · rintro h p ⟨n, hp⟩ position hposition
    exact h n position ⟨p, hp, hposition⟩

theorem epsilonProduction?_eq_none_iff_places :
    g.epsilonProduction? = none ↔ ∀ n, ¬ g.EpsilonAt n := by
  simp only [epsilonProduction?_eq_none_iff, EpsilonAt, List.mem_iff_getElem?]
  constructor
  · rintro h n ⟨p, hp, hrhs⟩
    exact h p ⟨n, hp⟩ hrhs
  · rintro h p ⟨n, hp⟩ hrhs
    exact h n ⟨p, hp, hrhs⟩

/-- **Of the places with adjacent nonterminals the first one is found.** -/
theorem isLeast_of_adjacentNonterminals? {fault : ShapeFault}
    (h : g.adjacentNonterminals? = some fault) :
    ∃ n position, fault = .adjacentNonterminals n position
      ∧ IsLeast g.adjacentPlaces (toLex (n, position)) := by
  obtain ⟨n, p, hp, hfault, hbefore⟩ := exists_of_findSome?_zipIdx h
  obtain ⟨position, hposition, rfl⟩ := Option.map_eq_some_iff.mp hfault
  obtain ⟨i, rfl, hi⟩ := isLeast_of_adjacentFrom hposition
  rw [Nat.zero_add]
  refine ⟨n, i, rfl, ⟨p, hp, hi.1⟩, ?_⟩
  rintro ⟨m, j⟩ ⟨q, hq, hj⟩
  refine Prod.Lex.toLex_le_toLex.mpr ?_
  obtain hlt | rfl | hgt := Nat.lt_trichotomy n m
  · exact Or.inl hlt
  · obtain rfl : p = q := Option.some.inj (hp.symm.trans hq)
    exact Or.inr ⟨rfl, hi.2 hj⟩
  · -- an earlier right-hand side has no such place
    have hsep := adjacentFrom_eq_none_iff.mp (Option.map_eq_none_iff.mp (hbefore m q hgt hq))
    exact absurd hj (separated_iff_forall_not_adjacentIn.mp hsep j)

/-- **Of the productions of the empty string the first one is found.** -/
theorem isLeast_of_epsilonProduction? {fault : ShapeFault}
    (h : g.epsilonProduction? = some fault) :
    ∃ n, fault = .epsilonProduction n ∧ IsLeast {m | g.EpsilonAt m} n := by
  obtain ⟨n, hn, rfl⟩ := Option.map_eq_some_iff.mp h
  obtain ⟨hlt, hrhs, hbefore⟩ := List.findIdx?_eq_some_iff_getElem.mp hn
  refine ⟨n, rfl, ⟨_, List.getElem?_eq_getElem hlt, by simpa [isEpsilonRhs] using hrhs⟩, ?_⟩
  rintro m ⟨q, hq, hrhs'⟩
  by_contra hle
  obtain ⟨hm, rfl⟩ := List.getElem?_eq_some_iff.mp hq
  exact hbefore m (Nat.lt_of_not_le hle) (by simp [isEpsilonRhs, hrhs'])

/-! ## Adjacent nonterminals in sentential forms -/

/-- **The first test decides about all sentential forms**: if a right-hand
side has adjacent nonterminals, its left-hand side derives them. -/
theorem separated_iff_of_derives (hg : g.WellFormed) :
    (∀ p ∈ g.productions, Separated p.rhs) ↔
      ∀ x : Nonterminal, x.index < g.nonterminals.length →
        ∀ u, g.Derives [.nonterminal x] u → Separated u := by
  constructor
  · exact fun h x _ u hu => separated_of_derives h hu (Separated.singleton _)
  · intro h p hp
    have hself := h p.lhs (hg.lhs_lt_of_mem hp) _ (Derives.of_mem hp)
    obtain ⟨hrhs, -⟩ | ⟨-, he⟩ := (hg.isRhs_of_mem hp).expansion_cases
    · rw [hrhs]
      exact Separated.singleton _
    · rwa [he] at hself

/-! ## Brackets side by side -/

/-- Brackets inside and beside each other: `S->(S)|NULL|SS`. The empty
string is an earlier production than the one with adjacent nonterminals. -/
def sequences : Grammar where
  nonterminals := ["S"]
  terminals := ["(", ")", "NULL"]
  start := ⟨0⟩
  rules :=
    [⟨⟨0⟩, [[.terminal ⟨0⟩, .nonterminal ⟨0⟩, .terminal ⟨1⟩], [.terminal ⟨2⟩],
      [.nonterminal ⟨0⟩, .nonterminal ⟨0⟩]]⟩]

theorem constructed_sequences : sequences.Constructed :=
  have h : (ofLists ["S"] ["(", ")"] ["S->(S)|NULL|SS"] "S").toOption = some sequences := by
    decide +kernel
  .ofLists (eq_ok_of_toOption h)

end Grammar

/-! ## The verdict -/

/-- **A verdict without its details.** -/
inductive VerdictKind where
  /-- All tests are passed. -/
  | operatorPrecedence
  /-- Some right-hand side has adjacent nonterminals. -/
  | adjacentNonterminals
  /-- Some production is the empty string. -/
  | epsilonProduction
  /-- Two asserted relations contradict each other. -/
  | contradictory
deriving DecidableEq, Repr

/-- The kind of a verdict. -/
def PrecedenceVerdict.kind : PrecedenceVerdict → VerdictKind
  | operatorPrecedence => .operatorPrecedence
  | misshapen (.adjacentNonterminals _ _) => .adjacentNonterminals
  | misshapen (.epsilonProduction _) => .epsilonProduction
  | contradictory _ => .contradictory

theorem PrecedenceVerdict.eq_operatorPrecedence_iff {v : PrecedenceVerdict} :
    v = .operatorPrecedence ↔ v.kind = .operatorPrecedence := by
  rcases v with _ | (_ | _) | _ <;> simp [kind]

namespace PrecedenceAnalysis

open Grammar (brackets constructed_brackets sequences constructed_sequences)

variable {g : Grammar} {fault : ShapeFault}

/-- A grammar of the right shape is judged by its matrix. -/
theorem verdict_of_shapeFault? (h : g.shapeFault? = none) :
    (ofGrammar g).verdict = match g.filling.contradiction? with
      | some c => .contradictory c
      | none => .operatorPrecedence := by
  simp only [ofGrammar, h, verdict]
  rfl

/-- **The first test that is not passed decides**, and names the first place
where it fails. -/
theorem verdict_cases (g : Grammar) :
    (∃ n position, IsLeast g.adjacentPlaces (toLex (n, position))
        ∧ (ofGrammar g).verdict = .misshapen (.adjacentNonterminals n position))
      ∨ ((∀ n position, ¬ g.AdjacentAt n position) ∧ ∃ n, IsLeast {m | g.EpsilonAt m} n
        ∧ (ofGrammar g).verdict = .misshapen (.epsilonProduction n))
      ∨ ((∀ n position, ¬ g.AdjacentAt n position) ∧ (∀ n, ¬ g.EpsilonAt n)
        ∧ g.shapeFault? = none) := by
  rw [← Grammar.adjacentNonterminals?_eq_none_iff_places,
    ← Grammar.epsilonProduction?_eq_none_iff_places, Grammar.shapeFault?_eq_none_iff_and]
  cases ha : g.adjacentNonterminals? with
  | some fault =>
    obtain ⟨n, position, rfl, hleast⟩ := Grammar.isLeast_of_adjacentNonterminals? ha
    exact Or.inl ⟨n, position, hleast, by simp [ofGrammar, verdict, Grammar.shapeFault?, ha]⟩
  | none =>
    refine Or.inr ?_
    cases he : g.epsilonProduction? with
    | some fault =>
      obtain ⟨n, rfl, hleast⟩ := Grammar.isLeast_of_epsilonProduction? he
      exact Or.inl ⟨rfl, n, hleast, by simp [ofGrammar, verdict, Grammar.shapeFault?, ha, he]⟩
    | none => exact Or.inr ⟨rfl, rfl, rfl, rfl⟩

/-- **The verdict names the first place with adjacent nonterminals**, if
there is one. -/
theorem verdict_eq_adjacentNonterminals_iff {n position : Nat} :
    (ofGrammar g).verdict = .misshapen (.adjacentNonterminals n position) ↔
      IsLeast g.adjacentPlaces (toLex (n, position)) := by
  obtain ⟨m, i, hleast, hv⟩ | ⟨hnone, m, -, hv⟩ | ⟨hnone, -, hshape⟩ := verdict_cases g
  · rw [hv]
    constructor
    · rintro ⟨⟩
      exact hleast
    · intro h
      cases h.unique hleast
      rfl
  · exact iff_of_false (by simp [hv]) fun h => hnone n position h.1
  · refine iff_of_false ?_ fun h => hnone n position h.1
    rw [verdict_of_shapeFault? hshape]
    cases g.filling.contradiction? <;> simp

/-- **The verdict names the first production of the empty string**, if there
is one and no adjacent nonterminals. -/
theorem verdict_eq_epsilonProduction_iff {n : Nat} :
    (ofGrammar g).verdict = .misshapen (.epsilonProduction n) ↔
      (∀ m position, ¬ g.AdjacentAt m position) ∧ IsLeast {m | g.EpsilonAt m} n := by
  obtain ⟨m, i, hleast, hv⟩ | ⟨hnone, m, hleast, hv⟩ | ⟨-, hnone, hshape⟩ := verdict_cases g
  · exact iff_of_false (by simp [hv]) fun h => h.1 m i hleast.1
  · rw [hv, and_iff_right hnone]
    constructor
    · rintro ⟨⟩
      exact hleast
    · intro h
      rw [h.unique hleast]
  · refine iff_of_false ?_ fun h => hnone n h.2.1
    rw [verdict_of_shapeFault? hshape]
    cases g.filling.contradiction? <;> simp

/-- The verdict is about relations when the shape is right. -/
theorem verdict_eq_operatorPrecedence_or_contradictory_iff :
    ((ofGrammar g).verdict = .operatorPrecedence ∨ ∃ c, (ofGrammar g).verdict = .contradictory c)
      ↔ g.shapeFault? = none := by
  cases h : g.shapeFault? with
  | some fault => simp [ofGrammar, verdict, h]
  | none =>
    rw [verdict_of_shapeFault? h]
    cases g.filling.contradiction? <;> simp

/-- **The kind of a verdict is the first test that is not passed.** -/
theorem kind_verdict (g : Grammar) : (ofGrammar g).verdict.kind =
    if g.adjacentNonterminals? = none then
      if g.epsilonProduction? = none then
        if g.filling.contradiction? = none then .operatorPrecedence else .contradictory
      else .epsilonProduction
    else .adjacentNonterminals := by
  have hadjacent := Grammar.adjacentNonterminals?_eq_none_iff_places (g := g)
  have hepsilon := Grammar.epsilonProduction?_eq_none_iff_places (g := g)
  obtain ⟨n, i, hleast, hv⟩ | ⟨hnone, n, hleast, hv⟩ | ⟨hnone, hnone', hshape⟩ := verdict_cases g
  · rw [hv, if_neg fun h => hadjacent.mp h n i hleast.1]
    rfl
  · rw [hv, if_pos (hadjacent.mpr hnone), if_neg fun h => hepsilon.mp h n hleast.1]
    rfl
  · rw [verdict_of_shapeFault? hshape, if_pos (hadjacent.mpr hnone), if_pos (hepsilon.mpr hnone')]
    cases g.filling.contradiction? <;> rfl

/-- **Grammars that fail the same tests have verdicts of one kind.** -/
theorem kind_verdict_congr {g' : Grammar}
    (hadjacent : g'.adjacentNonterminals? = none ↔ g.adjacentNonterminals? = none)
    (hepsilon : g'.epsilonProduction? = none ↔ g.epsilonProduction? = none)
    (hcontradiction : g.OperatorShaped →
      (g'.filling.contradiction? = none ↔ g.filling.contradiction? = none)) :
    (ofGrammar g').verdict.kind = (ofGrammar g).verdict.kind := by
  rw [kind_verdict, kind_verdict]
  simp only [hadjacent, hepsilon]
  split
  · next ha =>
    split
    · next he =>
      have hop : g.OperatorShaped := Grammar.shapeFault?_eq_none_iff.mp
        (Grammar.shapeFault?_eq_none_iff_and.mpr ⟨ha, he⟩)
      simp only [hcontradiction hop]
    · rfl
  · rfl

theorem matrix?_eq_none_iff (a : PrecedenceAnalysis) :
    a.matrix? = none ↔ a.verdict ≠ .operatorPrecedence := by
  unfold matrix? verdict
  cases a.relations with
  | error fault => simp
  | ok r =>
    obtain ⟨_, _, _, _, contradiction?⟩ := r
    cases contradiction? <;> simp

/-- FIRSTVT or LASTVT of a nonterminal. -/
def edgeVT? (a : PrecedenceAnalysis) : Edge → Nonterminal → Option TerminalSet
  | .first => a.firstVT?
  | .last => a.lastVT?

theorem edgeVT?_eq_some (hop : g.OperatorShaped) (edge : Edge) (x : Nonterminal) :
    (ofGrammar g).edgeVT? edge x = some ((g.solveEdge edge).table.get x) := by
  cases edge with
  | first => exact (edgeSets_eq hop x).1
  | last => exact (edgeSets_eq hop x).2

/-- A grammar of another shape has neither FIRSTVT nor LASTVT. -/
theorem edgeVT?_eq_none (hop : ¬ g.OperatorShaped) (edge : Edge) (x : Nonterminal) :
    (ofGrammar g).edgeVT? edge x = none := by
  obtain ⟨fault, hfault⟩ :=
    Option.ne_none_iff_exists'.mp (mt Grammar.shapeFault?_eq_none_iff.mp hop)
  cases edge <;> simp [ofGrammar, edgeVT?, firstVT?, lastVT?, hfault, Except.toOption]

/-- **Grammars of which both or neither have the right shape** both have
FIRSTVT and LASTVT, or neither has. -/
theorem edgeVT?_eq_map {g' : Grammar} (hop : g'.OperatorShaped ↔ g.OperatorShaped)
    {edge edge' : Edge} {x x' : Nonterminal} {k : TerminalSet → TerminalSet}
    (hk : (g'.solveEdge edge').table.get x' = k ((g.solveEdge edge).table.get x)) :
    (ofGrammar g').edgeVT? edge' x' = ((ofGrammar g).edgeVT? edge x).map k := by
  by_cases h : g.OperatorShaped
  · rw [edgeVT?_eq_some h, edgeVT?_eq_some (hop.mpr h), hk, Option.map_some]
  · rw [edgeVT?_eq_none h, edgeVT?_eq_none (mt hop.mp h), Option.map_none]

/-- **Grammars with verdicts of one kind both have a matrix, or neither
has.** What holds of two matrices is read off the relations that are
asserted. -/
theorem rel_matrix? {g' : Grammar} (hg : g.WellFormed) (hg' : g'.WellFormed)
    (hkind : (ofGrammar g').verdict.kind = (ofGrammar g).verdict.kind)
    {R : PrecedenceMatrix → PrecedenceMatrix → Prop}
    (hR : ∀ m m', (∀ l relation r, m.get? l r = some relation ↔ g.Asserts l relation r) →
      (∀ l relation r, m'.get? l r = some relation ↔ g'.Asserts l relation r) → R m m') :
    Option.Rel R (ofGrammar g).matrix? (ofGrammar g').matrix? := by
  have hv_iff : (ofGrammar g').verdict = .operatorPrecedence ↔
      (ofGrammar g).verdict = .operatorPrecedence := by
    rw [PrecedenceVerdict.eq_operatorPrecedence_iff, hkind,
      ← PrecedenceVerdict.eq_operatorPrecedence_iff]
  by_cases hv : (ofGrammar g).verdict = .operatorPrecedence
  · obtain ⟨m, hm, hget⟩ := get?_matrix_iff hg hv
    obtain ⟨m', hm', hget'⟩ := get?_matrix_iff hg' (hv_iff.mpr hv)
    rw [hm, hm']
    exact .some (hR m m' hget hget')
  · rw [(matrix?_eq_none_iff _).mpr hv, (matrix?_eq_none_iff _).mpr (mt hv_iff.mp hv)]
    exact .none

/-- The first test is passed when no right-hand side has adjacent
nonterminals. -/
theorem isOperatorGrammar_iff :
    (ofGrammar g).isOperatorGrammar = true ↔ ∀ p ∈ g.productions, Separated p.rhs := by
  rw [← Grammar.adjacentNonterminals?_eq_none_iff,
    Grammar.adjacentNonterminals?_eq_none_iff_places]
  unfold isOperatorGrammar
  obtain ⟨n, i, hleast, hv⟩ | ⟨hnone, n, -, hv⟩ | ⟨hnone, -, hshape⟩ := verdict_cases g
  · rw [hv]
    exact iff_of_false Bool.false_ne_true fun h => h n i hleast.1
  · rw [hv]
    exact iff_of_true rfl hnone
  · rw [verdict_of_shapeFault? hshape]
    refine iff_of_true ?_ hnone
    cases g.filling.contradiction? <;> rfl

/-- **The verdict is complete, and all else agrees with it.** A grammar is an
operator grammar exactly when no nonterminal derives a form with adjacent
nonterminals. The verdict is the first place with adjacent nonterminals if
there is one, else the first production of the empty string if there is one,
else what filling the matrix comes to. FIRSTVT and LASTVT exist for all
nonterminals, and otherwise for none, exactly when the shape is right; the
matrix exists exactly when the verdict is favourable. -/
theorem verdict_classified (hg : g.Constructed) :
    let a := ofGrammar g
    (a.isOperatorGrammar = true ↔ ∀ x : Nonterminal, x.index < g.nonterminals.length →
        ∀ u, g.Derives [.nonterminal x] u → Separated u)
      ∧ ((∃ n position, a.verdict = .misshapen (.adjacentNonterminals n position)) ↔
        ∃ n position, g.AdjacentAt n position)
      ∧ (∀ n position, a.verdict = .misshapen (.adjacentNonterminals n position) ↔
        IsLeast g.adjacentPlaces (toLex (n, position)))
      ∧ ((∃ n, a.verdict = .misshapen (.epsilonProduction n)) ↔
        (∀ m position, ¬ g.AdjacentAt m position) ∧ ∃ n, g.EpsilonAt n)
      ∧ (∀ n, a.verdict = .misshapen (.epsilonProduction n) ↔
        (∀ m position, ¬ g.AdjacentAt m position) ∧ IsLeast {m | g.EpsilonAt m} n)
      ∧ ((∀ n position, ¬ g.AdjacentAt n position) → (∀ n, ¬ g.EpsilonAt n) →
        a.verdict = match g.filling.contradiction? with
          | some c => .contradictory c
          | none => .operatorPrecedence)
      ∧ ((∀ x : Nonterminal, x.index < g.nonterminals.length →
          (a.firstVT? x).isSome = true ∧ (a.lastVT? x).isSome = true) ↔
        (∃ c, a.verdict = .contradictory c) ∨ a.verdict = .operatorPrecedence)
      ∧ (a.matrix?.isSome = true ↔ a.verdict = .operatorPrecedence)
      ∧ (a.isOperatorPrecedence = true ↔ a.verdict = .operatorPrecedence) := by
  intro a
  have hwf := hg.wellFormed
  refine ⟨?_, ⟨?_, ?_⟩, fun n position => verdict_eq_adjacentNonterminals_iff, ⟨?_, ?_⟩,
    fun n => verdict_eq_epsilonProduction_iff, fun hadjacent hepsilon => ?_, ?_, ?_,
    decide_eq_true_iff⟩
  · rw [isOperatorGrammar_iff, Grammar.separated_iff_of_derives hwf]
  · rintro ⟨n, position, hv⟩
    exact ⟨n, position, (verdict_eq_adjacentNonterminals_iff.mp hv).1⟩
  · rintro ⟨n, position, h⟩
    obtain ⟨m, i, -, hv⟩ | ⟨hnone, -⟩ | ⟨hnone, -⟩ := verdict_cases g
    · exact ⟨m, i, hv⟩
    · exact absurd h (hnone n position)
    · exact absurd h (hnone n position)
  · rintro ⟨n, hv⟩
    obtain ⟨hnone, hleast⟩ := verdict_eq_epsilonProduction_iff.mp hv
    exact ⟨hnone, n, hleast.1⟩
  · rintro ⟨hnone, n, h⟩
    obtain ⟨m, i, hleast, -⟩ | ⟨-, m, -, hv⟩ | ⟨-, hnone', -⟩ := verdict_cases g
    · exact absurd hleast.1 (hnone m i)
    · exact ⟨m, hv⟩
    · exact absurd h (hnone' n)
  · obtain ⟨m, i, hleast, -⟩ | ⟨-, m, hleast, -⟩ | ⟨-, -, hshape⟩ := verdict_cases g
    · exact absurd hleast.1 (hadjacent m i)
    · exact absurd hleast.1 (hepsilon m)
    · exact verdict_of_shapeFault? hshape
  · rw [or_comm, verdict_eq_operatorPrecedence_or_contradictory_iff,
      Grammar.shapeFault?_eq_none_iff]
    constructor
    · intro hsome
      by_contra hop
      have hstart := (hsome g.start hwf.start_declared).1
      have hnone : (ofGrammar g).firstVT? g.start = none := edgeVT?_eq_none hop .first g.start
      rw [hnone] at hstart
      cases hstart
    · intro hop x _
      rw [(edgeSets_eq hop x).1, (edgeSets_eq hop x).2]
      exact ⟨rfl, rfl⟩
  · rw [← not_iff_not, Bool.not_eq_true, Option.isSome_eq_false_iff, Option.isNone_iff_eq_none]
    exact matrix?_eq_none_iff a

/-- Brackets side by side are reported for their adjacent nonterminals, and
derive a form with some; the grammar of brackets is reported for an empty
string and derives none. -/
theorem verdict_classified_sequences :
    sequences.Constructed
      ∧ IsLeast sequences.adjacentPlaces (toLex (2, 0)) ∧ sequences.EpsilonAt 1
      ∧ (∃ x : Nonterminal, x.index < 1 ∧ ∃ u, sequences.Derives [.nonterminal x] u ∧ ¬ Separated u)
      ∧ brackets.Constructed ∧ IsLeast {n | brackets.EpsilonAt n} 1
      ∧ ∀ u, brackets.Derives [.nonterminal ⟨0⟩] u → Separated u := by
  obtain ⟨hgrammar, -, hplace, -⟩ := verdict_classified constructed_sequences
  obtain ⟨hgrammar', -, -, -, hepsilon, -⟩ := verdict_classified constructed_brackets
  refine ⟨constructed_sequences, (hplace 2 0).mp (by decide +kernel), ⟨_, rfl, rfl⟩, ?_,
    constructed_brackets, ((hepsilon 1).mp (by decide +kernel)).2,
    hgrammar'.mp (by decide +kernel) ⟨0⟩ (by decide)⟩
  by_contra hnone
  push Not at hnone
  exact absurd (hgrammar.mpr hnone) (by decide +kernel)

end PrecedenceAnalysis

end GrammarAnalysis
