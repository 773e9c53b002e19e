import GrammarAnalysis.Proofs.MatrixCells
import GrammarAnalysis.Proofs.Neighbours

/-!
# The first contradiction

When the productions of a grammar assert two different relations for one
pair of terminals, there is no matrix, and one contradiction is reported.
This module says which one. Assertions are made in a fixed order: by
production, then by the position of the scanned terminal in the right-hand
side, and for one terminal first the relations to LASTVT of the nonterminal
before it, then those to FIRSTVT of the nonterminal after it, then the
relation to the next terminal, sets being read in ascending order. This is
the lexicographic order of the places `Assertion.place`, and
`pairwise_placed` shows that the list of all assertions ascends in it.

Filling stops at the first assertion that finds another relation in its
cell. All assertions before it agree with one another, because the matrix
holds all of them (`Filling.Holds`), and one of them filled the cell
(`isFirstContradiction`). Whether filling stops at all does not depend on
the order: there is a matrix exactly when the assertions agree
(`contradiction?_eq_none_iff`).
-/

namespace GrammarAnalysis

/-! ## Places -/

/-- When a terminal is scanned, relations are asserted in this order. -/
def Relation.turn : Relation → Nat
  | greater => 0
  | less => 1
  | equal => 2

/-- **What is asserted at one position of a right-hand side**, that of the
scanned terminal. -/
inductive AssertsAt (firstVT lastVT : SetTable) (rhs : List Symbol) :
    Nat → Terminal → Relation → Terminal → Prop
  | greater {i : Nat} {l r : Terminal} {x : Nonterminal} (hx : rhs[i]? = some (.nonterminal x))
    (hr : rhs[i + 1]? = some (.terminal r)) (hl : l ∈ lastVT.get x) :
    AssertsAt firstVT lastVT rhs (i + 1) l .greater r
  | less {i : Nat} {l r : Terminal} {x : Nonterminal} (hl : rhs[i]? = some (.terminal l))
    (hx : rhs[i + 1]? = some (.nonterminal x)) (hr : r ∈ firstVT.get x) :
    AssertsAt firstVT lastVT rhs i l .less r
  | equal {i : Nat} {l r : Terminal} (hl : rhs[i]? = some (.terminal l))
    (hr : Opens (rhs.drop (i + 1)) r) : AssertsAt firstVT lastVT rhs i l .equal r

theorem AssertsAt.lt_length {firstVT lastVT : SetTable} {rhs : List Symbol} {i : Nat}
    {l r : Terminal} {relation : Relation} (h : AssertsAt firstVT lastVT rhs i l relation r) :
    i < rhs.length := by
  have hlt : ∀ {k s}, rhs[k]? = some s → k < rhs.length := fun h =>
    (List.getElem?_eq_some_iff.mp h).1
  cases h with
  | greater hx hr hl => exact hlt hr
  | less hl hx hr => exact hlt hl
  | equal hl hr => exact hlt hl

namespace Assertion

variable {firstVT lastVT : SetTable} {n i : Nat} {t : Terminal} {a b : Assertion}
  {previous : Option Symbol} {u rest : List Symbol} {s : Symbol} {g : Grammar}

/-- The terminal that is related to the scanned one. -/
def partner (a : Assertion) : Terminal :=
  match a.relation with
  | .greater => a.left
  | .less | .equal => a.right

/-- **The place of an assertion in the scan of a grammar**, given the
position of the scanned terminal. Places are compared lexicographically. -/
def place (a : Assertion) (position : Nat) : ℕ ×ₗ ℕ ×ₗ ℕ ×ₗ ℕ :=
  toLex (a.production, toLex (position, toLex (a.relation.turn, a.partner.index)))

/-- Before the first symbol stands `previous`. -/
def symbolBefore (previous : Option Symbol) (u : List Symbol) : Nat → Option Symbol
  | 0 => previous
  | i + 1 => u[i]?

/-- **The assertions made at one position.** -/
def atPosition (firstVT lastVT : SetTable) (n : Nat) (previous : Option Symbol)
    (u : List Symbol) (i : Nat) : List Assertion :=
  match u[i]? with
  | some (.terminal t) =>
    before lastVT n t (symbolBefore previous u i) ++ after firstVT n t (u.drop (i + 1))
  | _ => []

theorem atPosition_cons_succ : atPosition firstVT lastVT n previous (s :: u) (i + 1) =
    atPosition firstVT lastVT n (some s) u i := by
  have hbefore : symbolBefore previous (s :: u) (i + 1) = symbolBefore (some s) u i := by
    cases i <;> rfl
  rw [atPosition, hbefore, List.getElem?_cons_succ, List.drop_succ_cons, atPosition]

/-- **The scan of a right-hand side goes from position to position.** -/
theorem ofSymbols_eq_flatMap : ofSymbols firstVT lastVT n previous u =
    (List.range u.length).flatMap (atPosition firstVT lastVT n previous u) := by
  fun_induction ofSymbols firstVT lastVT n previous u with
  | case1 previous => rfl
  | case2 previous x rest ih =>
    rw [ih, List.length_cons, List.range_succ_eq_map, List.flatMap_cons, List.flatMap_map]
    simp only [atPosition_cons_succ]
    rfl
  | case3 previous t rest ih =>
    rw [ih, List.length_cons, List.range_succ_eq_map, List.flatMap_cons, List.flatMap_map]
    simp only [atPosition_cons_succ]
    rfl

theorem mem_atPosition_iff : a ∈ atPosition firstVT lastVT n none u i ↔
    a.production = n ∧ AssertsAt firstVT lastVT u i a.left a.relation a.right := by
  have hdrop : ∀ k s, (∃ rest, u.drop k = s :: rest) ↔ u[k]? = some s := by
    intro k s
    rw [← List.head?_drop, List.head?_eq_some_iff]
  constructor
  · intro h
    unfold atPosition at h
    split at h
    · next t ht =>
      obtain h | h := List.mem_append.mp h
      · obtain ⟨x, hx, l, hl, rfl⟩ := mem_before_iff.mp h
        cases i with
        | zero => cases hx
        | succ i => exact ⟨rfl, .greater hx ht hl⟩
      · obtain ⟨x, rest, hx, r, hr, rfl⟩ | ⟨r, hr, rfl⟩ := mem_after_iff.mp h
        · exact ⟨rfl, .less ht ((hdrop _ _).mp ⟨rest, hx⟩) hr⟩
        · exact ⟨rfl, .equal ht hr⟩
    · cases h
  · obtain ⟨l, relation, r, m⟩ := a
    rintro ⟨rfl, h⟩
    cases h with
    | greater hx hr hl =>
      simp only [atPosition, hr]
      exact List.mem_append_left _ (mem_before_iff.mpr ⟨_, hx, l, hl, rfl⟩)
    | less hl hx hr =>
      obtain ⟨rest, hx⟩ := (hdrop _ _).mpr hx
      simp only [atPosition, hl]
      exact List.mem_append_right _ (mem_after_iff.mpr (Or.inl ⟨_, rest, hx, r, hr, rfl⟩))
    | equal hl hr =>
      simp only [atPosition, hl]
      exact List.mem_append_right _ (mem_after_iff.mpr (Or.inr ⟨r, hr, rfl⟩))

/-- What is asserted somewhere in a right-hand side is asserted at a
position of it. -/
theorem asserts_iff_exists {l r : Terminal} {relation : Relation} :
    Asserts firstVT lastVT u l relation r ↔
      ∃ i, AssertsAt firstVT lastVT u i l relation r := by
  have hmem : (⟨l, relation, r, 0⟩ : Assertion) ∈ ofSymbols firstVT lastVT 0 none u ↔
      ∃ i, AssertsAt firstVT lastVT u i l relation r := by
    rw [ofSymbols_eq_flatMap, List.mem_flatMap]
    simp only [mem_atPosition_iff, true_and]
    exact exists_congr fun i => and_iff_right_of_imp fun h => List.mem_range.mpr h.lt_length
  rw [← hmem, mem_ofSymbols_iff]
  exact (and_iff_right rfl).symm

/-! ## The order of the assertions -/

theorem place_lt_place_iff {j : Nat} : a.place i < b.place j ↔
    a.production < b.production ∨ a.production = b.production
      ∧ (i < j ∨ i = j ∧ (a.relation.turn < b.relation.turn
        ∨ a.relation.turn = b.relation.turn ∧ a.partner.index < b.partner.index)) := by
  simp only [place, Prod.Lex.toLex_lt_toLex]

/-- At one position, the turn of the relation decides first. -/
theorem place_lt_of_turn (h : a.production = b.production)
    (hturn : a.relation.turn < b.relation.turn) : a.place i < b.place i :=
  place_lt_place_iff.mpr (Or.inr ⟨h, Or.inr ⟨rfl, Or.inl hturn⟩⟩)

/-- Terminals of a set, in ascending order, with assertions about them. -/
theorem pairwise_map_toList {f : Terminal → Assertion} (relation : Relation) (s : TerminalSet)
    (hf : ∀ t, (f t).production = n ∧ (f t).relation = relation ∧ (f t).partner = t) :
    (s.toList.map f).Pairwise (fun a b => a.place i < b.place i) := by
  refine List.pairwise_map.mpr (s.pairwise_toList.imp fun {t u} hlt => ?_)
  obtain ⟨hn, hrelation, ht⟩ := hf t
  obtain ⟨hn', hrelation', hu⟩ := hf u
  refine place_lt_place_iff.mpr (Or.inr ⟨hn.trans hn'.symm, Or.inr ⟨rfl, Or.inr ⟨?_, ?_⟩⟩⟩)
  · rw [hrelation, hrelation']
  · rwa [ht, hu]

theorem pairwise_before :
    (before lastVT n t previous).Pairwise (fun a b => a.place i < b.place i) := by
  unfold before
  split
  · exact pairwise_map_toList .greater _ fun _ => ⟨rfl, rfl, rfl⟩
  · exact .nil

theorem pairwise_after :
    (after firstVT n t rest).Pairwise (fun a b => a.place i < b.place i) := by
  have hless : ∀ x : Nonterminal, ((firstVT.get x).toList.map
      (fun a => (⟨t, .less, a, n⟩ : Assertion))).Pairwise (fun a b => a.place i < b.place i) :=
    fun x => pairwise_map_toList .less _ fun _ => ⟨rfl, rfl, rfl⟩
  unfold after
  split
  · exact List.pairwise_singleton ..
  · refine List.pairwise_append.mpr ⟨hless _, List.pairwise_singleton .., ?_⟩
    intro a ha b hb
    obtain ⟨r, -, rfl⟩ := List.mem_map.mp ha
    obtain rfl := List.mem_singleton.mp hb
    exact place_lt_of_turn (by rfl) (by simp [Relation.turn])
  · exact hless _
  · exact .nil

/-- **At one position**, assertions ascend. -/
theorem pairwise_atPosition : (atPosition firstVT lastVT n previous u i).Pairwise
    (fun a b => a.place i < b.place i) := by
  unfold atPosition
  split
  · refine List.pairwise_append.mpr ⟨pairwise_before, pairwise_after, fun a ha b hb => ?_⟩
    obtain ⟨x, -, l, -, rfl⟩ := mem_before_iff.mp ha
    obtain ⟨_, _, -, r, -, rfl⟩ | ⟨r, -, rfl⟩ := mem_after_iff.mp hb
    · exact place_lt_of_turn (by rfl) (by simp [Relation.turn])
    · exact place_lt_of_turn (by rfl) (by simp [Relation.turn])
  · exact .nil

/-- The assertions of a right-hand side, each with its position. -/
def placedIn (firstVT lastVT : SetTable) (n : Nat) (u : List Symbol) : List (Nat × Assertion) :=
  (List.range u.length).flatMap fun i =>
    (atPosition firstVT lastVT n none u i).map (Prod.mk i)

/-- In one right-hand side, assertions ascend. -/
theorem pairwise_placedIn : (placedIn firstVT lastVT n u).Pairwise
    (fun a b => a.2.place a.1 < b.2.place b.1) := by
  refine List.pairwise_flatMap.mpr ⟨fun i _ => List.pairwise_map.mpr pairwise_atPosition,
    List.pairwise_lt_range.imp ?_⟩
  -- assertions at different positions
  intro i j hlt _ hi _ hj
  obtain ⟨a, ha, rfl⟩ := List.mem_map.mp hi
  obtain ⟨b, hb, rfl⟩ := List.mem_map.mp hj
  have hn : a.production = b.production :=
    (mem_atPosition_iff.mp ha).1.trans (mem_atPosition_iff.mp hb).1.symm
  exact place_lt_place_iff.mpr (Or.inr ⟨hn, Or.inl hlt⟩)

/-- **All assertions of a grammar**, each with its position. -/
def placed (g : Grammar) (firstVT lastVT : SetTable) : List (Nat × Assertion) :=
  g.productions.zipIdx.flatMap fun (p, n) => placedIn firstVT lastVT n p.rhs

theorem map_snd_placed : (placed g firstVT lastVT).map Prod.snd = all g firstVT lastVT := by
  simp [placed, placedIn, all, List.map_flatMap, ofSymbols_eq_flatMap, Function.comp_def]

theorem mem_placedIn_iff : (i, a) ∈ placedIn firstVT lastVT n u ↔
    a.production = n ∧ AssertsAt firstVT lastVT u i a.left a.relation a.right := by
  simp only [placedIn, List.mem_flatMap, List.mem_map, Prod.mk.injEq, mem_atPosition_iff]
  constructor
  · rintro ⟨_, -, _, h, rfl, rfl⟩
    exact h
  · rintro ⟨hn, h⟩
    exact ⟨i, List.mem_range.mpr h.lt_length, a, ⟨hn, h⟩, rfl, rfl⟩

theorem mem_placed_iff : (i, a) ∈ placed g firstVT lastVT ↔
    ∃ p, g.productions[a.production]? = some p
      ∧ AssertsAt firstVT lastVT p.rhs i a.left a.relation a.right := by
  simp only [placed, List.mem_flatMap, Prod.exists, List.mem_zipIdx_iff_getElem?,
    mem_placedIn_iff]
  constructor
  · rintro ⟨p, n, hp, rfl, h⟩
    exact ⟨p, hp, h⟩
  · rintro ⟨p, hp, h⟩
    exact ⟨p, _, hp, rfl, h⟩

/-- **Assertions are made in the order of their places.** -/
theorem pairwise_placed : (placed g firstVT lastVT).Pairwise
    (fun a b => a.2.place a.1 < b.2.place b.1) := by
  refine List.pairwise_flatMap.mpr ⟨fun (p, n) _ => pairwise_placedIn,
    (pairwise_zipIdx g.productions).imp ?_⟩
  -- assertions of different productions
  rintro ⟨p, n⟩ ⟨q, k⟩ hlt ⟨i, a⟩ ha ⟨j, b⟩ hb
  obtain ⟨rfl, -⟩ := mem_placedIn_iff.mp ha
  obtain ⟨rfl, -⟩ := mem_placedIn_iff.mp hb
  exact place_lt_place_iff.mpr (Or.inl hlt)

end Assertion

/-! ## Contradictions -/

namespace Filling

variable {g : Grammar} {f : Filling} {done l : List Assertion} {a : Assertion}
  {c : Contradiction}

/-- **An assertion contradicts an earlier one** when its cell holds another
relation. -/
theorem of_contradiction?_add (hf : f.contradiction? = none)
    (hc : (f.add a).contradiction? = some c) :
    ∃ existing, f.matrix.get? a.left a.right = some existing ∧ existing ≠ a.relation
      ∧ c = ⟨a.left, a.right, existing, a.relation, a.production⟩ := by
  unfold add at hc
  split at hc
  · split at hc
    · rw [hf] at hc
      cases hc
    · next existing hget =>
      split at hc
      · rw [hf] at hc
        cases hc
      · next hne => exact ⟨existing, hget, hne, (Option.some.inj hc).symm⟩
  · rw [hf] at hc
    cases hc

/-- **Filling stops** at an assertion that contradicts an earlier one, with
all assertions before it in the matrix. -/
theorem Holds.exists_of_contradiction (h : Holds g f done) (hf : f.contradiction? = none)
    (hc : (f.addAll l).contradiction? = some c) :
    ∃ before a after stopped, l = before ++ a :: after ∧ Holds g stopped (done ++ before)
      ∧ ∃ existing, stopped.matrix.get? a.left a.right = some existing
        ∧ existing ≠ a.relation ∧ c = ⟨a.left, a.right, existing, a.relation, a.production⟩ := by
  induction l generalizing f done with
  | nil =>
    rw [Filling.addAll, hf] at hc
    cases hc
  | cons a l ih =>
    rw [Filling.addAll] at hc
    split at hc
    · exact ⟨[], a, l, f, rfl, by rwa [List.append_nil], of_contradiction?_add hf hc⟩
    · next hgo =>
      have hnone : (f.add a).contradiction? = none := by simpa using hgo
      obtain ⟨before, b, after, stopped, rfl, hholds, hb⟩ := ih (h.add hnone) hnone hc
      refine ⟨a :: before, b, after, stopped, rfl, ?_, hb⟩
      rwa [List.append_assoc] at hholds

/-- Assertions that a matrix holds agree. -/
theorem Holds.agree (h : Holds g f done) {a b : Assertion} (ha : a ∈ done) (hb : b ∈ done)
    (hleft : a.left = b.left) (hright : a.right = b.right)
    (hproper : g.IsProper (.terminal a.left) ∧ g.IsProper (.terminal a.right)) :
    a.relation = b.relation := by
  have hget : f.matrix.get? a.left a.right = some a.relation :=
    (h.get?_iff _ _ _).mpr ⟨hproper.1, hproper.2, a.production, ha⟩
  have hget' : f.matrix.get? a.left a.right = some b.relation :=
    (h.get?_iff _ _ _).mpr ⟨hproper.1, hproper.2, b.production, by rw [hleft, hright]; exact hb⟩
  exact Option.some.inj (hget.symm.trans hget')

end Filling

namespace Grammar

variable {g : Grammar} {c : Contradiction}

/-- **What the productions of a grammar assert, and where**: an assertion
and the position of the terminal whose scan makes it. -/
def AssertsAt (g : Grammar) (i : Nat) (a : Assertion) : Prop :=
  ∃ p, g.productions[a.production]? = some p ∧ GrammarAnalysis.AssertsAt
    (g.solveEdge .first).table (g.solveEdge .last).table p.rhs i a.left a.relation a.right

theorem asserts_iff_exists {l r : Terminal} {relation : Relation} :
    g.Asserts l relation r ↔ ∃ n i, g.AssertsAt i ⟨l, relation, r, n⟩ := by
  simp only [Asserts, AssertsAt, Assertion.asserts_iff_exists, List.mem_iff_getElem?]
  constructor
  · rintro ⟨p, ⟨n, hp⟩, i, h⟩
    exact ⟨n, i, p, hp, h⟩
  · rintro ⟨n, i, p, hp, h⟩
    exact ⟨p, ⟨n, hp⟩, i, h⟩

theorem AssertsAt.asserts {i : Nat} {a : Assertion} (h : g.AssertsAt i a) :
    g.Asserts a.left a.relation a.right :=
  asserts_iff_exists.mpr ⟨a.production, i, h⟩

/-- **The assertions of a grammar agree** when no two different relations
are asserted for one pair of terminals. -/
def AssertionsAgree (g : Grammar) : Prop :=
  ∀ l r relation relation', g.Asserts l relation r → g.Asserts l relation' r →
    relation = relation'

/-- **The first contradiction of a grammar.** It is made at some position
of its production, between a relation asserted before and another one, and
all assertions made before agree. -/
structure IsFirstContradiction (g : Grammar) (c : Contradiction) : Prop where
  ne : c.existing ≠ c.asserted
  exists_position : ∃ i, g.AssertsAt i ⟨c.left, c.asserted, c.right, c.production⟩
    ∧ (∃ j n, g.AssertsAt j ⟨c.left, c.existing, c.right, n⟩
        ∧ Assertion.place ⟨c.left, c.existing, c.right, n⟩ j
          < Assertion.place ⟨c.left, c.asserted, c.right, c.production⟩ i)
    ∧ ∀ j a k b, g.AssertsAt j a → g.AssertsAt k b →
        a.place j < Assertion.place ⟨c.left, c.asserted, c.right, c.production⟩ i →
        b.place k < Assertion.place ⟨c.left, c.asserted, c.right, c.production⟩ i →
        a.left = b.left → a.right = b.right → a.relation = b.relation

/-- The filling by everything the productions of a grammar assert. -/
def filling (g : Grammar) : Filling :=
  .ofGrammar g (g.solveEdge .first).table (g.solveEdge .last).table

/-- **Filling stops at the first contradiction.** -/
theorem WellFormed.isFirstContradiction (hg : g.WellFormed) (hop : g.OperatorShaped)
    (hc : g.filling.contradiction? = some c) : g.IsFirstContradiction c := by
  obtain ⟨before, a, after, stopped, hall, hholds, existing, hget, hne, rfl⟩ :=
    (Filling.Holds.blank g).exists_of_contradiction rfl hc
  rw [List.nil_append] at hholds
  -- the same list, with the positions
  rw [← Assertion.map_snd_placed] at hall
  obtain ⟨earlier, rest, hplaced, rfl, hrest⟩ := List.map_eq_append_iff.mp hall
  obtain ⟨⟨i, a⟩, later, rfl, rfl, -⟩ := List.map_eq_cons_iff.mp hrest
  have hpairwise : (Assertion.placed g (g.solveEdge .first).table
      (g.solveEdge .last).table).Pairwise (fun a b => a.2.place a.1 < b.2.place b.1) :=
    Assertion.pairwise_placed
  have hmem : ∀ j b, g.AssertsAt j b ↔ (j, b) ∈ earlier ++ (i, a) :: later := fun j b => by
    rw [← hplaced]
    exact Assertion.mem_placed_iff.symm
  rw [hplaced, List.pairwise_append, List.pairwise_cons] at hpairwise
  obtain ⟨-, ⟨hlater, -⟩, hearlier⟩ := hpairwise
  have hbefore : ∀ j b, g.AssertsAt j b → b.place j < a.place i → b ∈ earlier.map Prod.snd := by
    intro j b hb hlt
    obtain hb | hb := List.mem_append.mp ((hmem j b).mp hb)
    · exact List.mem_map.mpr ⟨(j, b), hb, rfl⟩
    · obtain heq | hb := List.mem_cons.mp hb
      · cases heq
        exact absurd hlt (lt_irrefl _)
      · exact absurd hlt (hlater _ hb).asymm
  refine ⟨hne, i, (hmem i a).mpr (by simp), ?_, ?_⟩
  · obtain ⟨-, -, n, hmade⟩ := (hholds.get?_iff _ _ _).mp hget
    obtain ⟨⟨j, b⟩, hb, rfl⟩ := List.mem_map.mp hmade
    exact ⟨j, n, (hmem j _).mpr (List.mem_append_left _ hb), hearlier _ hb _ (by simp)⟩
  · intro j b k b' hb hb' hlt hlt' hleft hright
    exact hholds.agree (hbefore j b hb hlt) (hbefore k b' hb' hlt') hleft hright
      (hb.asserts.isProper hg hop)

theorem IsFirstContradiction.asserts (h : g.IsFirstContradiction c) :
    g.Asserts c.left c.existing c.right ∧ g.Asserts c.left c.asserted c.right := by
  obtain ⟨i, hasserted, ⟨j, n, hexisting, -⟩, -⟩ := h.exists_position
  exact ⟨hexisting.asserts, hasserted.asserts⟩

/-- **Filling goes through exactly when the assertions agree**, in whatever
order they are made. -/
theorem WellFormed.contradiction?_eq_none_iff (hg : g.WellFormed) (hop : g.OperatorShaped) :
    g.filling.contradiction? = none ↔ g.AssertionsAgree := by
  constructor
  · intro hc l r relation relation' h h'
    have hv := PrecedenceAnalysis.verdict_eq_operatorPrecedence_iff.mpr ⟨hop, hc⟩
    obtain ⟨m, -, hget⟩ := PrecedenceAnalysis.get?_matrix_iff hg hv
    exact Option.some.inj (((hget l relation r).mpr h).symm.trans ((hget l relation' r).mpr h'))
  · intro hagree
    refine Option.eq_none_iff_forall_ne_some.mpr fun c hc => ?_
    have hfirst := hg.isFirstContradiction hop hc
    exact hfirst.ne (hagree _ _ _ _ hfirst.asserts.1 hfirst.asserts.2)

/-! ## A grammar with a contradiction -/

/-- Sums without parentheses or levels: `E->E+E|i`. -/
def levelSums : Grammar where
  nonterminals := ["E"]
  terminals := ["+", "i", "NULL"]
  start := ⟨0⟩
  rules :=
    [⟨⟨0⟩, [[.nonterminal ⟨0⟩, .terminal ⟨0⟩, .nonterminal ⟨0⟩], [.terminal ⟨1⟩]]⟩]

theorem constructed_levelSums : levelSums.Constructed :=
  have h : (ofLists ["E"] ["+", "i"] ["E->E+E|i"] "E").toOption = some levelSums := by
    decide +kernel
  .ofLists (eq_ok_of_toOption h)

end Grammar

/-! ## The matrix, or the first contradiction -/

namespace PrecedenceAnalysis

open Grammar (sums constructed_sums levelSums constructed_levelSums)

variable {g : Grammar}

theorem matrix?_eq (hshape : g.shapeFault? = none) : (ofGrammar g).matrix? =
    if g.filling.contradiction?.isSome then none else some g.filling.matrix := by
  simp only [ofGrammar, hshape, matrix?]
  rfl

/-- **The rows of a matrix** are those of the declared terminals but the epsilon
terminal. -/
theorem covers_iff_of_matrix? {m : PrecedenceMatrix} (hm : (ofGrammar g).matrix? = some m)
    {t : Terminal} : m.covers t = true ↔ g.IsProper (.terminal t) := by
  have hshape : g.shapeFault? = none := by
    cases hfault : g.shapeFault? with
    | none => rfl
    | some fault =>
      simp only [ofGrammar, hfault, matrix?] at hm
      cases hm
  rw [matrix?_eq hshape] at hm
  split at hm
  · cases hm
  · next hc =>
    have hnone : g.filling.contradiction? = none := by simpa using hc
    obtain rfl := Option.some.inj hm
    exact ((Filling.Holds.blank g).addAll hnone).covers_iff t

theorem verdict_eq_contradictory_iff (hshape : g.shapeFault? = none) {c : Contradiction} :
    (ofGrammar g).verdict = .contradictory c ↔ g.filling.contradiction? = some c := by
  simp only [ofGrammar, hshape, verdict, Grammar.filling]
  split
  · next c' hc' => simp [hc']
  · next hc' => simp [hc']

/-- **The matrix is exactly the set of asserted relations.** A grammar of
the right shape has a matrix exactly when no two different relations are
asserted for one pair of terminals. A cell then holds a relation exactly
when some production asserts it, the relations are listed row by row and
their number is the number of cells that are not empty, and no cell of the
epsilon terminal or the end-marker holds one. Otherwise the first
contradiction in the order of the scan is reported. -/
theorem matrix_exact (hg : g.Constructed) (hshape : g.shapeFault? = none) :
    ((∃ m, (ofGrammar g).matrix? = some m) ↔ g.AssertionsAgree)
      ∧ (∀ m, (ofGrammar g).matrix? = some m →
          (∀ l relation r, m.get? l r = some relation ↔ g.Asserts l relation r)
            ∧ (∀ l relation r, (l, relation, r) ∈ m.toList ↔ m.get? l r = some relation)
            ∧ m.toList.Pairwise PrecedenceMatrix.RowMajor
            ∧ m.count = m.toList.length
            ∧ m.IsConfined
            ∧ ∀ t, t = g.epsilon ∨ t = g.endMarker →
                ∀ u, m.get? t u = none ∧ m.get? u t = none)
      ∧ ((ofGrammar g).matrix? = none ↔ ∃ c, (ofGrammar g).verdict = .contradictory c)
      ∧ ∀ c, (ofGrammar g).verdict = .contradictory c → g.IsFirstContradiction c
          ∧ g.Asserts c.left c.existing c.right ∧ g.Asserts c.left c.asserted c.right := by
  have hwf := hg.wellFormed
  have hop := Grammar.shapeFault?_eq_none_iff.mp hshape
  refine ⟨?_, fun m hm => ?_, ?_, fun c hc => ?_⟩
  · rw [← hwf.contradiction?_eq_none_iff hop, matrix?_eq hshape]
    cases g.filling.contradiction? <;> simp
  · have hc : g.filling.contradiction? = none ∧ g.filling.matrix = m := by
      rw [matrix?_eq hshape] at hm
      split at hm
      · cases hm
      · next h => exact ⟨by simpa using h, Option.some.inj hm⟩
    have hv := verdict_eq_operatorPrecedence_iff.mpr ⟨hop, hc.1⟩
    obtain ⟨m', hm', hget⟩ := get?_matrix_iff hwf hv
    obtain rfl : m = m' := Option.some.inj (hm.symm.trans hm')
    have hconfined : m.IsConfined :=
      hc.2 ▸ Filling.isConfined_addAll (PrecedenceMatrix.isConfined_blank g) _
    refine ⟨hget, fun l relation r => PrecedenceMatrix.mem_toList_iff, m.pairwise_toList,
      hconfined.count_eq, hconfined, fun t ht u => ?_⟩
    constructor
    · refine Option.eq_none_iff_forall_ne_some.mpr fun relation h => ?_
      exact Grammar.not_isProper ht (((hget t relation u).mp h).isProper hwf hop).1
    · refine Option.eq_none_iff_forall_ne_some.mpr fun relation h => ?_
      exact Grammar.not_isProper ht (((hget u relation t).mp h).isProper hwf hop).2
  · simp only [verdict_eq_contradictory_iff hshape, matrix?_eq hshape]
    cases g.filling.contradiction? <;> simp
  · have hfirst := hwf.isFirstContradiction hop ((verdict_eq_contradictory_iff hshape).mp hc)
    exact ⟨hfirst, hfirst.asserts⟩

/-- The assertions of sums agree. Level sums assert `+>+` before `+<+`, in
their first production. -/
theorem matrix_exact_sums : (sums.Constructed ∧ sums.shapeFault? = none ∧ sums.AssertionsAgree)
    ∧ levelSums.Constructed ∧ levelSums.shapeFault? = none
    ∧ (ofGrammar levelSums).verdict = .contradictory ⟨⟨0⟩, ⟨0⟩, .greater, .less, 0⟩
    ∧ levelSums.IsFirstContradiction ⟨⟨0⟩, ⟨0⟩, .greater, .less, 0⟩ := by
  have hsums : sums.shapeFault? = none := by decide +kernel
  have hlevelSums : levelSums.shapeFault? = none := by decide +kernel
  have hmatrix : (ofGrammar sums).matrix?.isSome = true := by decide +kernel
  have hv : (ofGrammar levelSums).verdict = .contradictory ⟨⟨0⟩, ⟨0⟩, .greater, .less, 0⟩ := by
    decide +kernel
  obtain ⟨hagree, -⟩ := matrix_exact constructed_sums hsums
  obtain ⟨-, -, -, hfirst⟩ := matrix_exact constructed_levelSums hlevelSums
  exact ⟨⟨constructed_sums, hsums, hagree.mp (Option.isSome_iff_exists.mp hmatrix)⟩,
    constructed_levelSums, hlevelSums, hv, (hfirst _ hv).1⟩

end PrecedenceAnalysis

end GrammarAnalysis
