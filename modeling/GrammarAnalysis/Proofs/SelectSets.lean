import GrammarAnalysis.Predictive.Table
import GrammarAnalysis.Proofs.FollowSets

/-!
# SELECT sets and the parsing table

A lookahead selects a production when the strings of the production
begin with it, or when the production may vanish and the lookahead
follows its nonterminal. `Selects` says this in terms of derivations,
`mem_selectOf` in terms of the finished sets.

Conflicts are looked for nonterminal by nonterminal, among the pairs of
SELECT sets in its range of production numbers. There is none exactly
when no lookahead selects two productions of one nonterminal
(`conflicts_eq_nil_iff`). The table, which takes the first entry for a
cell, then holds in a cell the only production that is selected there
(`get?_eq_some_iff`).
-/

namespace GrammarAnalysis

/-! ## Pairs -/

theorem mem_pairs_iff {α : Type} {a b : α} {l : List α} :
    (a, b) ∈ pairs l ↔ ∃ i j : Nat, i < j ∧ l[i]? = some a ∧ l[j]? = some b := by
  induction l with
  | nil => simp [pairs]
  | cons c l ih =>
    rw [pairs, List.mem_append, ih, List.mem_map]
    constructor
    · rintro (⟨b', hb, h⟩ | ⟨i, j, hij, hi, hj⟩)
      · obtain ⟨rfl, rfl⟩ := Prod.mk.inj h
        obtain ⟨j, hj⟩ := List.mem_iff_getElem?.mp hb
        exact ⟨0, j + 1, Nat.succ_pos j, rfl, hj⟩
      · exact ⟨i + 1, j + 1, Nat.succ_lt_succ hij, hi, hj⟩
    · rintro ⟨i, j, hij, hi, hj⟩
      obtain ⟨j, rfl⟩ : ∃ j', j = j' + 1 := ⟨j - 1, by omega⟩
      cases i with
      | zero =>
        cases hi
        exact Or.inl ⟨b, List.mem_of_getElem? hj, rfl⟩
      | succ i => exact Or.inr ⟨i, j, Nat.lt_of_succ_lt_succ hij, hi, hj⟩

/-- The numbered elements of a list from `start` up to and without
`stop`. -/
theorem getElem?_range_zipIdx {α : Type} {l : List α} {start stop i : Nat} {a : α} {n : Nat} :
    ((l.zipIdx.take stop).drop start)[i]? = some (a, n)
      ↔ n = start + i ∧ n < stop ∧ l[n]? = some a := by
  rw [List.getElem?_drop, List.getElem?_take, List.getElem?_zipIdx]
  split
  · next hlt =>
    cases hl : l[start + i]? with
    | none =>
      refine iff_of_false (by simp) ?_
      rintro ⟨rfl, -, h⟩
      simp [hl] at h
    | some b =>
      simp only [Option.map_some, Option.some.injEq, Prod.mk.injEq, Nat.zero_add]
      constructor
      · rintro ⟨rfl, rfl⟩
        exact ⟨rfl, hlt, hl⟩
      · rintro ⟨rfl, -, h⟩
        exact ⟨Option.some.inj (hl.symm.trans h), rfl⟩
  · next hlt =>
    refine iff_of_false (by simp) ?_
    rintro ⟨rfl, h, -⟩
    exact hlt h

theorem between?_eq_none_iff {x : Nonterminal} {a b : TerminalSet × Nat} :
    Conflict.between? x a b = none ↔ ∀ t, t ∈ a.1 → t ∉ b.1 := by
  unfold Conflict.between?
  simp only [ite_eq_left_iff, reduceCtorEq, imp_false, not_not]
  rw [List.eq_nil_iff_forall_not_mem]
  refine forall_congr' (fun t => ?_)
  rw [TerminalSet.mem_toList, TerminalSet.mem_inter, not_and]

namespace Grammar

variable {g : Grammar} {p q : Production} {x : Nonterminal} {t : Terminal} {m n : Nat}

/-! ## Selection -/

/-- **A lookahead selects a production**: it begins what the production
puts in, or follows the nonterminal where that may vanish. -/
def Selects (g : Grammar) (p : Production) (t : Terminal) : Prop :=
  (t ≠ g.epsilon ∧ g.Begins (g.expansion p.rhs) t)
    ∨ (g.Derives (g.expansion p.rhs) [] ∧ g.Follows p.lhs t)

/-- SELECT of a production, from the finished sets. -/
def select (g : Grammar) : Production → TerminalSet :=
  selectOf g.epsilon g.solveFirst.table (g.solveFollow g.solveFirst.table).table

theorem mem_selectOf {epsilon : Terminal} {first follow : SetTable} :
    t ∈ selectOf epsilon first follow p ↔
      (t ≠ epsilon ∧ Leads epsilon first.holds p.rhs t)
        ∨ (Leads epsilon first.holds p.rhs epsilon ∧ t ∈ follow.get p.lhs) := by
  unfold selectOf
  simp only
  split
  · next he =>
    rw [TerminalSet.mem_union, TerminalSet.mem_erase, mem_firstOf, and_comm,
      and_iff_right (mem_firstOf.mp he)]
  · next he =>
    have hne : Leads epsilon first.holds p.rhs t → t ≠ epsilon :=
      fun ht h => he (mem_firstOf.mpr (h ▸ ht))
    rw [mem_firstOf]
    exact ⟨fun ht => Or.inl ⟨hne ht, ht⟩,
      fun h => h.elim And.right (fun h => absurd (mem_firstOf.mpr h.1) he)⟩

/-- **SELECT of a production holds what selects it.** -/
theorem WellFormed.mem_select_iff (hg : g.WellFormed) (hp : p ∈ g.productions) :
    t ∈ g.select p ↔ g.Selects p t := by
  have hrhs := hg.isRhs_of_mem hp
  have hleads : ∀ a, Leads g.epsilon g.solveFirst.table.holds p.rhs a
      ↔ g.Begins (g.expansion p.rhs) a := fun a => by
    rw [← leads_expansion hrhs, ← mem_firstOf, hg.mem_firstOf_iff hrhs.epsilon_notMem_expansion]
  rw [select, mem_selectOf, Selects, hleads, hleads, begins_epsilon, hg.mem_solveFollow_iff]

/-! ## Conflicts -/

/-- Whether no lookahead of a family of sets is in those of two
productions of one nonterminal. -/
def IsDeterministic (g : Grammar) (sel : Production → TerminalSet) : Prop :=
  ∀ (m n : Nat) (p q : Production), g.productions[m]? = some p → g.productions[n]? = some q →
    p.lhs = q.lhs → ∀ t, t ∈ sel p → t ∈ sel q → m = n

/-- **The pairs among which conflicts are looked for**: two productions of
one nonterminal, the earlier one first. -/
theorem WellFormed.mem_pairs_range_iff (hg : g.WellFormed) {sel : Production → TerminalSet}
    {a b : TerminalSet} :
    ((a, m), (b, n)) ∈ pairs (((g.productions.map sel).zipIdx.take
        (g.productionRange x).stop).drop (g.productionRange x).start) ↔
      m < n ∧ ∃ p q, g.productions[m]? = some p ∧ g.productions[n]? = some q
        ∧ p.lhs = x ∧ q.lhs = x ∧ sel p = a ∧ sel q = b := by
  have hsel : ∀ {n : Nat} {s : TerminalSet}, (g.productions.map sel)[n]? = some s ↔
      ∃ p, g.productions[n]? = some p ∧ sel p = s := by
    intro n s
    rw [List.getElem?_map, Option.map_eq_some_iff]
  rw [mem_pairs_iff]
  constructor
  · rintro ⟨i, j, hij, hi, hj⟩
    obtain ⟨rfl, hmstop, ha⟩ := getElem?_range_zipIdx.mp hi
    obtain ⟨rfl, hnstop, hb⟩ := getElem?_range_zipIdx.mp hj
    obtain ⟨p, hp, rfl⟩ := hsel.mp ha
    obtain ⟨q, hq, rfl⟩ := hsel.mp hb
    exact ⟨Nat.add_lt_add_left hij _, p, q, hp, hq,
      (hg.mem_productionRange hp).mpr ⟨Nat.le_add_right _ _, hmstop⟩,
      (hg.mem_productionRange hq).mpr ⟨Nat.le_add_right _ _, hnstop⟩, rfl, rfl⟩
  · rintro ⟨hmn, p, q, hp, hq, hpx, hqx, rfl, rfl⟩
    obtain ⟨hmstart, hmstop⟩ := (hg.mem_productionRange hp).mp hpx
    obtain ⟨hnstart, hnstop⟩ := (hg.mem_productionRange hq).mp hqx
    refine ⟨m - (g.productionRange x).start, n - (g.productionRange x).start, by omega, ?_, ?_⟩
    · exact getElem?_range_zipIdx.mpr ⟨by omega, hmstop, hsel.mpr ⟨p, hp, rfl⟩⟩
    · exact getElem?_range_zipIdx.mpr ⟨by omega, hnstop, hsel.mpr ⟨q, hq, rfl⟩⟩

/-- **There is no conflict exactly when the sets are disjoint.** -/
theorem WellFormed.conflicts_eq_nil_iff (hg : g.WellFormed) {sel : Production → TerminalSet} :
    Conflict.all g (g.productions.map sel) = [] ↔ g.IsDeterministic sel := by
  unfold Conflict.all
  simp only [List.flatMap_eq_nil_iff, List.filterMap_eq_nil_iff]
  constructor
  · intro h
    -- two productions in the wrong order are taken the other way round
    have hlt : ∀ (m n : Nat) (p q : Production), m < n → g.productions[m]? = some p →
        g.productions[n]? = some q → p.lhs = q.lhs → ∀ t, t ∈ sel p → t ∉ sel q := by
      intro m n p q hmn hp hq hlhs
      have hx : p.lhs ∈ g.allNonterminals := List.mem_map.mpr ⟨p.lhs.index,
        List.mem_range.mpr (hg.lhs_lt_of_mem (List.mem_of_getElem? hp)), rfl⟩
      exact between?_eq_none_iff.mp (h p.lhs hx _
        (hg.mem_pairs_range_iff.mpr ⟨hmn, p, q, hp, hq, rfl, hlhs.symm, rfl, rfl⟩))
    intro m n p q hp hq hlhs t htp htq
    obtain hmn | hmn | hmn := Nat.lt_trichotomy m n
    · exact absurd htq (hlt m n p q hmn hp hq hlhs t htp)
    · exact hmn
    · exact absurd htp (hlt n m q p hmn hq hp hlhs.symm t htq)
  · rintro h x - ⟨⟨a, m⟩, ⟨b, n⟩⟩ hpair
    obtain ⟨hmn, p, q, hp, hq, rfl, hlhs, rfl, rfl⟩ := hg.mem_pairs_range_iff.mp hpair
    refine between?_eq_none_iff.mpr (fun t htp htq => ?_)
    exact Nat.ne_of_lt hmn (h m n p q hp hq hlhs.symm t htp htq)

/-! ## The table -/

theorem mem_entries_ofSelect {sel : Production → TerminalSet} {e : TableEntry} :
    e ∈ (ParsingTable.ofSelect g (g.productions.map sel)).entries ↔
      ∃ p, g.productions[e.production]? = some p ∧ p.lhs = e.nonterminal ∧ e.lookahead ∈ sel p := by
  unfold ParsingTable.ofSelect ParsingTable.entriesOf
  simp only [List.mem_flatMap, List.mem_map, TerminalSet.mem_toList]
  constructor
  · rintro ⟨⟨⟨p, s⟩, n⟩, hmem, t, ht, rfl⟩
    have hn := List.mk_mem_zipIdx_iff_getElem?.mp hmem
    obtain ⟨hp, hs⟩ := List.getElem?_zip_eq_some.mp hn
    obtain ⟨q, hq, rfl⟩ := Option.map_eq_some_iff.mp ((List.getElem?_map ..).symm.trans hs)
    obtain rfl : p = q := Option.some.inj (hp.symm.trans hq)
    exact ⟨p, hp, rfl, ht⟩
  · rintro ⟨p, hp, hlhs, ht⟩
    refine ⟨((p, sel p), e.production), ?_, e.lookahead, ht, by rw [hlhs]⟩
    refine List.mk_mem_zipIdx_iff_getElem?.mpr (List.getElem?_zip_eq_some.mpr ⟨hp, ?_⟩)
    rw [List.getElem?_map, hp, Option.map_some]

/-- **What a cell of the table holds**: the production that its lookahead
selects, of which there is at most one. -/
theorem get?_ofSelect_eq_some_iff {sel : Production → TerminalSet} (hd : g.IsDeterministic sel) :
    (ParsingTable.ofSelect g (g.productions.map sel)).get? x t = some n ↔
      ∃ p, g.productions[n]? = some p ∧ p.lhs = x ∧ t ∈ sel p := by
  unfold ParsingTable.get?
  rw [Option.map_eq_some_iff]
  constructor
  · rintro ⟨e, he, rfl⟩
    obtain ⟨p, hp, hlhs, ht⟩ := mem_entries_ofSelect.mp (List.mem_of_find?_eq_some he)
    obtain ⟨hx, hlook⟩ : e.nonterminal = x ∧ e.lookahead = t := by
      simpa using List.find?_some he
    exact ⟨p, hp, hlhs.trans hx, hlook ▸ ht⟩
  · rintro ⟨p, hp, hlhs, ht⟩
    have hmem : (⟨x, t, n⟩ : TableEntry) ∈
        (ParsingTable.ofSelect g (g.productions.map sel)).entries :=
      mem_entries_ofSelect.mpr ⟨p, hp, hlhs, ht⟩
    obtain ⟨e, he⟩ : ∃ e, (ParsingTable.ofSelect g (g.productions.map sel)).entries.find?
        (fun e => e.nonterminal = x ∧ e.lookahead = t) = some e :=
      Option.isSome_iff_exists.mp (List.find?_isSome.mpr ⟨_, hmem, by simp⟩)
    -- the entry that is found is for the same cell, so for the same production
    obtain ⟨q, hq, hqlhs, htq⟩ := mem_entries_ofSelect.mp (List.mem_of_find?_eq_some he)
    obtain ⟨hx, hlook⟩ : e.nonterminal = x ∧ e.lookahead = t := by
      simpa using List.find?_some he
    exact ⟨e, he, hd _ _ q p hq hp ((hqlhs.trans hx).trans hlhs.symm) t (hlook ▸ htq) ht⟩

end Grammar

/-! ## The verdict and the parser of an analysis -/

namespace LookaheadAnalysis

theorem isLL1_iff_conflicts_eq_nil (a : LookaheadAnalysis) :
    a.isLL1 = true ↔ a.conflicts = [] := by
  unfold isLL1 conflict?
  rw [Option.isNone_iff_eq_none, List.head?_eq_none_iff]

/-- **The verdict is favourable exactly when the SELECT sets are disjoint.** -/
theorem isLL1_ofGrammar_iff {g : Grammar} (hg : g.WellFormed) :
    (ofGrammar g).isLL1 = true ↔ g.IsDeterministic g.select := by
  rw [isLL1_iff_conflicts_eq_nil]
  exact hg.conflicts_eq_nil_iff

end LookaheadAnalysis

namespace PredictiveParser

variable {g : Grammar} {p : PredictiveParser} {x : Nonterminal} {t : Terminal} {n : Nat}

/-- A predictive parser is built exactly when the analysis reports LL(1). -/
theorem exists_ofAnalysis_iff (a : LookaheadAnalysis) :
    (∃ p, ofAnalysis a = .ok p) ↔ a.isLL1 = true := by
  unfold ofAnalysis LookaheadAnalysis.isLL1
  cases a.conflict? <;> simp

theorem eq_of_ofAnalysis {a : LookaheadAnalysis} (h : ofAnalysis a = .ok p) :
    a.conflicts = [] ∧ p = ⟨a.grammar, .ofSelect a.grammar a.select⟩ := by
  unfold ofAnalysis LookaheadAnalysis.conflict? at h
  cases hc : a.conflicts with
  | nil =>
    rw [hc] at h
    cases h
    exact ⟨rfl, rfl⟩
  | cons c cs =>
    rw [hc] at h
    cases h

/-- **The parser of a grammar**: it has the grammar and the table of its
SELECT sets, and no lookahead selects two productions of one
nonterminal. -/
structure IsFor (p : PredictiveParser) (g : Grammar) : Prop where
  wellFormed : g.WellFormed
  grammar_eq : p.grammar = g
  get? : ∀ {x t n}, p.table.get? x t = some n ↔
    ∃ q, g.productions[n]? = some q ∧ q.lhs = x ∧ t ∈ g.select q

theorem isFor_of_ofAnalysis (hg : g.WellFormed)
    (h : ofAnalysis (LookaheadAnalysis.ofGrammar g) = .ok p) : p.IsFor g := by
  obtain ⟨hnil, rfl⟩ := eq_of_ofAnalysis h
  have hd := hg.conflicts_eq_nil_iff.mp hnil
  exact ⟨hg, rfl, Grammar.get?_ofSelect_eq_some_iff hd⟩

end PredictiveParser

end GrammarAnalysis
