import GrammarAnalysis.Proofs.Numbering
import GrammarAnalysis.Proofs.SelectSets
import Mathlib.Data.List.Sort
import Mathlib.Data.Prod.Lex

/-!
# Which conflicts there are, and in which order

A conflict is a pair of productions of one nonterminal whose SELECT sets
meet, with all the lookaheads they share (`Grammar.IsConflict`). Each such
pair is listed, and listed once (`WellFormed.mem_all_iff`).

The list is put together nonterminal by nonterminal, in the order in which
nonterminals are declared, and for one nonterminal in the order of the
production numbers. This is the lexicographic order of `Conflict.place`,
and the first conflict is the least in it. Production numbers, however,
follow the order in which left-hand sides are written. So the list is in
the order of the pairs of production numbers only where declaration and
writing agree about the nonterminals that have conflicts
(`pairwise_all_iff`), and otherwise another conflict than the one of the
first productions is reported.
-/

namespace GrammarAnalysis

/-! ## Lists in order -/

section Order

variable {α κ : Type} [LinearOrder κ] {key : α → κ} {l : List α} {a : α}

/-- Pairs of elements of an ascending list ascend lexicographically. -/
theorem pairwise_pairs (h : l.Pairwise (fun a b => key a < key b)) :
    (pairs l).Pairwise (fun a b => toLex (key a.1, key a.2) < toLex (key b.1, key b.2)) := by
  induction l with
  | nil => exact .nil
  | cons a l ih =>
    obtain ⟨ha, hl⟩ := List.pairwise_cons.mp h
    refine List.pairwise_append.mpr ⟨List.pairwise_map.mpr (hl.imp fun hlt => ?_), ih hl, ?_⟩
    · exact Prod.Lex.toLex_lt_toLex.mpr (Or.inr ⟨rfl, hlt⟩)
    · intro b hb c hc
      obtain ⟨b, -, rfl⟩ := List.mem_map.mp hb
      obtain ⟨i, j, -, hi, -⟩ := mem_pairs_iff.mp (show (c.1, c.2) ∈ pairs l from hc)
      exact Prod.Lex.toLex_lt_toLex.mpr (Or.inl (ha c.1 (List.mem_of_getElem? hi)))

/-- The first element of an ascending list is the least one. -/
theorem head?_eq_some_iff_of_pairwise (h : l.Pairwise (fun a b => key a < key b)) :
    l.head? = some a ↔ a ∈ l ∧ ∀ b ∈ l, key a ≤ key b := by
  cases l with
  | nil => simp
  | cons c l =>
    have hc := (List.pairwise_cons.mp h).1
    rw [List.head?_cons, Option.some.injEq]
    constructor
    · rintro rfl
      refine ⟨List.mem_cons_self, fun b hb => ?_⟩
      obtain rfl | hb := List.mem_cons.mp hb
      · exact le_rfl
      · exact (hc b hb).le
    · rintro ⟨ha, hle⟩
      obtain rfl | ha := List.mem_cons.mp ha
      · rfl
      · exact absurd (hc a ha) (hle c List.mem_cons_self).not_gt

/-- A list in two orders has any two elements in the same order in both. -/
theorem related_of_pairwise {r s : α → α → Prop} {b : α} (hr : l.Pairwise r) (hs : l.Pairwise s)
    (ha : a ∈ l) (hb : b ∈ l) (hne : a ≠ b) : (r a b ∧ s a b) ∨ (r b a ∧ s b a) := by
  have hboth : l.Pairwise (fun a b => (r a b ∧ s a b) ∨ (r b a ∧ s b a)) :=
    (hr.and hs).imp fun h => Or.inl h
  have : Std.Symm (fun a b => (r a b ∧ s a b) ∨ (r b a ∧ s b a)) := ⟨fun _ _ h => h.symm⟩
  exact hboth.forall ha hb hne

end Order

/-! ## Places -/

namespace Conflict

/-- **The pair of production numbers of a conflict**, to be compared
lexicographically. -/
def productions (c : Conflict) : ℕ ×ₗ ℕ :=
  toLex (c.earlier, c.later)

/-- **The place of a conflict in the list**: first its nonterminal counts,
then its productions. -/
def place (c : Conflict) : ℕ ×ₗ ℕ ×ₗ ℕ :=
  toLex (c.nonterminal.index, c.productions)

theorem between?_eq_some_iff {x : Nonterminal} {a b : TerminalSet × Nat} {c : Conflict} :
    between? x a b = some c ↔
      c = ⟨x, a.2, b.2, (a.1 ∩ b.1).toList⟩ ∧ c.lookaheads ≠ [] := by
  unfold between?
  simp only [Option.ite_none_left_eq_some, Option.some.injEq]
  constructor
  · rintro ⟨hne, rfl⟩
    exact ⟨rfl, hne⟩
  · rintro ⟨rfl, hne⟩
    exact ⟨hne, rfl⟩

end Conflict

namespace Grammar

variable {g : Grammar} {c d : Conflict} {p q : Production} {m n : Nat} {t : Terminal}

/-! ## The conflicts of a grammar -/

/-- **Conflicts of a grammar**: two productions of one nonterminal, the
earlier one first, and all the lookaheads that select both, in ascending
order, of which there is at least one. -/
structure IsConflict (g : Grammar) (c : Conflict) : Prop where
  lt : c.earlier < c.later
  exists_productions : ∃ p q, g.productions[c.earlier]? = some p
    ∧ g.productions[c.later]? = some q ∧ p.lhs = c.nonterminal ∧ q.lhs = c.nonterminal
    ∧ ∀ t, t ∈ c.lookaheads ↔ t ∈ g.select p ∧ t ∈ g.select q
  ascending : c.lookaheads.Pairwise (fun t u => t.index < u.index)
  ne_nil : c.lookaheads ≠ []

theorem mem_toList_inter {a b : TerminalSet} : t ∈ (a ∩ b).toList ↔ t ∈ a ∧ t ∈ b := by
  rw [TerminalSet.mem_toList, TerminalSet.mem_inter]

/-- Lookaheads in ascending order are determined by which there are. -/
theorem lookaheads_eq {l l' : List Terminal} (h : l.Pairwise (fun t u => t.index < u.index))
    (h' : l'.Pairwise (fun t u => t.index < u.index)) (hmem : ∀ t, t ∈ l ↔ t ∈ l') : l = l' :=
  have : Std.Irrefl (fun t u : Terminal => t.index < u.index) := ⟨fun _ => Nat.lt_irrefl _⟩
  have : Std.Antisymm (fun t u : Terminal => t.index < u.index) :=
    ⟨fun _ _ h h' => absurd h (Nat.lt_asymm h')⟩
  h.eq_of_mem_iff h' hmem

/-- The nonterminal and the lookaheads of a conflict are determined by its
productions. -/
theorem IsConflict.eq_of_productions (hc : g.IsConflict c) (hd : g.IsConflict d)
    (h : c.productions = d.productions) : c = d := by
  obtain ⟨x, m, n, shared⟩ := c
  obtain ⟨y, m', n', shared'⟩ := d
  obtain ⟨rfl, rfl⟩ : m = m' ∧ n = n' := Prod.mk.inj (toLex.injective h)
  obtain ⟨p, q, hp, hq, rfl, -, hshared⟩ := hc.exists_productions
  obtain ⟨p', q', hp', hq', rfl, -, hshared'⟩ := hd.exists_productions
  obtain rfl := Option.some.inj (hp.symm.trans hp')
  obtain rfl := Option.some.inj (hq.symm.trans hq')
  obtain rfl : shared = shared' :=
    lookaheads_eq hc.ascending hd.ascending (fun t => (hshared t).trans (hshared' t).symm)
  rfl

/-- Conflicts that begin with the same production are of one
nonterminal. -/
theorem IsConflict.nonterminal_eq (hc : g.IsConflict c) (hd : g.IsConflict d)
    (h : c.earlier = d.earlier) : c.nonterminal = d.nonterminal := by
  obtain ⟨p, -, hp, -, hpc, -⟩ := hc.exists_productions
  obtain ⟨q, -, hq, -, hqd, -⟩ := hd.exists_productions
  rw [h, hq] at hp
  rw [← hpc, ← hqd, Option.some.inj hp]

namespace WellFormed

/-- **The list holds the conflicts and nothing else.** -/
theorem mem_all_iff (hg : g.WellFormed) :
    c ∈ Conflict.all g (g.productions.map g.select) ↔ g.IsConflict c := by
  unfold Conflict.all
  simp only [List.mem_flatMap, List.mem_filterMap]
  constructor
  · rintro ⟨x, -, ⟨⟨a, m⟩, ⟨b, n⟩⟩, hpair, hc⟩
    obtain ⟨rfl, hne⟩ := Conflict.between?_eq_some_iff.mp hc
    obtain ⟨hmn, p, q, hp, hq, hpx, hqx, rfl, rfl⟩ := hg.mem_pairs_range_iff.mp hpair
    exact ⟨hmn, ⟨p, q, hp, hq, hpx, hqx, fun t => mem_toList_inter⟩,
      TerminalSet.pairwise_toList _, hne⟩
  · intro hc
    obtain ⟨p, q, hp, hq, hpx, hqx, hshared⟩ := hc.exists_productions
    refine ⟨c.nonterminal, ?_, ((g.select p, c.earlier), (g.select q, c.later)),
      hg.mem_pairs_range_iff.mpr ⟨hc.lt, p, q, hp, hq, hpx, hqx, rfl, rfl⟩,
      Conflict.between?_eq_some_iff.mpr ⟨?_, hc.ne_nil⟩⟩
    · exact mem_allNonterminals.mpr (hpx ▸ hg.lhs_lt_of_mem (List.mem_of_getElem? hp))
    · obtain ⟨x, m, n, shared⟩ := c
      obtain rfl : shared = (g.select p ∩ g.select q).toList :=
        lookaheads_eq hc.ascending (TerminalSet.pairwise_toList _)
          (fun t => (hshared t).trans mem_toList_inter.symm)
      rfl

/-- Two productions of one nonterminal that share a lookahead have a
conflict. -/
theorem exists_mem_all (hg : g.WellFormed) (hmn : m < n) (hp : g.productions[m]? = some p)
    (hq : g.productions[n]? = some q) (hlhs : p.lhs = q.lhs) (htp : t ∈ g.select p)
    (htq : t ∈ g.select q) :
    ∃ c ∈ Conflict.all g (g.productions.map g.select), c.earlier = m ∧ c.later = n := by
  refine ⟨⟨p.lhs, m, n, (g.select p ∩ g.select q).toList⟩, hg.mem_all_iff.mpr ?_, rfl, rfl⟩
  exact ⟨hmn, ⟨p, q, hp, hq, rfl, hlhs.symm, fun t => mem_toList_inter⟩,
    TerminalSet.pairwise_toList _, List.ne_nil_of_mem (mem_toList_inter.mpr ⟨htp, htq⟩)⟩

end WellFormed

/-! ## Their order -/

theorem pairwise_allNonterminals :
    g.allNonterminals.Pairwise (fun x y => x.index < y.index) :=
  List.pairwise_map.mpr List.pairwise_lt_range

/-- **The list is in the order of the places**: by the nonterminal, then by
the productions. -/
theorem pairwise_all (sel : List TerminalSet) :
    (Conflict.all g sel).Pairwise (fun c d => c.place < d.place) := by
  refine List.pairwise_flatMap.mpr ⟨fun x _ => ?_, ?_⟩
  · -- for one nonterminal the productions count
    refine List.Pairwise.filterMap _ ?_ (pairwise_pairs ((pairwise_zipIdx sel).take.drop))
    intro ab ab' hlt c hc d hd
    obtain ⟨rfl, -⟩ := Conflict.between?_eq_some_iff.mp hc
    obtain ⟨rfl, -⟩ := Conflict.between?_eq_some_iff.mp hd
    exact Prod.Lex.toLex_lt_toLex.mpr (Or.inr ⟨rfl, hlt⟩)
  · refine pairwise_allNonterminals.imp (fun hxy c hc d hd => ?_)
    obtain ⟨_, -, hc⟩ := List.mem_filterMap.mp hc
    obtain ⟨_, -, hd⟩ := List.mem_filterMap.mp hd
    obtain ⟨rfl, -⟩ := Conflict.between?_eq_some_iff.mp hc
    obtain ⟨rfl, -⟩ := Conflict.between?_eq_some_iff.mp hd
    exact Prod.Lex.toLex_lt_toLex.mpr (Or.inl hxy)

/-- **Where the list is in the order of the production numbers**: where, of
two nonterminals with conflicts, the one declared first is the one written
first. -/
theorem WellFormed.pairwise_all_iff (hg : g.WellFormed) :
    (Conflict.all g (g.productions.map g.select)).Pairwise
        (fun c d => c.productions < d.productions) ↔
      ∀ c d, g.IsConflict c → g.IsConflict d → c.nonterminal.index < d.nonterminal.index →
        c.earlier < d.earlier := by
  have hplaces := pairwise_all (g := g) (g.productions.map g.select)
  constructor
  · intro h c d hc hd hlt
    -- the list is in both orders, so the conflict that is declared first comes first
    have hcases := related_of_pairwise hplaces h (hg.mem_all_iff.mpr hc) (hg.mem_all_iff.mpr hd)
      (fun he => Nat.ne_of_lt hlt (he ▸ rfl))
    have hplace : c.place < d.place := Prod.Lex.toLex_lt_toLex.mpr (Or.inl hlt)
    obtain ⟨-, hproductions⟩ | ⟨hplace', -⟩ := hcases
    · obtain hearlier | ⟨heq, -⟩ := Prod.Lex.toLex_lt_toLex.mp hproductions
      · exact hearlier
      · exact absurd (congrArg Nonterminal.index (hc.nonterminal_eq hd heq)) (Nat.ne_of_lt hlt)
    · exact absurd hplace hplace'.not_gt
  · intro h
    refine hplaces.imp_of_mem (fun {c d} hc hd hplace => ?_)
    obtain hlt | ⟨-, hproductions⟩ := Prod.Lex.toLex_lt_toLex.mp hplace
    · exact Prod.Lex.toLex_lt_toLex.mpr
        (Or.inl (h c d (hg.mem_all_iff.mp hc) (hg.mem_all_iff.mp hd) hlt))
    · exact hproductions

/-- A grammar that declares `S` before `A` and writes `A->a|ab` before
`S->Ac|Ad`. -/
def writtenBackwards : Grammar where
  nonterminals := ["S", "A"]
  terminals := ["a", "b", "c", "d", "NULL"]
  start := ⟨0⟩
  rules :=
    [⟨⟨1⟩, [[.terminal ⟨0⟩], [.terminal ⟨0⟩, .terminal ⟨1⟩]]⟩,
      ⟨⟨0⟩, [[.nonterminal ⟨1⟩, .terminal ⟨2⟩], [.nonterminal ⟨1⟩, .terminal ⟨3⟩]]⟩]

theorem constructed_writtenBackwards : writtenBackwards.Constructed :=
  have h : (ofLists ["S", "A"] ["a", "b", "c", "d"] ["A->a|ab", "S->Ac|Ad"] "S").toOption
      = some writtenBackwards := by decide +kernel
  .ofLists (eq_ok_of_toOption h)

end Grammar

/-! ## The analysis -/

namespace LookaheadAnalysis

variable {g : Grammar}

theorem conflicts_writtenBackwards : (ofGrammar Grammar.writtenBackwards).conflicts =
    [⟨⟨0⟩, 2, 3, [⟨0⟩]⟩, ⟨⟨1⟩, 0, 1, [⟨0⟩]⟩] := by
  decide +kernel

/-- **The conflicts of an analysis.** In every constructed grammar the list
holds the conflicts of the grammar and nothing else: one for every two
productions of one nonterminal that share a lookahead, and only one. It is
in the order of the nonterminals, and for one nonterminal in the order of
the pairs of productions; the first conflict is the least in this order. In
the order of the pairs of productions alone it is if and only if, of any two
conflicts of different nonterminals, the one whose nonterminal is declared
first has the earlier productions. -/
theorem conflicts_exact (hg : g.Constructed) :
    let a := ofGrammar g
    (∀ c, c ∈ a.conflicts ↔ g.IsConflict c)
      ∧ (∀ m n p q, m < n → g.productions[m]? = some p → g.productions[n]? = some q →
        p.lhs = q.lhs → ∀ t, t ∈ g.select p → t ∈ g.select q →
          ∃ c ∈ a.conflicts, c.earlier = m ∧ c.later = n)
      ∧ (∀ c ∈ a.conflicts, ∀ d ∈ a.conflicts, c.productions = d.productions → c = d)
      ∧ a.conflicts.Pairwise (fun c d => c.place < d.place)
      ∧ (∀ c, a.conflict? = some c ↔
        g.IsConflict c ∧ ∀ d, g.IsConflict d → c.place ≤ d.place)
      ∧ (a.conflicts.Pairwise (fun c d => c.productions < d.productions) ↔
        ∀ c d, g.IsConflict c → g.IsConflict d → c.nonterminal.index < d.nonterminal.index →
          c.earlier < d.earlier) := by
  intro a
  have hwf := hg.wellFormed
  have hmem : ∀ c, c ∈ a.conflicts ↔ g.IsConflict c := fun c => hwf.mem_all_iff
  have hplaces : a.conflicts.Pairwise (fun c d => c.place < d.place) := Grammar.pairwise_all _
  refine ⟨hmem, fun m n p q hmn hp hq hlhs t htp htq => hwf.exists_mem_all hmn hp hq hlhs htp htq,
    fun c hc d hd => ((hmem c).mp hc).eq_of_productions ((hmem d).mp hd), hplaces, fun c => ?_,
    hwf.pairwise_all_iff⟩
  rw [conflict?, head?_eq_some_iff_of_pairwise hplaces]
  simp only [hmem]

/-- In the grammar that is written backwards the conflict of `S->Ac` and
`S->Ad` is the first one, for `S` is declared first. -/
theorem conflicts_exact_writtenBackwards :
    Grammar.writtenBackwards.Constructed
      ∧ Grammar.writtenBackwards.IsConflict ⟨⟨0⟩, 2, 3, [⟨0⟩]⟩
      ∧ Grammar.writtenBackwards.IsConflict ⟨⟨1⟩, 0, 1, [⟨0⟩]⟩
      ∧ ∀ d, Grammar.writtenBackwards.IsConflict d →
        (⟨⟨0⟩, 2, 3, [⟨0⟩]⟩ : Conflict).place ≤ d.place := by
  obtain ⟨hmem, -, -, -, hfirst, -⟩ := conflicts_exact Grammar.constructed_writtenBackwards
  obtain ⟨hc, hle⟩ := (hfirst ⟨⟨0⟩, 2, 3, [⟨0⟩]⟩).mp
    (by rw [conflict?, conflicts_writtenBackwards, List.head?_cons])
  exact ⟨Grammar.constructed_writtenBackwards, hc,
    (hmem _).mp (by simp [conflicts_writtenBackwards]), hle⟩

/-- **Conflicts are not listed in the order of the production numbers**: in
the same grammar the conflict of the productions 0 and 1 comes after the one
of the productions 2 and 3, which is reported as the first conflict. -/
theorem conflicts_not_in_production_order :
    ¬ ∀ g : Grammar, g.Constructed →
      (ofGrammar g).conflicts.Pairwise (fun c d => c.productions < d.productions)
        ∧ ∀ c, (ofGrammar g).conflict? = some c →
          ∀ d ∈ (ofGrammar g).conflicts, c.productions ≤ d.productions := by
  intro h
  obtain ⟨hpairwise, -⟩ := h _ Grammar.constructed_writtenBackwards
  rw [conflicts_writtenBackwards] at hpairwise
  exact absurd hpairwise (by decide)

end LookaheadAnalysis

end GrammarAnalysis
