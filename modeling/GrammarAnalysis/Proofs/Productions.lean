import GrammarAnalysis.Proofs.WellFormed
import Mathlib.Data.List.Nodup

/-!
# Productions and their numbers

The rules of a grammar are read in two ways. The fixed points take the
right-hand sides of a nonterminal (`Grammar.alternatives`); reports,
conflicts and tables take the productions by number, and the numbers of
a nonterminal as a range. In a well-formed grammar both are the list
`Grammar.productions`: `mem_alternatives` and `mem_productionRange`.

The symbols a production puts in the place of its nonterminal never
include the epsilon terminal (`IsRhs.epsilon_notMem_expansion`).
-/

namespace GrammarAnalysis

/-- The numbers of a numbered list ascend. -/
theorem pairwise_zipIdx {α : Type} (l : List α) :
    l.zipIdx.Pairwise (fun a b => a.2 < b.2) := by
  refine List.pairwise_map.mp ?_
  rw [List.zipIdx_map_snd]
  exact List.pairwise_lt_range'

namespace Grammar

variable {g : Grammar}

/-! ## Right-hand sides -/

/-- A right-hand side is the empty string, or it is free of the epsilon
terminal and stands for itself. -/
theorem IsRhs.expansion_cases {rhs : List Symbol} (h : g.IsRhs rhs) :
    (rhs = [.terminal g.epsilon] ∧ g.expansion rhs = [])
      ∨ (.terminal g.epsilon ∉ rhs ∧ g.expansion rhs = rhs) := by
  unfold expansion isEpsilonRhs
  by_cases he : rhs = [.terminal g.epsilon]
  · exact Or.inl ⟨he, by simp [he]⟩
  · exact Or.inr ⟨fun hmem => he (h.epsilon_alone hmem), by simp [he]⟩

/-- What is put in the place of a nonterminal is free of the epsilon
terminal. -/
theorem IsRhs.epsilon_notMem_expansion {rhs : List Symbol} (h : g.IsRhs rhs) :
    .terminal g.epsilon ∉ g.expansion rhs := by
  obtain ⟨-, he⟩ | ⟨hmem, he⟩ := h.expansion_cases
  · rw [he]
    exact List.not_mem_nil
  · rwa [he]

/-- What is put in the place of a nonterminal consists of declared
symbols. -/
theorem IsRhs.declared_expansion {rhs : List Symbol} (h : g.IsRhs rhs) {s : Symbol}
    (hs : s ∈ g.expansion rhs) : g.IsDeclared s := by
  obtain ⟨-, he⟩ | ⟨-, he⟩ := h.expansion_cases
  · rw [he] at hs
    exact absurd hs List.not_mem_nil
  · rw [he] at hs
    exact h.declared s hs

/-- A right-hand side with a nonterminal in it stands for itself. -/
theorem IsRhs.expansion_of_mem {rhs : List Symbol} (h : g.IsRhs rhs) {x : Nonterminal}
    (hx : .nonterminal x ∈ rhs) : g.expansion rhs = rhs := by
  obtain ⟨he, -⟩ | ⟨-, he⟩ := h.expansion_cases
  · rw [he] at hx
    simp at hx
  · exact he

/-! ## Productions of a nonterminal -/

theorem mem_productions {p : Production} :
    p ∈ g.productions ↔ ∃ r ∈ g.rules, r.lhs = p.lhs ∧ p.rhs ∈ r.alternatives := by
  unfold productions Rule.productions
  rw [List.mem_flatMap]
  constructor
  · rintro ⟨r, hr, hp⟩
    obtain ⟨rhs, hrhs, rfl⟩ := List.mem_map.mp hp
    exact ⟨r, hr, rfl, hrhs⟩
  · rintro ⟨r, hr, hlhs, hrhs⟩
    exact ⟨r, hr, List.mem_map.mpr ⟨p.rhs, hrhs, by rw [hlhs]⟩⟩

namespace WellFormed

/-- The right-hand side of a production is a right-hand side. -/
theorem isRhs_of_mem (hg : g.WellFormed) {p : Production} (hp : p ∈ g.productions) :
    g.IsRhs p.rhs := by
  obtain ⟨r, hr, -, hrhs⟩ := mem_productions.mp hp
  exact hg.isRhs r hr p.rhs hrhs

/-- The left-hand side of a production is declared. -/
theorem lhs_lt_of_mem (hg : g.WellFormed) {p : Production} (hp : p ∈ g.productions) :
    p.lhs.index < g.nonterminals.length := by
  obtain ⟨r, hr, hlhs, -⟩ := mem_productions.mp hp
  exact (hg.mem_lhs p.lhs).mp (List.mem_map.mpr ⟨r, hr, hlhs⟩)

/-- **The right-hand sides of a nonterminal are those of its
productions.** -/
theorem mem_alternatives (hg : g.WellFormed) {x : Nonterminal} {rhs : List Symbol} :
    rhs ∈ g.alternatives x ↔ ⟨x, rhs⟩ ∈ g.productions := by
  rw [mem_productions, alternatives]
  cases hf : g.rules.find? (fun r => r.lhs = x) with
  | none =>
    have hnone := List.find?_eq_none.mp hf
    simp only [Option.map_none, Option.getD_none, List.not_mem_nil, false_iff]
    rintro ⟨r, hr, hlhs, -⟩
    exact hnone r hr (by simpa using hlhs)
  | some r =>
    have hr := List.mem_of_find?_eq_some hf
    have hx : r.lhs = x := by simpa using List.find?_some hf
    simp only [Option.map_some, Option.getD_some]
    constructor
    · exact fun h => ⟨r, hr, hx, h⟩
    · rintro ⟨q, hq, hqx, h⟩
      have : q = r := List.inj_on_of_nodup_map hg.lhs_nodup hq hr (by rw [hqx, hx])
      rwa [← this]

end WellFormed

/-! ## Production numbers -/

theorem le_start_rangeFrom (x : Nonterminal) (first : Nat) (rules : List Rule) :
    first ≤ (rangeFrom x first rules).start := by
  induction rules generalizing first with
  | nil => exact Nat.le_refl _
  | cons r rules ih =>
    rw [rangeFrom]
    split
    · exact Nat.le_refl _
    · exact Nat.le_trans (Nat.le_add_right _ _) (ih _)

/-- The productions of the rules after the first one follow those of the
first one. -/
theorem mem_rangeFrom {rules : List Rule} (hn : (rules.map Rule.lhs).Nodup) {x : Nonterminal}
    {first n : Nat} {q : Production} (h : (rules.flatMap Rule.productions)[n]? = some q) :
    q.lhs = x ↔ (rangeFrom x first rules).start ≤ first + n
      ∧ first + n < (rangeFrom x first rules).stop := by
  induction rules generalizing first n with
  | nil => simp at h
  | cons r rules ih =>
    obtain ⟨hr, hn⟩ := List.nodup_cons.mp hn
    have hlen : r.productions.length = r.alternatives.length := List.length_map _
    rw [List.flatMap_cons] at h
    rw [rangeFrom]
    by_cases hlt : n < r.alternatives.length
    · -- a production of the first rule
      rw [List.getElem?_append_left (by omega)] at h
      have hq : q.lhs = r.lhs := by
        obtain ⟨_, _, rfl⟩ := List.mem_map.mp (List.mem_of_getElem? h)
        rfl
      by_cases hx : r.lhs = x
      · rw [if_pos hx]
        exact iff_of_true (hq.trans hx) ⟨Nat.le_add_right _ _, Nat.add_lt_add_left hlt _⟩
      · rw [if_neg hx]
        have := le_start_rangeFrom x (first + r.alternatives.length) rules
        exact iff_of_false (fun he => hx (hq.symm.trans he)) (fun he => by omega)
    · -- a production of a later rule
      rw [List.getElem?_append_right (by omega), hlen] at h
      by_cases hx : r.lhs = x
      · rw [if_pos hx]
        refine iff_of_false (fun he => hr ?_) (fun he => by simp only at he; omega)
        obtain ⟨s, hs, hq⟩ := List.mem_flatMap.mp (List.mem_of_getElem? h)
        obtain ⟨_, _, rfl⟩ := List.mem_map.mp hq
        exact List.mem_map.mpr ⟨s, hs, he.trans hx.symm⟩
      · rw [if_neg hx, ih hn h,
          show first + r.alternatives.length + (n - r.alternatives.length) = first + n by
            omega]

/-- **The numbers of the productions of a nonterminal are its range.** -/
theorem WellFormed.mem_productionRange (hg : g.WellFormed) {x : Nonterminal} {n : Nat}
    {q : Production} (h : g.productions[n]? = some q) :
    q.lhs = x ↔ (g.productionRange x).start ≤ n ∧ n < (g.productionRange x).stop := by
  have hrange : q.lhs = x ↔ (rangeFrom x 0 g.rules).start ≤ 0 + n
      ∧ 0 + n < (rangeFrom x 0 g.rules).stop := mem_rangeFrom hg.lhs_nodup h
  rwa [Nat.zero_add] at hrange

end Grammar

end GrammarAnalysis
