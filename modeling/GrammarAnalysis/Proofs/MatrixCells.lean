import GrammarAnalysis.Proofs.PrecedenceMatrix
import Mathlib.Data.Prod.Lex
import Mathlib.Data.List.Nodup

/-!
# The cells of a matrix, one by one

A matrix lists its relations row by row (`pairwise_toList`), and lists
exactly the relations that can be looked up (`mem_toList_iff`). It counts
them in another way, by going through its cells. The two numbers agree
only if no relation is hidden in a cell that belongs to no pair of
terminals, such as a cell in the row of the epsilon terminal. A matrix
without such cells is confined (`IsConfined`). Filling never leaves the
confined matrices (`Filling.isConfined_addAll`), since an assertion about
a terminal without a row is passed over.
-/

namespace GrammarAnalysis

namespace PrecedenceMatrix

variable {m : PrecedenceMatrix} {l r t : Terminal} {relation : Relation}
  {e e' : Terminal × Relation × Terminal}

/-! ## The listed relations -/

/-- **Row-major order**: first by the number of the left terminal, then by
that of the right one. -/
def RowMajor (e e' : Terminal × Relation × Terminal) : Prop :=
  toLex (e.1.index, e.2.2.index) < toLex (e'.1.index, e'.2.2.index)

@[simp] theorem mem_terminals_iff : t ∈ m.terminals ↔ m.covers t = true := by
  rw [covers_iff, terminals, List.mem_filter, List.mem_map]
  constructor
  · rintro ⟨⟨n, hn, rfl⟩, hne⟩
    exact ⟨List.mem_range.mp hn, by simpa using hne⟩
  · rintro ⟨hlt, hne⟩
    exact ⟨⟨t.index, List.mem_range.mpr hlt, rfl⟩, by simpa using hne⟩

theorem pairwise_terminals (m : PrecedenceMatrix) :
    m.terminals.Pairwise (fun t u => t.index < u.index) := by
  have hrange : ((List.range m.size).map Terminal.mk).Pairwise (fun t u => t.index < u.index) :=
    List.pairwise_map.mpr List.pairwise_lt_range
  exact hrange.filter _

/-- Only terminals with a row and a column have a relation. -/
theorem covers_of_get?_eq_some (h : m.get? l r = some relation) :
    m.covers l = true ∧ m.covers r = true := by
  unfold get? at h
  split at h
  · next hcovers => exact Bool.and_eq_true_iff.mp hcovers
  · cases h

/-- **A matrix lists the relations that can be looked up in it.** -/
theorem mem_toList_iff : (l, relation, r) ∈ m.toList ↔ m.get? l r = some relation := by
  simp only [toList, List.mem_flatMap, List.mem_filterMap, Option.map_eq_some_iff, Prod.mk.injEq,
    mem_terminals_iff]
  constructor
  · rintro ⟨_, -, _, -, _, hget, rfl, rfl, rfl⟩
    exact hget
  · intro hget
    obtain ⟨hl, hr⟩ := covers_of_get?_eq_some hget
    exact ⟨l, hl, r, hr, relation, hget, rfl, rfl, rfl⟩

/-- **Relations are listed row by row**, none of them twice. -/
theorem pairwise_toList (m : PrecedenceMatrix) : m.toList.Pairwise RowMajor := by
  unfold toList RowMajor
  simp only [Prod.Lex.toLex_lt_toLex]
  refine List.pairwise_flatMap.mpr ⟨fun l _ => ?_, m.pairwise_terminals.imp ?_⟩
  · -- in one row, by columns
    refine List.pairwise_filterMap.mpr (m.pairwise_terminals.imp fun hlt e he e' he' => ?_)
    obtain ⟨_, -, rfl⟩ := Option.map_eq_some_iff.mp he
    obtain ⟨_, -, rfl⟩ := Option.map_eq_some_iff.mp he'
    exact Or.inr ⟨rfl, hlt⟩
  · intro l l' hlt e he e' he'
    obtain ⟨_, -, he⟩ := List.mem_filterMap.mp he
    obtain ⟨_, -, rfl⟩ := Option.map_eq_some_iff.mp he
    obtain ⟨_, -, he'⟩ := List.mem_filterMap.mp he'
    obtain ⟨_, -, rfl⟩ := Option.map_eq_some_iff.mp he'
    exact Or.inl hlt

/-! ## Confined matrices -/

/-- **A confined matrix** is square and holds relations only in the cells
of terminals that have a row and a column. -/
structure IsConfined (m : PrecedenceMatrix) : Prop where
  isSquare : m.IsSquare
  exists_place : ∀ k relation, m.cells[k]? = some (some relation) →
    ∃ l r, m.covers l = true ∧ m.covers r = true ∧ m.place l r = k

theorem isConfined_blank (g : Grammar) : (blank g).IsConfined where
  isSquare := by simp [IsSquare, blank]
  exists_place := fun k relation h => by
    rw [blank, Array.getElem?_replicate] at h
    split at h <;> cases h

theorem IsConfined.set (hm : m.IsConfined) (hl : m.covers l = true) (hr : m.covers r = true) :
    (m.set l r relation).IsConfined where
  isSquare := (Array.size_setIfInBounds ..).trans hm.isSquare
  exists_place := fun k existing h => by
    by_cases hk : m.place l r = k
    · exact ⟨l, r, hl, hr, hk⟩
    · refine hm.exists_place k existing ?_
      rwa [← Array.getElem?_setIfInBounds_ne hk]

/-- In a confined matrix a cell holds a relation exactly when it is the
cell of a listed one. -/
theorem IsConfined.isSome_cell_iff (hm : m.IsConfined) {k : Nat} :
    ((m.cells[k]?).getD none).isSome = true ↔ k ∈ m.toList.map fun e => m.place e.1 e.2.2 := by
  rw [List.mem_map]
  constructor
  · intro h
    obtain ⟨relation, hrelation⟩ := Option.isSome_iff_exists.mp h
    obtain hnone | hcell := Option.getD_eq_iff.mp hrelation |>.symm
    · cases hnone.2
    · obtain ⟨l, r, hl, hr, rfl⟩ := hm.exists_place k relation hcell
      refine ⟨(l, relation, r), mem_toList_iff.mpr ?_, rfl⟩
      rw [get?_of_covers hl hr, hrelation]
  · rintro ⟨⟨l, relation, r⟩, hmem, rfl⟩
    have hget := mem_toList_iff.mp hmem
    obtain ⟨hl, hr⟩ := covers_of_get?_eq_some hget
    rw [get?_of_covers hl hr] at hget
    rw [hget, Option.isSome_some]

/-- Different listed relations have different cells. -/
theorem nodup_map_place (m : PrecedenceMatrix) :
    (m.toList.map fun e => m.place e.1 e.2.2).Nodup := by
  refine List.pairwise_map.mpr (m.pairwise_toList.imp_of_mem fun {e e'} he he' hlt heq => ?_)
  obtain ⟨-, hr⟩ := covers_of_get?_eq_some (mem_toList_iff.mp he)
  obtain ⟨-, hr'⟩ := covers_of_get?_eq_some (mem_toList_iff.mp he')
  obtain ⟨hl, hr⟩ := (place_inj (covers_iff.mp hr).1 (covers_iff.mp hr').1).mp heq
  rw [RowMajor, hl, hr] at hlt
  exact lt_irrefl _ hlt

/-- **A confined matrix counts the relations it lists.** -/
theorem IsConfined.count_eq (hm : m.IsConfined) : m.count = m.toList.length := by
  have hcells : m.cells.toList =
      (List.range m.cells.size).map (fun k => (m.cells[k]?).getD none) := by
    refine List.ext_getElem (by simp) fun k h h' => ?_
    simp [Array.getElem?_eq_getElem (show k < m.cells.size by simpa using h)]
  have hperm : ((List.range m.cells.size).filter
      (fun k => ((m.cells[k]?).getD none).isSome)).Perm
      (m.toList.map fun e => m.place e.1 e.2.2) := by
    refine (List.perm_ext_iff_of_nodup (List.nodup_range.filter _) m.nodup_map_place).mpr
      fun k => ?_
    rw [List.mem_filter, hm.isSome_cell_iff, and_iff_right_of_imp]
    intro hmem
    obtain ⟨e, he, rfl⟩ := List.mem_map.mp hmem
    obtain ⟨hl, hr⟩ := covers_of_get?_eq_some (mem_toList_iff.mp he)
    rw [List.mem_range, hm.isSquare]
    exact place_lt (covers_iff.mp hl).1 (covers_iff.mp hr).1
  calc m.count = m.cells.toList.countP Option.isSome := Array.countP_toList.symm
    _ = ((List.range m.cells.size).filter
          (fun k => ((m.cells[k]?).getD none).isSome)).length := by
        rw [hcells, List.countP_map, List.countP_eq_length_filter]
        rfl
    _ = m.toList.length := by rw [hperm.length_eq, List.length_map]

end PrecedenceMatrix

namespace Filling

variable {f : Filling}

theorem isConfined_add (hf : f.matrix.IsConfined) (a : Assertion) :
    (f.add a).matrix.IsConfined := by
  unfold add
  split
  · next hcovers =>
    obtain ⟨hl, hr⟩ := Bool.and_eq_true_iff.mp hcovers
    split
    · exact hf.set hl hr
    · split
      · exact hf
      · exact hf
  · exact hf

/-- **Filling keeps a matrix confined.** -/
theorem isConfined_addAll (hf : f.matrix.IsConfined) (l : List Assertion) :
    (f.addAll l).matrix.IsConfined := by
  induction l generalizing f with
  | nil => exact hf
  | cons a l ih =>
    rw [addAll]
    split
    · exact isConfined_add hf a
    · exact ih (isConfined_add hf a)

end Filling

end GrammarAnalysis
