import GrammarAnalysis.Proofs.Numbering
import GrammarAnalysis.Proofs.Viability
import Mathlib.Data.Prod.Lex
import Mathlib.Data.Set.Card

/-!
# The entries of a parsing table

A parsing table is given as the list of its entries: production by production,
and for each the lookaheads of its SELECT set in ascending order. A table may
also be *filled*, one entry after the other (`TableFilling`). Then an entry for
a cell that is taken replaces the one there, which is lost, and keeps its place
in the list. So a filled table is the list of what was put into it only where
every cell is empty when its entry comes.

That is the case for the table of a grammar without conflicts. Two entries of
one cell would be two productions of one nonterminal that are selected by one
lookahead, or the same production twice; but the list ascends strictly in
production and lookahead (`pairwise_entries`). So nothing is overwritten, and
the table says of each cell which production is selected there
(`ParsingTable.Represents`).
-/

namespace GrammarAnalysis

/-- **The cell of an entry.** -/
def TableEntry.cell (e : TableEntry) : Nonterminal × Terminal :=
  (e.nonterminal, e.lookahead)

/-- **The place of an entry**: first its production counts, then its
lookahead. -/
def TableEntry.place (e : TableEntry) : ℕ ×ₗ ℕ :=
  toLex (e.production, e.lookahead.index)

/-- **A table that is being filled.** -/
structure TableFilling where
  /-- The table so far. -/
  table : ParsingTable
  /-- The productions that have been overwritten. -/
  overwritten : List Nat

namespace TableFilling

/-- Puts an entry into the table: at the end if its cell is empty, and else in
the place of the entry that is there. -/
def insert (f : TableFilling) (e : TableEntry) : TableFilling :=
  match f.table.get? e.nonterminal e.lookahead with
  | none => ⟨⟨f.table.entries ++ [e]⟩, f.overwritten⟩
  | some old => ⟨⟨f.table.entries.map fun e' => if e'.cell = e.cell then e else e'⟩,
      f.overwritten ++ [old]⟩

/-- **Fills a table** from the SELECT sets of a grammar: production by
production, and lookahead by lookahead. -/
def fill (g : Grammar) (select : List TerminalSet) : TableFilling :=
  (g.productions.zip select).zipIdx.foldl
    (fun f ((p, s), number) => s.toList.foldl (fun f t => f.insert ⟨p.lhs, t, number⟩) f)
    ⟨⟨[]⟩, []⟩

end TableFilling

namespace ParsingTable

variable {entries later : List TableEntry} {overwritten : List Nat} {e : TableEntry}

/-- A cell is empty when no entry is for it. -/
theorem get?_eq_none_iff : (⟨entries⟩ : ParsingTable).get? e.nonterminal e.lookahead = none
    ↔ e.cell ∉ entries.map TableEntry.cell := by
  unfold get?
  rw [Option.map_eq_none_iff, List.find?_eq_none]
  simp [TableEntry.cell, Prod.ext_iff]

/-- **Entries of different cells** are all put at the end. -/
theorem foldl_insert (h : ((entries ++ later).map TableEntry.cell).Nodup) :
    later.foldl TableFilling.insert ⟨⟨entries⟩, overwritten⟩
      = ⟨⟨entries ++ later⟩, overwritten⟩ := by
  induction later generalizing entries with
  | nil => rw [List.foldl_nil, List.append_nil]
  | cons e later ih =>
    have hempty : (⟨entries⟩ : ParsingTable).get? e.nonterminal e.lookahead = none := by
      rw [get?_eq_none_iff]
      rw [List.map_append, List.map_cons] at h
      exact fun hmem => (List.nodup_append.mp h).2.2 _ hmem _ List.mem_cons_self rfl
    have hinsert : TableFilling.insert ⟨⟨entries⟩, overwritten⟩ e
        = ⟨⟨entries ++ [e]⟩, overwritten⟩ := by
      rw [TableFilling.insert, hempty]
    rw [List.foldl_cons, hinsert, ih (by simpa using h), List.append_assoc, List.singleton_append]

/-- **Filling is inserting the entries of the table.** -/
theorem fill_eq_foldl (g : Grammar) (select : List TerminalSet) :
    TableFilling.fill g select
      = (ofSelect g select).entries.foldl TableFilling.insert ⟨⟨[]⟩, []⟩ := by
  unfold TableFilling.fill ofSelect entriesOf
  simp only [List.foldl_flatMap, List.foldl_map]

/-- **The entries ascend** in production and lookahead. -/
theorem pairwise_entries (g : Grammar) (select : List TerminalSet) :
    (ofSelect g select).entries.Pairwise (fun e f => e.place < f.place) := by
  refine List.pairwise_flatMap.mpr ⟨fun _ _ => ?_, ?_⟩
  · refine List.pairwise_map.mpr ((TerminalSet.pairwise_toList _).imp fun hlt => ?_)
    exact Prod.Lex.toLex_lt_toLex.mpr (Or.inr ⟨rfl, hlt⟩)
  · refine (pairwise_zipIdx _).imp fun hlt e he f hf => ?_
    obtain ⟨_, -, rfl⟩ := List.mem_map.mp he
    obtain ⟨_, -, rfl⟩ := List.mem_map.mp hf
    exact Prod.Lex.toLex_lt_toLex.mpr (Or.inl hlt)

/-- **Where a lookahead selects one production only**, no two entries are for
one cell. -/
theorem nodup_map_cell {g : Grammar} {sel : Production → TerminalSet}
    (hd : g.IsDeterministic sel) :
    ((ofSelect g (g.productions.map sel)).entries.map TableEntry.cell).Nodup := by
  refine List.pairwise_map.mpr ((pairwise_entries g _).imp_of_mem fun {e f} he hf hlt hcell => ?_)
  obtain ⟨p, hp, hpx, htp⟩ := Grammar.mem_entries_ofSelect.mp he
  obtain ⟨q, hq, hqx, htq⟩ := Grammar.mem_entries_ofSelect.mp hf
  obtain ⟨hx, ht⟩ := Prod.mk.inj hcell
  have hnumber := hd _ _ p q hp hq (by rw [hpx, hqx, hx]) _ htp (ht ▸ htq)
  rw [TableEntry.place, TableEntry.place, hnumber, ht] at hlt
  exact lt_irrefl _ hlt

theorem ncard_setOf_mem (s : TerminalSet) : {t | t ∈ s}.ncard = s.toList.length := by
  have hset : {t | t ∈ s} = (s.toList.toFinset : Set Terminal) := by
    ext t
    simp
  rw [hset, Set.ncard_coe_finset, List.toFinset_card_of_nodup s.nodup_toList]

/-- **There are as many entries as members of SELECT sets.** -/
theorem length_entries (g : Grammar) (sel : Production → TerminalSet) :
    (ofSelect g (g.productions.map sel)).entries.length
      = ((g.productions.map sel).map fun s => {t | t ∈ s}.ncard).sum := by
  have hlength : ∀ pair : (Production × TerminalSet) × Nat,
      (entriesOf pair.1.1 pair.2 pair.1.2).length = {t | t ∈ pair.1.2}.ncard := fun pair => by
    rw [entriesOf, List.length_map, ncard_setOf_mem]
  have hsnd : ((g.productions.zip (g.productions.map sel)).zipIdx.map Prod.fst).map Prod.snd
      = g.productions.map sel := by
    rw [List.zipIdx_map_fst]
    exact List.map_snd_zip (by rw [List.length_map])
  conv_rhs => rw [← hsnd, List.map_map, List.map_map]
  unfold ofSelect
  rw [List.length_flatMap]
  simp only [hlength]
  rfl

/-- A production of a nonterminal with a lookahead in its set, said with the
production and said with numbers only. -/
theorem exists_production_iff {g : Grammar} (hg : g.WellFormed) {sel : Production → TerminalSet}
    {x : Nonterminal} (hx : x ∈ g.allNonterminals) {t : Terminal} {n : Nat} :
    (∃ p, g.productions[n]? = some p ∧ p.lhs = x ∧ t ∈ sel p)
      ↔ g.InRange x n ∧ ∃ s, (g.productions.map sel)[n]? = some s ∧ t ∈ s := by
  rw [List.getElem?_map]
  constructor
  · rintro ⟨p, hp, hpx, ht⟩
    exact ⟨(hg.mem_productionRange hp).mp hpx, sel p, by rw [hp, Option.map_some], ht⟩
  · rintro ⟨hn, s, hs, ht⟩
    obtain ⟨p, hp, hpx⟩ := hg.exists_getElem?_of_inRange (Grammar.mem_allNonterminals.mp hx) hn
    rw [hp, Option.map_some] at hs
    exact ⟨p, hp, hpx, Option.some.inj hs ▸ ht⟩

/-- **A table of the SELECT sets of an analysis**: filling it overwrites
nothing, and it is a function of the cell. -/
structure Represents (table : ParsingTable) (a : LookaheadAnalysis) : Prop where
  /-- The table is filled without an entry being lost. -/
  fill_eq : TableFilling.fill a.grammar a.select = ⟨table, []⟩
  get?_iff : ∀ x ∈ a.grammar.allNonterminals, ∀ t n, table.get? x t = some n ↔
    a.grammar.InRange x n ∧ ∃ s, a.select[n]? = some s ∧ t ∈ s
  /-- Of the productions of a nonterminal a lookahead selects at most one. -/
  unique : ∀ x ∈ a.grammar.allNonterminals, ∀ m n s s' t, a.grammar.InRange x m →
    a.grammar.InRange x n → a.select[m]? = some s → a.select[n]? = some s' → t ∈ s → t ∈ s' → m = n
  epsilon_eq_none : ∀ x, table.get? x a.grammar.epsilon = none
  /-- The entries are those of the cells that are not empty, ... -/
  mem_entries_iff : ∀ x t n, ⟨x, t, n⟩ ∈ table.entries ↔ table.get? x t = some n
  /-- ... each of them once, ... -/
  nodup_cells : (table.entries.map TableEntry.cell).Nodup
  /-- ... in the order of production and lookahead. -/
  pairwise_places : table.entries.Pairwise (fun e f => e.place < f.place)
  length_entries : table.entries.length = (a.select.map fun s => {t | t ∈ s}.ncard).sum
  /-- A production that derives the empty string is chosen before all that
  follows its nonterminal. -/
  get?_of_derives_nil : ∀ n p, a.grammar.productions[n]? = some p →
    a.grammar.Derives (a.grammar.expansion p.rhs) [] →
      ∀ t ∈ a.followOf p.lhs, table.get? p.lhs t = some n

/-- **The table of a grammar that is LL(1)** is filled without an entry being
overwritten, and has for every cell the production that is selected there. -/
theorem table_exact {g : Grammar} (hg : g.Constructed)
    (hll : (LookaheadAnalysis.ofGrammar g).isLL1 = true) :
    ∃ p, PredictiveParser.ofAnalysis (.ofGrammar g) = .ok p
      ∧ p.table.Represents (.ofGrammar g) := by
  have hwf := hg.wellFormed
  have hd := (LookaheadAnalysis.isLL1_ofGrammar_iff hwf).mp hll
  obtain ⟨p, hp⟩ := (PredictiveParser.exists_ofAnalysis_iff (.ofGrammar g)).mpr hll
  obtain ⟨-, rfl⟩ := PredictiveParser.eq_of_ofAnalysis hp
  have hget : ∀ x t n, (ofSelect g (g.productions.map g.select)).get? x t = some n ↔
      ∃ p, g.productions[n]? = some p ∧ p.lhs = x ∧ t ∈ g.select p :=
    fun x t n => Grammar.get?_ofSelect_eq_some_iff hd
  refine ⟨_, hp,
    { fill_eq := ?_
      get?_iff := ?_
      unique := ?_
      epsilon_eq_none := ?_
      mem_entries_iff := fun x t n => Grammar.mem_entries_ofSelect.trans (hget x t n).symm
      nodup_cells := nodup_map_cell hd
      pairwise_places := pairwise_entries g _
      length_entries := length_entries g g.select
      get?_of_derives_nil := ?_ }⟩
  · rw [fill_eq_foldl]
    exact foldl_insert (nodup_map_cell hd)
  · exact fun x hx t n => (hget x t n).trans (exists_production_iff hwf hx)
  · -- both are the production of the cell
    intro x hx m n s s' t hm hn hs hs' ht ht'
    have hgetm := (hget x t m).mpr ((exists_production_iff hwf hx).mpr ⟨hm, s, hs, ht⟩)
    have hgetn := (hget x t n).mpr ((exists_production_iff hwf hx).mpr ⟨hn, s', hs', ht'⟩)
    exact Option.some.inj (hgetm.symm.trans hgetn)
  · intro x
    rw [Option.eq_none_iff_forall_ne_some]
    intro n hn
    obtain ⟨p, hp, -, ht⟩ := (hget x _ n).mp hn
    have hmem := List.mem_of_getElem? hp
    exact (hwf.isLookahead_of_viable hmem ((hwf.mem_select_iff_viable hmem).mp ht)).1 rfl
  · intro n p hp hvanish t ht
    have hselects : g.Selects p t := Or.inr ⟨hvanish, hwf.mem_solveFollow_iff.mp ht⟩
    exact (hget p.lhs t n).mpr
      ⟨p, hp, rfl, (hwf.mem_select_iff (List.mem_of_getElem? hp)).mpr hselects⟩

/-- The table of the grammar of brackets has three entries: `S` is replaced by
`(S)S` before an opening bracket, and vanishes before a closing one and at the
end. -/
theorem table_exact_brackets :
    Grammar.brackets.Constructed
      ∧ (LookaheadAnalysis.ofGrammar Grammar.brackets).isLL1 = true
      ∧ ∃ p, PredictiveParser.ofAnalysis (.ofGrammar Grammar.brackets) = .ok p
        ∧ p.table.get? ⟨0⟩ ⟨0⟩ = some 0 ∧ p.table.get? ⟨0⟩ ⟨1⟩ = some 1
        ∧ p.table.entries.length = 3 := by
  have hll : (LookaheadAnalysis.ofGrammar Grammar.brackets).isLL1 = true := by decide +kernel
  have hselect : (LookaheadAnalysis.ofGrammar Grammar.brackets).select
      = [⟨1⟩, ⟨10⟩, ⟨0⟩, ⟨0⟩] := by decide +kernel
  obtain ⟨p, hp, h⟩ := table_exact Grammar.constructed_brackets hll
  refine ⟨Grammar.constructed_brackets, hll, p, hp, ?_, ?_, ?_⟩
  · refine (h.get?_iff ⟨0⟩ (by decide) ⟨0⟩ 0).mpr ⟨by decide +kernel, ⟨1⟩, ?_, by decide⟩
    rw [hselect]
    rfl
  · refine (h.get?_iff ⟨0⟩ (by decide) ⟨1⟩ 1).mpr ⟨by decide +kernel, ⟨10⟩, ?_, by decide⟩
    rw [hselect]
    rfl
  · rw [h.length_entries, hselect]
    simp only [ncard_setOf_mem]
    decide +kernel

end ParsingTable

end GrammarAnalysis
