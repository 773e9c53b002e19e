import GrammarAnalysis.Proofs.Productions

/-!
# Names and numbers

The analyses handle symbols and productions by number only: they look a
nonterminal up in a table of sets, a production in a list, and a
production range in both. None of these look-ups is checked where it is
made. `Grammar.Numbered` is the reason why none has to be: names and
numbers determine each other, every symbol of a right-hand side has a
number in range, and the production numbers are divided among the
nonterminals without gap or overlap.

`Constructed.numbered` says that every grammar that is read is numbered
so. The first half is about lists of names of which none occurs twice;
the second is about the rules, whose alternatives are numbered through
(`Grammar.rangeFrom`).
-/

namespace GrammarAnalysis.Grammar

variable {g : Grammar} {x : Nonterminal} {t : Terminal} {s : Symbol} {name : String}

/-! ## Names -/

theorem mem_allNonterminals : x ∈ g.allNonterminals ↔ x.index < g.nonterminals.length := by
  unfold allNonterminals
  rw [List.mem_map]
  constructor
  · rintro ⟨i, hi, rfl⟩
    exact List.mem_range.mp hi
  · exact fun h => ⟨x.index, List.mem_range.mpr h, rfl⟩

/-- In a list of names, the place of a name is a place in the list at
which the name is read. -/
theorem getElem?_eq_some_iff_getD {names : List String} {i : Nat} :
    names[i]? = some name ↔ i < names.length ∧ names[i]?.getD "" = name := by
  constructor
  · intro h
    exact ⟨(List.getElem?_eq_some_iff.mp h).1, by rw [h, Option.getD_some]⟩
  · rintro ⟨hlt, h⟩
    rw [List.getElem?_eq_getElem hlt, Option.getD_some] at h
    rw [List.getElem?_eq_getElem hlt, h]

/-- A declared terminal is printed by its declared name. -/
theorem terminalName_of_lt (ht : t.index < g.terminals.length) :
    g.terminalName t = g.terminals[t.index]?.getD "" := by
  unfold terminalName
  rw [if_neg (ne_endMarker ht)]

namespace WellFormed

/-- **A nonterminal is found under its name and no other.** -/
theorem nonterminal?_eq_some_iff (hg : g.WellFormed) :
    g.nonterminal? name = some x ↔ g.IsDeclared (.nonterminal x) ∧ g.nonterminalName x = name := by
  rw [nonterminal?_eq_some hg.nonterminals_nodup, getElem?_eq_some_iff_getD]
  exact Iff.rfl

/-- **A terminal is found under its name and no other.** -/
theorem terminal?_eq_some_iff (hg : g.WellFormed) :
    g.terminal? name = some t ↔ g.IsDeclared (.terminal t) ∧ g.terminalName t = name := by
  rw [terminal?_eq_some hg.terminals_nodup, getElem?_eq_some_iff_getD]
  refine and_congr_right (fun ht => ?_)
  rw [terminalName_of_lt ht]

/-- A name that is found among the terminals is not among the
nonterminals. -/
theorem nonterminal?_eq_none (hg : g.WellFormed) (h : g.terminal? name = some t) :
    g.nonterminal? name = none := by
  rw [Option.eq_none_iff_forall_ne_some]
  intro x hx
  have hnt := List.mem_of_getElem? ((nonterminal?_eq_some hg.nonterminals_nodup).mp hx)
  have ht := List.mem_of_getElem? ((terminal?_eq_some hg.terminals_nodup).mp h)
  exact hg.disjoint name hnt ht

/-- **A symbol is found under its name and no other.** -/
theorem symbol?_eq_some_iff (hg : g.WellFormed) :
    g.symbol? name = some s ↔ g.IsDeclared s ∧ g.symbolName s = name := by
  cases s with
  | nonterminal x =>
    refine Iff.trans ⟨symbol?_eq_nonterminal, fun h => ?_⟩ hg.nonterminal?_eq_some_iff
    rw [symbol?, h]
  | terminal t =>
    refine Iff.trans ⟨symbol?_eq_terminal, fun h => ?_⟩ hg.terminal?_eq_some_iff
    rw [symbol?, hg.nonterminal?_eq_none h, h]
    rfl

/-- The epsilon terminal is found under its reserved name. -/
theorem terminal?_epsilonName (hg : g.WellFormed) : g.terminal? epsilonName = some g.epsilon :=
  (terminal?_eq_some hg.terminals_nodup).mpr (getElem?_epsilon hg.epsilon_mem)

/-- The end-marker is not found among the terminals. -/
theorem terminal?_endMarkerName (hg : g.WellFormed) : g.terminal? endMarkerName = none := by
  rw [Option.eq_none_iff_forall_ne_some]
  intro t ht
  have hmem := List.mem_of_getElem? ((terminal?_eq_some hg.terminals_nodup).mp ht)
  exact (hg.name_ne endMarkerName (Or.inr hmem)).2 rfl

end WellFormed

/-! ## Production numbers -/

/-- Whether a production number is in a range. -/
def InRange (g : Grammar) (x : Nonterminal) (n : Nat) : Prop :=
  (g.productionRange x).start ≤ n ∧ n < (g.productionRange x).stop

instance (g : Grammar) (x : Nonterminal) (n : Nat) : Decidable (g.InRange x n) :=
  inferInstanceAs (Decidable (_ ∧ _))

/-- The range of a nonterminal with a rule is as long as the rule has
alternatives, and does not reach beyond the last production. -/
theorem exists_rule_rangeFrom {rules : List Rule} (hx : x ∈ rules.map Rule.lhs) (first : Nat) :
    ∃ r ∈ rules, (rangeFrom x first rules).stop
        = (rangeFrom x first rules).start + r.alternatives.length
      ∧ (rangeFrom x first rules).stop ≤ first + (rules.flatMap Rule.productions).length := by
  induction rules generalizing first with
  | nil => exact absurd hx List.not_mem_nil
  | cons r rules ih =>
    have hlen : r.productions.length = r.alternatives.length := List.length_map _
    rw [List.flatMap_cons, List.length_append, hlen, rangeFrom]
    by_cases hr : r.lhs = x
    · rw [if_pos hr]
      exact ⟨r, List.mem_cons_self, rfl, by simp only; omega⟩
    · rw [if_neg hr]
      obtain hx | hx := List.mem_cons.mp hx
      · exact absurd hx.symm hr
      obtain ⟨q, hq, hstop, hle⟩ := ih hx (first + r.alternatives.length)
      exact ⟨q, List.mem_cons_of_mem r hq, hstop, by omega⟩

namespace WellFormed

/-- **The range of a declared nonterminal holds a number**, and only
numbers of productions. -/
theorem productionRange_bounds (hg : g.WellFormed) (hx : x.index < g.nonterminals.length) :
    (g.productionRange x).start < (g.productionRange x).stop
      ∧ (g.productionRange x).stop ≤ g.productions.length := by
  obtain ⟨r, hr, hstop, hle⟩ := exists_rule_rangeFrom ((hg.mem_lhs x).mpr hx) 0
  have hpos := List.length_pos_iff.mpr (hg.alternatives_ne_nil r hr)
  rw [Nat.zero_add] at hle
  exact ⟨show (rangeFrom x 0 g.rules).start < (rangeFrom x 0 g.rules).stop by omega, hle⟩

/-- A number in the range of a declared nonterminal is that of one of its
productions. -/
theorem exists_getElem?_of_inRange (hg : g.WellFormed) (hx : x.index < g.nonterminals.length)
    {n : Nat} (hn : g.InRange x n) : ∃ p, g.productions[n]? = some p ∧ p.lhs = x := by
  have hlt : n < g.productions.length :=
    Nat.lt_of_lt_of_le hn.2 (hg.productionRange_bounds hx).2
  have hp := List.getElem?_eq_getElem hlt
  exact ⟨_, hp, (hg.mem_productionRange hp).mpr hn⟩

/-- Every production number is in the range of a declared nonterminal. -/
theorem exists_inRange (hg : g.WellFormed) {n : Nat} (hn : n < g.productions.length) :
    ∃ x, x.index < g.nonterminals.length ∧ g.InRange x n := by
  have hp := List.getElem?_eq_getElem hn
  exact ⟨_, hg.lhs_lt_of_mem (List.mem_of_getElem? hp), (hg.mem_productionRange hp).mp rfl⟩

end WellFormed

/-! ## Numbered grammars -/

/-- **What the analyses rely on**: the grammar is well-formed, symbols
and their names determine each other, and the production numbers are
divided among the nonterminals. -/
structure Numbered (g : Grammar) : Prop extends g.WellFormed where
  nonterminal?_iff : ∀ name x,
    g.nonterminal? name = some x ↔ g.IsDeclared (.nonterminal x) ∧ g.nonterminalName x = name
  terminal?_iff : ∀ name t,
    g.terminal? name = some t ↔ g.IsDeclared (.terminal t) ∧ g.terminalName t = name
  symbol?_iff : ∀ name s,
    g.symbol? name = some s ↔ g.IsDeclared s ∧ g.symbolName s = name
  terminal?_epsilonName : g.terminal? epsilonName = some g.epsilon
  terminal?_endMarkerName : g.terminal? endMarkerName = none
  range_nonempty : ∀ x ∈ g.allNonterminals,
    (g.productionRange x).start < (g.productionRange x).stop
  range_disjoint : ∀ x ∈ g.allNonterminals, ∀ y ∈ g.allNonterminals, ∀ n,
    g.InRange x n → g.InRange y n → x = y
  range_cover : ∀ n, n < g.productions.length ↔ ∃ x ∈ g.allNonterminals, g.InRange x n
  /-- The productions in the range of a nonterminal are its own. -/
  lhs_of_inRange : ∀ x ∈ g.allNonterminals, ∀ n, g.InRange x n →
    ∃ p, g.productions[n]? = some p ∧ p.lhs = x
  isRhs_of_mem : ∀ p ∈ g.productions, g.IsRhs p.rhs

/-- **Every constructed grammar is numbered.** -/
theorem numbered_of_constructed (h : g.Constructed) : g.Numbered := by
  have hg := h.wellFormed
  refine
    { hg with
      nonterminal?_iff := fun name x => hg.nonterminal?_eq_some_iff
      terminal?_iff := fun name t => hg.terminal?_eq_some_iff
      symbol?_iff := fun name s => hg.symbol?_eq_some_iff
      terminal?_epsilonName := hg.terminal?_epsilonName
      terminal?_endMarkerName := hg.terminal?_endMarkerName
      range_nonempty := fun x hx => (hg.productionRange_bounds (mem_allNonterminals.mp hx)).1
      range_disjoint := fun x hx y hy n hxn hyn => ?_
      range_cover := fun n => ⟨fun hn => ?_, fun ⟨x, hx, hn⟩ => ?_⟩
      lhs_of_inRange := fun x hx n => hg.exists_getElem?_of_inRange (mem_allNonterminals.mp hx)
      isRhs_of_mem := fun p hp => hg.isRhs_of_mem hp }
  · -- the production of a common number has one left-hand side
    obtain ⟨p, hp, rfl⟩ := hg.exists_getElem?_of_inRange (mem_allNonterminals.mp hx) hxn
    exact (hg.mem_productionRange hp).mpr hyn
  · obtain ⟨x, hx, hxn⟩ := hg.exists_inRange hn
    exact ⟨x, mem_allNonterminals.mpr hx, hxn⟩
  · exact Nat.lt_of_lt_of_le hn.2 (hg.productionRange_bounds (mem_allNonterminals.mp hx)).2

/-- In the grammar of brackets the name `L` is that of the second
nonterminal, and the one production of `L` comes after those of `S`. -/
theorem numbered_brackets :
    brackets.Constructed ∧ brackets.nonterminal? "L" = some ⟨1⟩
      ∧ brackets.terminal? endMarkerName = none ∧ brackets.InRange ⟨1⟩ 3
      ∧ ¬ brackets.InRange ⟨0⟩ 3 := by
  have h := numbered_of_constructed constructed_brackets
  have hL : brackets.InRange ⟨1⟩ 3 := by decide
  refine ⟨constructed_brackets, (h.nonterminal?_iff _ _).mpr ⟨Nat.one_lt_two, rfl⟩,
    h.terminal?_endMarkerName, hL, fun hS => ?_⟩
  exact absurd (h.range_disjoint ⟨0⟩ (by decide) ⟨1⟩ (by decide) 3 hS hL) (by decide)

end GrammarAnalysis.Grammar
