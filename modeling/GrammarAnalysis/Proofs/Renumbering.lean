import GrammarAnalysis.Grammar.Printer
import GrammarAnalysis.Proofs.Numbering
import GrammarAnalysis.Proofs.SelectSets
import Mathlib.Logic.Equiv.Basic

/-!
# Renumbering a grammar

The numbers of symbols and of productions come from the order in which a
grammar is written. A `Renumbering` changes them, and it *carries* one
grammar to another (`Renumbering.Carries`) when the two differ in nothing
else: symbols of one name correspond, and so do the productions, symbol by
symbol. It *embeds* one grammar in another (`Renumbering.Embeds`) when the
second may have more productions.

What is defined by derivations only grows with the productions, and the
finished FIRST, FOLLOW and SELECT sets are defined so. Every statement is
proved of an embedding, in one direction. A renumbering that carries a
grammar embeds it, and the inverse renumbering carries the second grammar
back to the first (`Carries.symm`), which gives the other direction.
-/

namespace GrammarAnalysis

/-- **A change of numbers** of symbols and of productions. -/
structure Renumbering where
  /-- The new number of a nonterminal. -/
  nonterminal : Nonterminal ≃ Nonterminal
  /-- The new number of a terminal. -/
  terminal : Terminal ≃ Terminal
  /-- The new number of a production. -/
  production : ℕ ≃ ℕ

namespace Renumbering

variable {ρ : Renumbering} {g g' : Grammar} {u v : List Symbol} {p : Production}
  {x : Nonterminal} {t : Terminal} {s : TerminalSet}

/-! ## What a renumbering does to symbols, productions and sets -/

/-- The change back. -/
def symm (ρ : Renumbering) : Renumbering where
  nonterminal := ρ.nonterminal.symm
  terminal := ρ.terminal.symm
  production := ρ.production.symm

/-- The new number of a symbol. -/
def symbol (ρ : Renumbering) : Symbol → Symbol
  | .nonterminal x => .nonterminal (ρ.nonterminal x)
  | .terminal t => .terminal (ρ.terminal t)

/-- A production with its symbols renumbered. -/
def rename (ρ : Renumbering) (p : Production) : Production :=
  ⟨ρ.nonterminal p.lhs, p.rhs.map ρ.symbol⟩

/-- A set with its members renumbered. -/
def set (ρ : Renumbering) (s : TerminalSet) : TerminalSet :=
  s.toList.foldr (fun t image => .single (ρ.terminal t) ∪ image) ∅

@[simp] theorem nonterminal_symm : ρ.symm.nonterminal = ρ.nonterminal.symm := rfl

@[simp] theorem terminal_symm : ρ.symm.terminal = ρ.terminal.symm := rfl

@[simp] theorem production_symm : ρ.symm.production = ρ.production.symm := rfl

@[simp] theorem symbol_nonterminal : ρ.symbol (.nonterminal x) = .nonterminal (ρ.nonterminal x) :=
  rfl

@[simp] theorem symbol_terminal : ρ.symbol (.terminal t) = .terminal (ρ.terminal t) := rfl

@[simp] theorem symbol_symm_symbol (s : Symbol) : ρ.symm.symbol (ρ.symbol s) = s := by
  cases s <;> simp

@[simp] theorem symbol_symbol_symm (s : Symbol) : ρ.symbol (ρ.symm.symbol s) = s := by
  cases s <;> simp

theorem symbol_injective (ρ : Renumbering) : Function.Injective ρ.symbol :=
  Function.LeftInverse.injective symbol_symm_symbol

@[simp] theorem symbol_symm_comp_symbol : ρ.symm.symbol ∘ ρ.symbol = id :=
  funext symbol_symm_symbol

@[simp] theorem rename_symm_rename (p : Production) : ρ.symm.rename (ρ.rename p) = p := by
  simp [rename, Function.comp_def]

@[simp] theorem rename_rename_symm (p : Production) : ρ.rename (ρ.symm.rename p) = p := by
  simp [rename, Function.comp_def]

theorem mem_set {a : Terminal} : a ∈ ρ.set s ↔ ∃ t ∈ s, ρ.terminal t = a := by
  have hfoldr : ∀ l : List Terminal,
      a ∈ l.foldr (fun t image => TerminalSet.single (ρ.terminal t) ∪ image) ∅ ↔
        ∃ t ∈ l, ρ.terminal t = a := by
    intro l
    induction l with
    | nil => simp
    | cons t l ih => simp [ih, eq_comm]
  rw [set, hfoldr]
  simp only [TerminalSet.mem_toList]

@[simp] theorem terminal_mem_set : ρ.terminal t ∈ ρ.set s ↔ t ∈ s := by
  rw [mem_set]
  refine ⟨fun ⟨a, ha, h⟩ => ?_, fun h => ⟨t, h, rfl⟩⟩
  rwa [← ρ.terminal.injective h]

/-- A set is the renumbered one when it has the members so. -/
theorem eq_set_iff {s' : TerminalSet} : s' = ρ.set s ↔ ∀ t, ρ.terminal t ∈ s' ↔ t ∈ s := by
  constructor
  · rintro rfl t
    exact terminal_mem_set
  · intro h
    refine TerminalSet.ext_mem fun a => ?_
    obtain ⟨t, rfl⟩ := ρ.terminal.surjective a
    rw [h, terminal_mem_set]

/-! ## Grammars with the same symbols -/

/-- **A renumbering embeds a grammar in another one**: symbols of one name
have corresponding numbers, and every production of the first, once its
symbols are renumbered, is the production of the corresponding number in the
second. -/
structure Embeds (ρ : Renumbering) (g g' : Grammar) : Prop where
  source : g.WellFormed
  target : g'.WellFormed
  nonterminal? : ∀ name, g'.nonterminal? name = (g.nonterminal? name).map ρ.nonterminal
  terminal? : ∀ name, g'.terminal? name = (g.terminal? name).map ρ.terminal
  endMarker : g'.endMarker = ρ.terminal g.endMarker
  start : g'.start = ρ.nonterminal g.start
  getElem?_productions : ∀ n p, g.productions[n]? = some p →
    g'.productions[ρ.production n]? = some (ρ.rename p)

namespace Embeds

/-! ### Names -/

/-- A declared nonterminal has a declared image, of the same name. -/
theorem declared_nonterminal (h : ρ.Embeds g g') (hx : x.index < g.nonterminals.length) :
    (ρ.nonterminal x).index < g'.nonterminals.length
      ∧ g'.nonterminalName (ρ.nonterminal x) = g.nonterminalName x := by
  have hname := h.source.nonterminal?_eq_some_iff.mpr ⟨hx, rfl⟩
  refine h.target.nonterminal?_eq_some_iff.mp ?_
  rw [h.nonterminal?, hname, Option.map_some]

/-- A nonterminal is declared when its image is. -/
theorem nonterminal_lt_iff (h : ρ.Embeds g g') :
    (ρ.nonterminal x).index < g'.nonterminals.length ↔ x.index < g.nonterminals.length := by
  refine ⟨fun hx => ?_, fun hx => (h.declared_nonterminal hx).1⟩
  have hname := h.target.nonterminal?_eq_some_iff.mpr ⟨hx, rfl⟩
  obtain ⟨y, hy, hxy⟩ := Option.map_eq_some_iff.mp ((h.nonterminal? _).symm.trans hname)
  rw [← ρ.nonterminal.injective hxy]
  exact (h.source.nonterminal?_eq_some_iff.mp hy).1

/-- **Nonterminals keep their names.** -/
theorem nonterminalName (h : ρ.Embeds g g') (x : Nonterminal) :
    g'.nonterminalName (ρ.nonterminal x) = g.nonterminalName x := by
  by_cases hx : x.index < g.nonterminals.length
  · exact (h.declared_nonterminal hx).2
  · have hx' := mt h.nonterminal_lt_iff.mp hx
    rw [Grammar.nonterminalName, Grammar.nonterminalName,
      List.getElem?_eq_none (Nat.le_of_not_lt hx), List.getElem?_eq_none (Nat.le_of_not_lt hx')]

/-- A declared terminal has a declared image, of the same name. -/
theorem declared_terminal (h : ρ.Embeds g g') (ht : t.index < g.terminals.length) :
    (ρ.terminal t).index < g'.terminals.length
      ∧ g'.terminalName (ρ.terminal t) = g.terminalName t := by
  have hname := h.source.terminal?_eq_some_iff.mpr ⟨ht, rfl⟩
  refine h.target.terminal?_eq_some_iff.mp ?_
  rw [h.terminal?, hname, Option.map_some]

/-- A terminal is declared when its image is. -/
theorem terminal_lt_iff (h : ρ.Embeds g g') :
    (ρ.terminal t).index < g'.terminals.length ↔ t.index < g.terminals.length := by
  refine ⟨fun ht => ?_, fun ht => (h.declared_terminal ht).1⟩
  have hname := h.target.terminal?_eq_some_iff.mpr ⟨ht, rfl⟩
  obtain ⟨a, ha, hat⟩ := Option.map_eq_some_iff.mp ((h.terminal? _).symm.trans hname)
  rw [← ρ.terminal.injective hat]
  exact (h.source.terminal?_eq_some_iff.mp ha).1

theorem terminal_eq_endMarker_iff (h : ρ.Embeds g g') :
    ρ.terminal t = g'.endMarker ↔ t = g.endMarker := by
  rw [h.endMarker, ρ.terminal.apply_eq_iff_eq]

/-- **Terminals keep their names.** -/
theorem terminalName (h : ρ.Embeds g g') (t : Terminal) :
    g'.terminalName (ρ.terminal t) = g.terminalName t := by
  by_cases ht : t.index < g.terminals.length
  · exact (h.declared_terminal ht).2
  · have ht' := mt h.terminal_lt_iff.mp ht
    simp only [Grammar.terminalName, h.terminal_eq_endMarker_iff]
    rw [List.getElem?_eq_none (Nat.le_of_not_lt ht), List.getElem?_eq_none (Nat.le_of_not_lt ht')]

/-- **A renumbered set has the same names.** -/
theorem setNames_set (h : ρ.Embeds g g') (s : TerminalSet) :
    (g'.setNames (ρ.set s)).Perm (g.setNames s) := by
  have hperm : (ρ.set s).toList.Perm (s.toList.map ρ.terminal) := by
    refine (List.perm_ext_iff_of_nodup (ρ.set s).nodup_toList
      (s.nodup_toList.map ρ.terminal.injective)).mpr ?_
    simp [mem_set]
  rw [Grammar.setNames, Grammar.setNames]
  refine (hperm.map _).trans (List.Perm.of_eq ?_)
  rw [List.map_map]
  exact List.map_congr_left fun t _ => h.terminalName t

theorem symbolName (h : ρ.Embeds g g') (s : Symbol) :
    g'.symbolName (ρ.symbol s) = g.symbolName s := by
  cases s with
  | nonterminal x => exact h.nonterminalName x
  | terminal t => exact h.terminalName t

theorem map_symbolName (h : ρ.Embeds g g') (u : List Symbol) :
    (u.map ρ.symbol).map g'.symbolName = u.map g.symbolName := by
  rw [List.map_map]
  exact List.map_congr_left fun s _ => h.symbolName s

theorem symbolsText_map (h : ρ.Embeds g g') (u : List Symbol) :
    g'.symbolsText (u.map ρ.symbol) = g.symbolsText u := by
  rw [Grammar.symbolsText, h.map_symbolName, Grammar.symbolsText]

/-- Productions are printed alike. -/
theorem productionText_rename (h : ρ.Embeds g g') (p : Production) :
    g'.productionText (ρ.rename p) = g.productionText p := by
  rw [Grammar.productionText, rename, h.nonterminalName, h.symbolsText_map,
    Grammar.productionText]

/-- There are as many nonterminals. -/
theorem length_nonterminals (h : ρ.Embeds g g') :
    g'.nonterminals.length = g.nonterminals.length := by
  have hmem : ∀ {g : Grammar}, g.WellFormed → ∀ name,
      name ∈ g.nonterminals ↔ ∃ x, g.nonterminal? name = some x := by
    intro g hg name
    simp only [Grammar.nonterminal?_eq_some hg.nonterminals_nodup]
    rw [List.mem_iff_getElem?]
    exact ⟨fun ⟨i, hi⟩ => ⟨⟨i⟩, hi⟩, fun ⟨x, hx⟩ => ⟨x.index, hx⟩⟩
  refine ((List.perm_ext_iff_of_nodup h.target.nonterminals_nodup
    h.source.nonterminals_nodup).mpr fun name => ?_).length_eq
  rw [hmem h.target, hmem h.source, h.nonterminal?]
  simp

/-! ### Right-hand sides and derivations -/

theorem epsilon (h : ρ.Embeds g g') : g'.epsilon = ρ.terminal g.epsilon := by
  have hname := h.terminal? epsilonName
  rw [h.source.terminal?_epsilonName, h.target.terminal?_epsilonName] at hname
  exact Option.some.inj hname

/-- The image of a right-hand side is the empty string when the right-hand
side is. -/
theorem map_eq_epsilon_iff (h : ρ.Embeds g g') :
    u.map ρ.symbol = [.terminal g'.epsilon] ↔ u = [.terminal g.epsilon] := by
  have himage : [Symbol.terminal g'.epsilon] = [.terminal g.epsilon].map ρ.symbol := by
    rw [h.epsilon]
    rfl
  rw [himage, (List.map_injective_iff.mpr ρ.symbol_injective).eq_iff]

theorem expansion_map (h : ρ.Embeds g g') (u : List Symbol) :
    g'.expansion (u.map ρ.symbol) = (g.expansion u).map ρ.symbol := by
  unfold Grammar.expansion Grammar.isEpsilonRhs
  simp only [beq_iff_eq, h.map_eq_epsilon_iff]
  split <;> rfl

theorem rename_mem (h : ρ.Embeds g g') (hp : p ∈ g.productions) :
    ρ.rename p ∈ g'.productions := by
  obtain ⟨n, hn⟩ := List.mem_iff_getElem?.mp hp
  exact List.mem_of_getElem? (h.getElem?_productions n p hn)

theorem step (h : ρ.Embeds g g') (hstep : g.Step u v) :
    g'.Step (u.map ρ.symbol) (v.map ρ.symbol) := by
  cases hstep with
  | @expand p hp before after =>
    have himage := Grammar.Step.expand (h.rename_mem hp) (before.map ρ.symbol) (after.map ρ.symbol)
    rw [rename, h.expansion_map] at himage
    simpa using himage

/-- **Derivations go over.** -/
theorem derives (h : ρ.Embeds g g') (hd : g.Derives u v) :
    g'.Derives (u.map ρ.symbol) (v.map ρ.symbol) :=
  Relation.ReflTransGen.lift (List.map ρ.symbol) (fun _ _ => h.step) _ _ hd

theorem begins (h : ρ.Embeds g g') (hb : g.Begins u t) :
    g'.Begins (u.map ρ.symbol) (ρ.terminal t) := by
  obtain ⟨hne, rest, hd⟩ | ⟨rfl, hd⟩ := hb
  · refine Or.inl ⟨?_, rest.map ρ.symbol, h.derives hd⟩
    rwa [h.epsilon, ne_eq, ρ.terminal.apply_eq_iff_eq]
  · exact Or.inr ⟨h.epsilon.symm, h.derives hd⟩

theorem follows (h : ρ.Embeds g g') (hf : g.Follows x t) :
    g'.Follows (ρ.nonterminal x) (ρ.terminal t) := by
  obtain ⟨hne, y, hy, before, after, hd⟩ | ⟨rfl, before, hd⟩ := hf
  · refine Or.inl ⟨mt h.terminal_eq_endMarker_iff.mp hne, ρ.nonterminal y,
      h.nonterminal_lt_iff.mpr hy, before.map ρ.symbol, after.map ρ.symbol, ?_⟩
    simpa using h.derives hd
  · refine Or.inr ⟨h.endMarker.symm, before.map ρ.symbol, ?_⟩
    rw [h.start]
    simpa using h.derives hd

/-! ### FIRST, FOLLOW and SELECT -/

theorem mem_first (h : ρ.Embeds g g') (ht : t ∈ g.solveFirst.table.get x) :
    ρ.terminal t ∈ g'.solveFirst.table.get (ρ.nonterminal x) :=
  h.target.mem_solveFirst_iff.mpr (h.begins (h.source.mem_solveFirst_iff.mp ht))

theorem mem_follow (h : ρ.Embeds g g')
    (ht : t ∈ (g.solveFollow g.solveFirst.table).table.get x) :
    ρ.terminal t ∈ (g'.solveFollow g'.solveFirst.table).table.get (ρ.nonterminal x) :=
  h.target.mem_solveFollow_iff.mpr (h.follows (h.source.mem_solveFollow_iff.mp ht))

theorem selects (h : ρ.Embeds g g') (hs : g.Selects p t) :
    g'.Selects (ρ.rename p) (ρ.terminal t) := by
  rw [Grammar.Selects, rename, h.expansion_map, h.epsilon, ne_eq, ρ.terminal.apply_eq_iff_eq]
  exact hs.imp (And.imp_right h.begins) (And.imp h.derives h.follows)

theorem mem_select (h : ρ.Embeds g g') (hp : p ∈ g.productions) (ht : t ∈ g.select p) :
    ρ.terminal t ∈ g'.select (ρ.rename p) :=
  (h.target.mem_select_iff (h.rename_mem hp)).mpr
    (h.selects ((h.source.mem_select_iff hp).mp ht))

/-- **Fewer productions select more sharply**: where no lookahead selects two
productions of the second grammar, none selects two of the first. -/
theorem isDeterministic (h : ρ.Embeds g g') (hd : g'.IsDeterministic g'.select) :
    g.IsDeterministic g.select := by
  intro m n p q hp hq hlhs t hpt hqt
  exact ρ.production.injective (hd _ _ _ _ (h.getElem?_productions m p hp)
    (h.getElem?_productions n q hq) (congrArg ρ.nonterminal hlhs) (ρ.terminal t)
    (h.mem_select (List.mem_of_getElem? hp) hpt) (h.mem_select (List.mem_of_getElem? hq) hqt))

end Embeds

/-! ## Grammars that differ in their numbers only -/

/-- **A renumbering carries a grammar to another one**: symbols of one name
have corresponding numbers, and the productions, once their symbols are
renumbered, are the same at corresponding numbers. -/
structure Carries (ρ : Renumbering) (g g' : Grammar) : Prop where
  source : g.WellFormed
  target : g'.WellFormed
  nonterminal? : ∀ name, g'.nonterminal? name = (g.nonterminal? name).map ρ.nonterminal
  terminal? : ∀ name, g'.terminal? name = (g.terminal? name).map ρ.terminal
  endMarker : g'.endMarker = ρ.terminal g.endMarker
  start : g'.start = ρ.nonterminal g.start
  getElem?_productions : ∀ n,
    g'.productions[ρ.production n]? = (g.productions[n]?).map ρ.rename

namespace Carries

/-- **The change back carries the second grammar to the first.** -/
theorem symm (h : ρ.Carries g g') : ρ.symm.Carries g' g where
  source := h.target
  target := h.source
  nonterminal? := fun name => by
    rw [h.nonterminal?, Option.map_map]
    simp
  terminal? := fun name => by
    rw [h.terminal?, Option.map_map]
    simp
  endMarker := by simp [h.endMarker]
  start := by simp [h.start]
  getElem?_productions := fun n => by
    obtain ⟨m, rfl⟩ := ρ.production.surjective n
    rw [h.getElem?_productions, Option.map_map]
    simp [Function.comp_def]

/-- What is carried is embedded. -/
theorem embeds (h : ρ.Carries g g') : ρ.Embeds g g' where
  source := h.source
  target := h.target
  nonterminal? := h.nonterminal?
  terminal? := h.terminal?
  endMarker := h.endMarker
  start := h.start
  getElem?_productions := fun n p hp => by rw [h.getElem?_productions, hp, Option.map_some]

/-- **Productions of corresponding numbers are printed alike.** -/
theorem productionTextAt (h : ρ.Carries g g') (n : Nat) :
    g'.productionTextAt (ρ.production n) = g.productionTextAt n := by
  unfold Grammar.productionTextAt
  rw [h.getElem?_productions]
  cases g.productions[n]? with
  | none => rfl
  | some p => exact h.embeds.productionText_rename p

theorem rename_mem (h : ρ.Carries g g') (hp : p ∈ g.productions) :
    ρ.rename p ∈ g'.productions :=
  h.embeds.rename_mem hp

/-- Every production of the second grammar is an image. -/
theorem exists_of_mem (h : ρ.Carries g g') {q : Production} (hq : q ∈ g'.productions) :
    ∃ p ∈ g.productions, ρ.rename p = q :=
  ⟨ρ.symm.rename q, h.symm.rename_mem hq, rename_rename_symm q⟩

/-! ### FIRST, FOLLOW and SELECT -/

theorem mem_first_iff (h : ρ.Carries g g') :
    ρ.terminal t ∈ g'.solveFirst.table.get (ρ.nonterminal x) ↔ t ∈ g.solveFirst.table.get x :=
  ⟨fun ht => by simpa using h.symm.embeds.mem_first ht, h.embeds.mem_first⟩

theorem mem_follow_iff (h : ρ.Carries g g') :
    ρ.terminal t ∈ (g'.solveFollow g'.solveFirst.table).table.get (ρ.nonterminal x) ↔
      t ∈ (g.solveFollow g.solveFirst.table).table.get x :=
  ⟨fun ht => by simpa using h.symm.embeds.mem_follow ht, h.embeds.mem_follow⟩

theorem mem_select_iff (h : ρ.Carries g g') (hp : p ∈ g.productions) :
    ρ.terminal t ∈ g'.select (ρ.rename p) ↔ t ∈ g.select p :=
  ⟨fun ht => by simpa using h.symm.embeds.mem_select (h.rename_mem hp) ht,
    h.embeds.mem_select hp⟩

theorem select_rename (h : ρ.Carries g g') (hp : p ∈ g.productions) :
    g'.select (ρ.rename p) = ρ.set (g.select p) :=
  eq_set_iff.mpr fun _ => h.mem_select_iff hp

end Carries

/-! ## The LL(1) analysis -/

/-- **The same LL(1) analysis**, but for the numbers. -/
structure SameLookahead (ρ : Renumbering) (a a' : LookaheadAnalysis) : Prop where
  firstOf : ∀ x, a'.firstOf (ρ.nonterminal x) = ρ.set (a.firstOf x)
  followOf : ∀ x, a'.followOf (ρ.nonterminal x) = ρ.set (a.followOf x)
  nullable : ∀ x, a'.nullable (ρ.nonterminal x) = a.nullable x
  select : ∀ n, a'.select[ρ.production n]? = (a.select[n]?).map ρ.set
  isLL1 : a'.isLL1 = a.isLL1

/-- **The analyses of two grammars of which one is carried to the other are
the same.** -/
theorem Carries.sameLookahead (h : ρ.Carries g g') :
    ρ.SameLookahead (.ofGrammar g) (.ofGrammar g') where
  firstOf := fun _ => eq_set_iff.mpr fun _ => h.mem_first_iff
  followOf := fun _ => eq_set_iff.mpr fun _ => h.mem_follow_iff
  nullable := fun x => by
    refine decide_eq_decide.mpr ?_
    show g'.epsilon ∈ g'.solveFirst.table.get _ ↔ g.epsilon ∈ g.solveFirst.table.get _
    rw [h.embeds.epsilon, h.mem_first_iff]
  select := fun n => by
    show (g'.productions.map g'.select)[ρ.production n]?
      = ((g.productions.map g.select)[n]?).map ρ.set
    rw [List.getElem?_map, List.getElem?_map, h.getElem?_productions]
    cases hp : g.productions[n]? with
    | none => rfl
    | some p => exact congrArg some (h.select_rename (List.mem_of_getElem? hp))
  isLL1 := by
    rw [Bool.eq_iff_iff, LookaheadAnalysis.isLL1_ofGrammar_iff h.target,
      LookaheadAnalysis.isLL1_ofGrammar_iff h.source]
    exact ⟨h.embeds.isDeterministic, h.symm.embeds.isDeterministic⟩

end Renumbering

end GrammarAnalysis
