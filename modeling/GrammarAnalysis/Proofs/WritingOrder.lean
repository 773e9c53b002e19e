import GrammarAnalysis.Proofs.Acceptance
import GrammarAnalysis.Proofs.RenumberedParser
import GrammarAnalysis.Proofs.RenumberedPrecedence
import Mathlib.Data.List.Forall2

/-!
# Results do not depend on the writing order

The same grammar can be written in many ways: its nonterminals, its
terminals and its production texts may be listed in any order, and so may
the alternatives in a text. `Texts.Rearranges` says that two declarations
differ in no other way.

A rearranged declaration is read if the original is, because what declares
a grammar (`Texts.IsGrammar`) is said without an order
(`Rearranges.isGrammar`), and what is read is the same grammar with other
numbers (`Rearranges.exists_carries`). For the symbols this is plain: the
place of a name in one list corresponds to its place in the other one
(`exists_equiv_of_perm`). For the productions it is not, since they are read
symbol by symbol with the numbers of the grammar they belong to. But their
names can be read off the texts (`map_named_productions`), so the productions
of the two grammars, written in names, are permuted lists.

A renumbering carries every result of the analyses and of the parser along
(`Carries.sameResults`). Visits, passes and fillings go different ways in the
two grammars; none of them leaves a trace, because each ends at a set, a table
or a matrix that is determined by derivations or by least solutions.
-/

namespace GrammarAnalysis

/-! ## Places in permuted lists -/

section Places

variable {α β : Type}

/-- A correspondence of places, behind one more place that stays. -/
def afterFirst (e : ℕ ≃ ℕ) : ℕ ≃ ℕ where
  toFun
    | 0 => 0
    | i + 1 => e i + 1
  invFun
    | 0 => 0
    | i + 1 => e.symm i + 1
  left_inv := fun i => by cases i <;> simp
  right_inv := fun i => by cases i <;> simp

@[simp] theorem afterFirst_succ (e : ℕ ≃ ℕ) (i : Nat) : afterFirst e (i + 1) = e i + 1 := rfl

/-- **The places of a permuted list correspond**, and those behind its end
stay where they are. -/
theorem exists_equiv_of_perm {l l' : List α} (h : l.Perm l') :
    ∃ e : ℕ ≃ ℕ, (∀ i, l'[e i]? = l[i]?) ∧ ∀ i, l.length ≤ i → e i = i := by
  induction h with
  | nil => exact ⟨Equiv.refl ℕ, fun _ => rfl, fun _ _ => rfl⟩
  | cons a h ih =>
    obtain ⟨e, he, hstay⟩ := ih
    refine ⟨afterFirst e, fun i => ?_, fun i hi => ?_⟩
    · cases i with
      | zero => rfl
      | succ i => exact he i
    · cases i with
      | zero => rfl
      | succ i => rw [afterFirst_succ, hstay i (Nat.le_of_succ_le_succ hi)]
  | swap a b l =>
    refine ⟨Equiv.swap 0 1, fun i => ?_, fun i hi => ?_⟩
    · match i with
      | 0 => simp
      | 1 => simp
      | i + 2 => simp [Equiv.swap_apply_of_ne_of_ne]
    · rw [List.length_cons, List.length_cons] at hi
      exact Equiv.swap_apply_of_ne_of_ne (by omega) (by omega)
  | trans h _ ih ih' =>
    obtain ⟨e, he, hstay⟩ := ih
    obtain ⟨e', he', hstay'⟩ := ih'
    refine ⟨e.trans e', fun i => ?_, fun i hi => ?_⟩
    · rw [Equiv.trans_apply, he', he]
    · rw [Equiv.trans_apply, hstay i hi, hstay' i (h.length_eq ▸ hi)]

theorem rel_getElem? {R : α → β → Prop} {l : List α} {l' : List β} (h : List.Forall₂ R l l')
    (n : Nat) : Option.Rel R l[n]? l'[n]? := by
  induction h generalizing n with
  | nil => exact .none
  | cons hab _ ih =>
    cases n with
    | zero => exact .some hab
    | succ n => exact ih n

end Places

/-! ## Rearranged declarations -/

/-- **Texts of the same productions**: they have the same left-hand side and
the same alternatives, in any order. -/
def SameProductions (text text' : String) : Prop :=
  ∃ lhs alternatives alternatives', IsProductionText text lhs alternatives
    ∧ IsProductionText text' lhs alternatives' ∧ alternatives.Perm alternatives'

/-- **Declarations that differ in order only.** -/
structure Texts.Rearranges (w w' : Texts) : Prop where
  nonterminals : w.nonterminals.Perm w'.nonterminals
  terminals : w.terminals.Perm w'.terminals
  start : w'.start = w.start
  /-- The production texts are permuted, and then the alternatives in each. -/
  productions : ∃ permuted, w.productions.Perm permuted
    ∧ List.Forall₂ SameProductions permuted w'.productions

namespace Texts.Rearranges

variable {w w' : Texts} {name lhs alternative : String}

/-- Production texts have corresponding places. -/
theorem exists_equiv (h : w.Rearranges w') :
    ∃ e : ℕ ≃ ℕ, ∀ n, Option.Rel SameProductions w.productions[n]? w'.productions[e n]? := by
  obtain ⟨permuted, hperm, hsame⟩ := h.productions
  obtain ⟨e, he, -⟩ := exists_equiv_of_perm hperm
  exact ⟨e, fun n => he n ▸ rel_getElem? hsame (e n)⟩

theorem exists_of_mem (h : w.Rearranges w') {text' : String} (htext : text' ∈ w'.productions) :
    ∃ text ∈ w.productions, SameProductions text text' := by
  obtain ⟨e, he⟩ := h.exists_equiv
  obtain ⟨m, hm⟩ := List.mem_iff_getElem?.mp htext
  obtain ⟨n, rfl⟩ := e.surjective m
  have hrel := he n
  rw [hm] at hrel
  generalize hn : w.productions[n]? = text at hrel
  cases hrel with
  | some hsame => exact ⟨_, List.mem_of_getElem? hn, hsame⟩

/-- A name has its production text at the corresponding place. -/
theorem produces_iff {e : ℕ ≃ ℕ}
    (he : ∀ n, Option.Rel SameProductions w.productions[n]? w'.productions[e n]?) (n : Nat) :
    w'.Produces (e n) name ↔ w.Produces n name := by
  have hrel := he n
  unfold Produces
  generalize w.productions[n]? = text at hrel
  generalize w'.productions[e n]? = text' at hrel
  cases hrel with
  | none => simp
  | some hsame =>
    obtain ⟨lhs, alternatives, alternatives', hcut, hcut', -⟩ := hsame
    constructor
    · rintro ⟨_, _, heq, hname⟩
      cases heq
      exact ⟨_, _, rfl, (hname.unique hcut').1 ▸ hcut⟩
    · rintro ⟨_, _, heq, hname⟩
      cases heq
      exact ⟨_, _, rfl, (hname.unique hcut).1 ▸ hcut'⟩

theorem hasAlternative (h : w.Rearranges w') (halt : w'.HasAlternative lhs alternative) :
    w.HasAlternative lhs alternative := by
  obtain ⟨text', htext', alternatives', hcut', hmem⟩ := halt
  obtain ⟨text, htext, _, _, _, hcut, hcut'', hperm⟩ := h.exists_of_mem htext'
  obtain ⟨rfl, rfl⟩ := hcut'.unique hcut''
  exact ⟨text, htext, _, hcut, hperm.mem_iff.mpr hmem⟩

theorem isSymbol_iff (h : w.Rearranges w') : w'.IsSymbol name ↔ w.IsSymbol name := by
  unfold IsSymbol
  rw [h.nonterminals.mem_iff, h.terminals.mem_iff]

/-- **Rearranged declarations declare a grammar** if the original ones
do. -/
theorem isGrammar (h : w.Rearranges w') (hw : w.IsGrammar) : w'.IsGrammar := by
  refine
    { nonterminals_nodup := h.nonterminals.nodup_iff.mp hw.nonterminals_nodup
      nonterminal_ne := fun name hname =>
        hw.nonterminal_ne name (h.nonterminals.mem_iff.mpr hname)
      terminals_nodup := h.terminals.nodup_iff.mp hw.terminals_nodup
      terminal_ne := fun name hname => ?_
      start_mem := ?_
      lhs_mem := fun text' htext' => ?_
      existsUnique_produces := fun name hname => ?_
      isAlternative := fun lhs alternative halt => ?_ }
  · rw [← h.nonterminals.mem_iff]
    exact hw.terminal_ne name (h.terminals.mem_iff.mpr hname)
  · obtain ⟨name, hname, hstart⟩ := hw.start_mem
    exact ⟨name, h.nonterminals.mem_iff.mp hname, h.start.trans hstart⟩
  · obtain ⟨text, htext, lhs, _, alternatives', hcut, hcut', -⟩ := h.exists_of_mem htext'
    exact ⟨lhs, h.nonterminals.mem_iff.mp (hw.mem_of_isProductionText htext hcut), _, hcut'⟩
  · obtain ⟨e, he⟩ := h.exists_equiv
    obtain ⟨n, hn, hunique⟩ := hw.existsUnique_produces name (h.nonterminals.mem_iff.mpr hname)
    refine ⟨e n, (produces_iff he n).mpr hn, fun m hm => ?_⟩
    obtain ⟨m, rfl⟩ := e.surjective m
    rw [hunique m ((produces_iff he m).mp hm)]
  · obtain ⟨hne, hsymbol, hε⟩ := hw.isAlternative lhs alternative (h.hasAlternative halt)
    exact ⟨hne, fun name hname => h.isSymbol_iff.mpr (hsymbol name hname), hε⟩

end Texts.Rearranges

/-! ## Productions in names -/

/-- Lists that are read one from the other agree in what the elements
have in common with what is read from them. -/
theorem map_eq_map_of_map_eq_ok {ε α β γ : Type} {f : α → Except ε β} {k : β → γ} {k' : α → γ}
    {l : List α} {r : List β} (h : l.map f = r.map .ok)
    (hf : ∀ a b, f a = .ok b → k b = k' a) : r.map k = l.map k' := by
  induction l generalizing r with
  | nil => rw [List.map_eq_nil_iff.mp (List.map_nil.symm.trans h).symm, List.map_nil, List.map_nil]
  | cons a l ih =>
    cases r with
    | nil => cases h
    | cons b r =>
      rw [List.map_cons, List.map_cons, List.cons.injEq] at h
      rw [List.map_cons, List.map_cons, hf a b h.1, ih h.2]

/-- A production in names. -/
def Grammar.named (g : Grammar) (p : Production) : String × List String :=
  (g.nonterminalName p.lhs, p.rhs.map g.symbolName)

/-- **A production in names is read back**: its names are looked up as its
symbols. -/
theorem Grammar.WellFormed.read_named {g : Grammar} (hg : g.WellFormed) {p : Production}
    (hp : p ∈ g.productions) : g.nonterminal? (g.named p).1 = some p.lhs
      ∧ (g.named p).2.map g.symbol? = p.rhs.map some := by
  refine ⟨hg.nonterminal?_eq_some_iff.mpr ⟨hg.lhs_lt_of_mem hp, rfl⟩, ?_⟩
  rw [Grammar.named, List.map_map]
  exact List.map_congr_left fun s hs =>
    hg.symbol?_eq_some_iff.mpr ⟨(hg.isRhs_of_mem hp).declared s hs, rfl⟩

/-- **The productions of a text, in names.** -/
def productionNames (text : String) : List (String × List String) :=
  match splitProduction text with
  | .ok (lhs, alternatives) => alternatives.map (fun a => (lhs, segment a))
  | .error _ => []

theorem SameProductions.perm {text text' : String} (h : SameProductions text text') :
    (productionNames text).Perm (productionNames text') := by
  obtain ⟨lhs, alternatives, alternatives', hcut, hcut', hperm⟩ := h
  by_cases hlhs : lhs = ""
  · -- neither text is cut
    have hnil : ∀ {text alternatives}, IsProductionText text lhs alternatives →
        productionNames text = [] := by
      intro text alternatives hcut
      have herror : splitProduction text = .error (.emptyLhs text) :=
        splitProduction_eq_error.mpr (Or.inr ⟨rfl, alternatives, hlhs ▸ hcut⟩)
      rw [productionNames, herror]
    rw [hnil hcut, hnil hcut']
  · rw [productionNames, productionNames, splitProduction_eq_ok.mpr ⟨hcut, hlhs⟩,
      splitProduction_eq_ok.mpr ⟨hcut', hlhs⟩]
    exact hperm.map _

theorem Texts.Rearranges.perm_productionNames {w w' : Texts} (h : w.Rearranges w') :
    (w.productions.flatMap productionNames).Perm (w'.productions.flatMap productionNames) := by
  obtain ⟨permuted, hperm, hsame⟩ := h.productions
  refine (hperm.flatMap_right _).trans ?_
  generalize w'.productions = texts at hsame
  clear hperm
  induction hsame with
  | nil => exact .refl _
  | cons h _ ih =>
    rw [List.flatMap_cons, List.flatMap_cons]
    exact h.perm.append ih

namespace Declarations

variable {d : Declarations} {g : Grammar} {earlier : List Nonterminal}
  {lhs alternative text : String}

theorem names_of_readAlternative (hg : g.WellFormed) {rhs : List Symbol}
    (h : readAlternative g.symbol? lhs alternative = .ok rhs) :
    rhs.map g.symbolName = segment alternative := by
  unfold readAlternative at h
  simp only at h
  split at h
  · cases h
  split at h
  · cases h
  refine (map_eq_map_of_map_eq_ok (mapM_eq_ok.mp h) fun name s hs => ?_).trans (List.map_id _)
  split at hs
  · next hsome =>
    cases hs
    exact (hg.symbol?_eq_some_iff.mp hsome).2
  · cases hs

theorem names_of_readRule (hg : g.WellFormed) {r : Rule}
    (h : readRule g.nonterminal? g.symbol? earlier text = .ok r) :
    r.productions.map g.named = productionNames text := by
  obtain ⟨lhs, alternatives, hsplit, hlhs, -, hmap⟩ := readRule_eq_ok.mp h
  rw [productionNames, hsplit, Rule.productions, List.map_map]
  refine map_eq_map_of_map_eq_ok (mapM_eq_ok.mp hmap) fun a rhs hrhs => ?_
  show (g.nonterminalName r.lhs, rhs.map g.symbolName) = (lhs, segment a)
  rw [(hg.nonterminal?_eq_some_iff.mp hlhs).2, names_of_readAlternative hg hrhs]

/-- **The productions of a grammar, in names, are those of the texts**, in
their order. -/
theorem map_named_productions (h : d.toGrammar = .ok g) :
    g.productions.map g.named = d.texts.productions.flatMap productionNames := by
  have hg := Grammar.wellFormed_of_toGrammar h
  obtain ⟨-, -, start, -, rules, hrules, -, rfl⟩ := toGrammar_eq_ok.mp h
  have hread := map_readRule_of_readRules hrules
  rw [Grammar.productions, List.map_flatMap, List.flatMap_def, List.flatMap_def, texts,
    List.map_map]
  exact congrArg List.flatten
    (map_eq_map_of_map_eq_ok hread fun c r hr => names_of_readRule hg hr)

/-- The names of a grammar are those that are declared. -/
theorem names_of_toGrammar (h : d.toGrammar = .ok g) :
    g.nonterminals = d.texts.nonterminals ∧ g.terminals = withEpsilon d.texts.terminals
      ∧ ∃ name, d.texts.start = some name ∧ g.nonterminal? name = some g.start := by
  have hg := Grammar.wellFormed_of_toGrammar h
  obtain ⟨-, -, start, hstart, rules, -, -, rfl⟩ := toGrammar_eq_ok.mp h
  obtain ⟨c, hc, hname⟩ := (startSymbol_eq_ok hg.nonterminals_nodup).mp hstart
  exact ⟨rfl, rfl, c.text, by rw [texts, hc, Option.map_some],
    (Grammar.nonterminal?_eq_some hg.nonterminals_nodup).mpr hname⟩

theorem perm_withEpsilon {l l' : List String} (h : l.Perm l') :
    (withEpsilon l).Perm (withEpsilon l') := by
  unfold withEpsilon
  simp only [h.mem_iff]
  split
  · exact h
  · exact h.append_right _

end Declarations

/-! ## The renumbering -/

/-- Nonterminals are numbers. -/
def Nonterminal.equivNat : Nonterminal ≃ ℕ where
  toFun := Nonterminal.index
  invFun := Nonterminal.mk
  left_inv := fun _ => rfl
  right_inv := fun _ => rfl

/-- Terminals are numbers. -/
def Terminal.equivNat : Terminal ≃ ℕ where
  toFun := Terminal.index
  invFun := Terminal.mk
  left_inv := fun _ => rfl
  right_inv := fun _ => rfl

namespace Renumbering

variable {ρ : Renumbering} {g g' : Grammar}

/-- The renumbering by correspondences of places. -/
def ofPlaces (nonterminal terminal production : ℕ ≃ ℕ) : Renumbering where
  nonterminal := (Nonterminal.equivNat.trans nonterminal).trans Nonterminal.equivNat.symm
  terminal := (Terminal.equivNat.trans terminal).trans Terminal.equivNat.symm
  production := production

theorem nonterminal?_ofPlaces {eN : ℕ ≃ ℕ} (eT eP : ℕ ≃ ℕ) (hg : g.WellFormed)
    (hg' : g'.WellFormed) (he : ∀ i, g'.nonterminals[eN i]? = g.nonterminals[i]?)
    (name : String) : g'.nonterminal? name
      = (g.nonterminal? name).map (ofPlaces eN eT eP).nonterminal := by
  refine Option.ext fun x => ?_
  obtain ⟨x, rfl⟩ := (ofPlaces eN eT eP).nonterminal.surjective x
  rw [Option.map_eq_some_iff]
  simp only [Equiv.apply_eq_iff_eq, exists_eq_right]
  rw [Grammar.nonterminal?_eq_some hg.nonterminals_nodup,
    Grammar.nonterminal?_eq_some hg'.nonterminals_nodup]
  exact Eq.congr_left (he x.index)

theorem terminal?_ofPlaces {eT : ℕ ≃ ℕ} (eN eP : ℕ ≃ ℕ) (hg : g.WellFormed)
    (hg' : g'.WellFormed) (he : ∀ i, g'.terminals[eT i]? = g.terminals[i]?)
    (name : String) : g'.terminal? name
      = (g.terminal? name).map (ofPlaces eN eT eP).terminal := by
  refine Option.ext fun t => ?_
  obtain ⟨t, rfl⟩ := (ofPlaces eN eT eP).terminal.surjective t
  rw [Option.map_eq_some_iff]
  simp only [Equiv.apply_eq_iff_eq, exists_eq_right]
  rw [Grammar.terminal?_eq_some hg.terminals_nodup,
    Grammar.terminal?_eq_some hg'.terminals_nodup]
  exact Eq.congr_left (he t.index)

/-- **Productions of one name are images of each other** when symbols of
one name are. -/
theorem eq_rename_of_named_eq (hg : g.WellFormed) (hg' : g'.WellFormed)
    (hnonterminal : ∀ name, g'.nonterminal? name = (g.nonterminal? name).map ρ.nonterminal)
    (hterminal : ∀ name, g'.terminal? name = (g.terminal? name).map ρ.terminal)
    {p p' : Production} (hp : p ∈ g.productions) (hp' : p' ∈ g'.productions)
    (h : g'.named p' = g.named p) : p' = ρ.rename p := by
  have hsymbol : ∀ name, g'.symbol? name = (g.symbol? name).map ρ.symbol := by
    intro name
    unfold Grammar.symbol?
    rw [hnonterminal, hterminal]
    cases g.nonterminal? name with
    | some x => rfl
    | none => cases g.terminal? name <;> rfl
  obtain ⟨hlhs, hrhs⟩ := hg.read_named hp
  obtain ⟨hlhs', hrhs'⟩ := hg'.read_named hp'
  have hlhsEq : p'.lhs = ρ.nonterminal p.lhs := by
    rw [h, hnonterminal, hlhs, Option.map_some] at hlhs'
    exact (Option.some.inj hlhs').symm
  have hrhsEq : p'.rhs = p.rhs.map ρ.symbol := by
    refine List.map_injective_iff.mpr (Option.some_injective _) ?_
    calc p'.rhs.map some
        = (g.named p).2.map (Option.map ρ.symbol ∘ g.symbol?) := by
          rw [← hrhs', h]
          exact List.map_congr_left fun name _ => hsymbol name
      _ = (p.rhs.map ρ.symbol).map some := by
          rw [← List.map_map, hrhs, List.map_map, List.map_map]
          rfl
  cases p'
  exact congrArg₂ Production.mk hlhsEq hrhsEq

/-- Where the names of productions correspond, the productions do. -/
theorem getElem?_productions_of_named (hg : g.WellFormed) (hg' : g'.WellFormed)
    (hnonterminal : ∀ name, g'.nonterminal? name = (g.nonterminal? name).map ρ.nonterminal)
    (hterminal : ∀ name, g'.terminal? name = (g.terminal? name).map ρ.terminal) {m n : Nat}
    (h : (g'.productions.map g'.named)[m]? = (g.productions.map g.named)[n]?) :
    g'.productions[m]? = (g.productions[n]?).map ρ.rename := by
  rw [List.getElem?_map, List.getElem?_map] at h
  cases hp : g.productions[n]? with
  | none => simpa [hp] using h
  | some p =>
    rw [hp, Option.map_some] at h
    obtain ⟨p', hp', hnamed⟩ := Option.map_eq_some_iff.mp h
    rw [hp', Option.map_some, eq_rename_of_named_eq hg hg' hnonterminal hterminal
      (List.mem_of_getElem? hp) (List.mem_of_getElem? hp') hnamed]

/-- **Grammars with the same names have corresponding symbols.** How the
productions correspond is left open. -/
theorem exists_renumbering (hg : g.WellFormed) (hg' : g'.WellFormed)
    (hN : g.nonterminals.Perm g'.nonterminals) (hT : g.terminals.Perm g'.terminals)
    (hstart : g'.nonterminalName g'.start = g.nonterminalName g.start) (production : ℕ ≃ ℕ) :
    ∃ ρ : Renumbering, ρ.production = production
      ∧ (∀ name, g'.nonterminal? name = (g.nonterminal? name).map ρ.nonterminal)
      ∧ (∀ name, g'.terminal? name = (g.terminal? name).map ρ.terminal)
      ∧ g'.endMarker = ρ.terminal g.endMarker ∧ g'.start = ρ.nonterminal g.start := by
  obtain ⟨eN, heN, -⟩ := exists_equiv_of_perm hN
  obtain ⟨eT, heT, hstay⟩ := exists_equiv_of_perm hT
  have hnonterminal := nonterminal?_ofPlaces eT production hg hg' heN
  refine ⟨ofPlaces eN eT production, rfl, hnonterminal, terminal?_ofPlaces eN production hg hg' heT,
    ?_, ?_⟩
  · have hend : eT g.terminals.length = g'.terminals.length :=
      (hstay _ (Nat.le_refl _)).trans hT.length_eq
    exact congrArg Terminal.mk hend.symm
  · have hname := hg'.nonterminal?_eq_some_iff.mpr ⟨hg'.start_declared, hstart⟩
    rw [hnonterminal, hg.nonterminal?_eq_some_iff.mpr ⟨hg.start_declared, rfl⟩,
      Option.map_some] at hname
    exact (Option.some.inj hname).symm

end Renumbering

/-- **Rearranged declarations are read as the same grammar with other
numbers.** -/
theorem Texts.Rearranges.exists_carries {d d' : Declarations} {g : Grammar}
    (hr : d.texts.Rearranges d'.texts) (h : d.toGrammar = .ok g) :
    ∃ g' ρ, d'.toGrammar = .ok g' ∧ Renumbering.Carries ρ g g' := by
  obtain ⟨g', h'⟩ := Declarations.exists_toGrammar_iff.mpr
    (hr.isGrammar (Declarations.exists_toGrammar_iff.mp ⟨g, h⟩))
  have hg := Grammar.wellFormed_of_toGrammar h
  have hg' := Grammar.wellFormed_of_toGrammar h'
  obtain ⟨hnonterminals, hterminals, name, hname, hstart⟩ := Declarations.names_of_toGrammar h
  obtain ⟨hnonterminals', hterminals', name', hname', hstart'⟩ :=
    Declarations.names_of_toGrammar h'
  have hN : g.nonterminals.Perm g'.nonterminals := by
    rw [hnonterminals, hnonterminals']
    exact hr.nonterminals
  have hT : g.terminals.Perm g'.terminals := by
    rw [hterminals, hterminals']
    exact Declarations.perm_withEpsilon hr.terminals
  have hP : (g.productions.map g.named).Perm (g'.productions.map g'.named) := by
    rw [Declarations.map_named_productions h, Declarations.map_named_productions h']
    exact hr.perm_productionNames
  obtain ⟨eP, heP, -⟩ := exists_equiv_of_perm hP
  have hS : g'.nonterminalName g'.start = g.nonterminalName g.start := by
    obtain rfl : name = name' := Option.some.inj (hname.symm.trans (hr.start.symm.trans hname'))
    rw [(hg.nonterminal?_eq_some_iff.mp hstart).2, (hg'.nonterminal?_eq_some_iff.mp hstart').2]
  obtain ⟨ρ, rfl, hnonterminal, hterminal, hend, hstart⟩ :=
    Renumbering.exists_renumbering hg hg' hN hT hS eP
  exact ⟨g', ρ, h', hg, hg', hnonterminal, hterminal, hend, hstart, fun n =>
    Renumbering.getElem?_productions_of_named hg hg' hnonterminal hterminal (heP n)⟩

/-! ## The same results -/

namespace Renumbering

variable {ρ : Renumbering} {g g' : Grammar}

/-- **The same names**: what corresponds is called and printed alike, and
nothing else is found under its name. -/
structure KeepsNames (ρ : Renumbering) (g g' : Grammar) : Prop where
  nonterminal? : ∀ name, g'.nonterminal? name = (g.nonterminal? name).map ρ.nonterminal
  terminal? : ∀ name, g'.terminal? name = (g.terminal? name).map ρ.terminal
  nonterminalName : ∀ x, g'.nonterminalName (ρ.nonterminal x) = g.nonterminalName x
  terminalName : ∀ t, g'.terminalName (ρ.terminal t) = g.terminalName t
  setNames : ∀ s, (g'.setNames (ρ.set s)).Perm (g.setNames s)
  productionTextAt : ∀ n, g'.productionTextAt (ρ.production n) = g.productionTextAt n

/-- **The same results**, read by names: FIRST, FOLLOW, SELECT and the LL(1)
verdict, the outcome of every parse, and the kind of the precedence verdict
with FIRSTVT, LASTVT and the matrix. -/
structure SameResults (ρ : Renumbering) (g g' : Grammar) : Prop where
  names : ρ.KeepsNames g g'
  lookahead : ρ.SameLookahead (.ofGrammar g) (.ofGrammar g')
  parses : ∀ p, PredictiveParser.ofAnalysis (.ofGrammar g) = .ok p →
    ∃ p', PredictiveParser.ofAnalysis (.ofGrammar g') = .ok p'
      ∧ ∀ input, p'.parse input = (p.parse input).map (List.map ρ.step)
  precedence : ρ.SamePrecedence (.ofGrammar g) (.ofGrammar g')

/-- **A grammar and the one it is carried to have the same results.** -/
theorem Carries.sameResults (h : ρ.Carries g g') : ρ.SameResults g g' where
  names :=
    { nonterminal? := h.nonterminal?
      terminal? := h.terminal?
      nonterminalName := h.embeds.nonterminalName
      terminalName := h.embeds.terminalName
      setNames := h.embeds.setNames_set
      productionTextAt := h.productionTextAt }
  lookahead := h.sameLookahead
  parses := fun p hp => by
    have hll := (PredictiveParser.exists_ofAnalysis_iff _).mp ⟨p, hp⟩
    obtain ⟨p', hp'⟩ := (PredictiveParser.exists_ofAnalysis_iff (.ofGrammar g')).mpr
      (h.sameLookahead.isLL1.trans hll)
    exact ⟨p', hp', h.parse hp hp'⟩
  precedence := h.samePrecedence

end Renumbering

/-- **Results do not depend on the writing order.** Declarations that are
read, from lists or from a file (`Constructed.exists_toGrammar`), are read as
well when they are rearranged; and some renumbering of the symbols and the
productions, which keeps all names, carries the one grammar to the other and
its results to the results of the other. -/
theorem Texts.Rearranges.results_same {d d' : Declarations} {g : Grammar}
    (hr : d.texts.Rearranges d'.texts) (h : d.toGrammar = .ok g) :
    ∃ g' ρ, d'.toGrammar = .ok g' ∧ Renumbering.Carries ρ g g' ∧ ρ.SameResults g g' := by
  obtain ⟨g', ρ, h', hcarries⟩ := hr.exists_carries h
  exact ⟨g', ρ, h', hcarries, hcarries.sameResults⟩

/-! ## The grammar of brackets in another order -/

/-- The declarations of the grammar of brackets. -/
def bracketsDeclarations : Declarations :=
  .ofLists ["S", "L"] ["(", ")"] ["S->(S)S|NULL|L", "L->L"] "S"

/-- The same declarations in another order. -/
def bracketsRearranged : Declarations :=
  .ofLists ["L", "S"] [")", "("] ["L->L", "S->L|(S)S|NULL"] "S"

theorem rearranges_brackets : bracketsDeclarations.texts.Rearranges bracketsRearranged.texts := by
  have hcut : ∀ {text lhs alternatives},
      (splitProduction text).toOption = some (lhs, alternatives) →
        IsProductionText text lhs alternatives :=
    fun h => (splitProduction_eq_ok.mp (eq_ok_of_toOption h)).1
  refine ⟨by decide +kernel, by decide +kernel, by decide +kernel, ["L->L", "S->(S)S|NULL|L"],
    by decide +kernel, ?_⟩
  have htexts : bracketsRearranged.texts.productions = ["L->L", "S->L|(S)S|NULL"] := by
    decide +kernel
  rw [htexts]
  refine .cons ⟨"L", ["L"], ["L"], hcut (by decide +kernel), hcut (by decide +kernel), .refl _⟩
    (.cons ⟨"S", ["(S)S", "NULL", "L"], ["L", "(S)S", "NULL"], hcut (by decide +kernel),
      hcut (by decide +kernel), by decide +kernel⟩ .nil)

/-- The rearranged grammar of brackets is LL(1), because the grammar of
brackets is. -/
theorem results_same_brackets :
    bracketsDeclarations.texts.Rearranges bracketsRearranged.texts
      ∧ bracketsDeclarations.toGrammar = .ok .brackets
      ∧ ∃ g' ρ, bracketsRearranged.toGrammar = .ok g'
        ∧ Renumbering.SameResults ρ .brackets g'
        ∧ (LookaheadAnalysis.ofGrammar g').isLL1 = true := by
  have h : bracketsDeclarations.toGrammar = .ok .brackets :=
    eq_ok_of_toOption (by decide +kernel)
  have hll : (LookaheadAnalysis.ofGrammar .brackets).isLL1 = true := by decide +kernel
  obtain ⟨g', ρ, h', -, hsame⟩ := rearranges_brackets.results_same h
  exact ⟨rearranges_brackets, h, g', ρ, h', hsame, hsame.lookahead.isLL1.trans hll⟩

end GrammarAnalysis
