import GrammarAnalysis.Proofs.Acceptance

/-!
# First defects

Of several faults only the first one is reported. For a list that is checked
from left to right this means: an element is bad after those before it, and
none of these is (`FirstDefect`); a list without one is `Flawless`. Whether an
element is bad may depend on what stands before it, as a name may be declared
once and not a second time.

The checks of symbols report first defects (`checkKind_of_defects`). What a
symbol is refused for is a relation, and a name may be refused for two things
at once, but not after names that are not refused (`refused_iff`): a duplicate
of such a name is neither reserved nor of the other kind.

So declarations without a start symbol are refused, and it is known what for
(`toGrammar_of_symbolFault`): the nonterminals are checked first and the
terminals next, and only then it is noticed that there is no start symbol.
-/

namespace GrammarAnalysis

/-! ## First defects -/

section Defects

variable {α : Type} {bad : List α → α → Fault → Prop} {l : List α} {a : α} {fault : Fault}

/-- **No element of a list is bad** after those before it. -/
def Flawless (bad : List α → α → Fault → Prop) (l : List α) : Prop :=
  ∀ before a after, l = before ++ a :: after → ∀ fault, ¬ bad before a fault

/-- **The first defect of a list**: an element is bad after those before it,
and none of them is. -/
def FirstDefect (bad : List α → α → Fault → Prop) (l : List α) (fault : Fault) : Prop :=
  ∃ before a after, l = before ++ a :: after ∧ Flawless bad before ∧ bad before a fault

theorem flawless_nil (bad : List α → α → Fault → Prop) : Flawless bad [] := by
  intro before a after h
  exact absurd h.symm (by simp)

theorem flawless_cons : Flawless bad (a :: l) ↔
    (∀ fault, ¬ bad [] a fault) ∧ Flawless (fun before => bad (a :: before)) l := by
  constructor
  · intro h
    refine ⟨h [] a l rfl, fun before c after hl => h (a :: before) c after ?_⟩
    rw [hl, List.cons_append]
  · rintro ⟨ha, h⟩ before c after hl
    cases before with
    | nil =>
      obtain ⟨rfl, -⟩ := List.cons.inj hl
      exact ha
    | cons b before =>
      obtain ⟨rfl, htail⟩ := List.cons.inj hl
      exact h before c after htail

theorem not_firstDefect_nil : ¬ FirstDefect bad [] fault := by
  rintro ⟨before, a, after, h, -⟩
  exact absurd h.symm (by simp)

theorem firstDefect_cons : FirstDefect bad (a :: l) fault ↔
    bad [] a fault
      ∨ ((∀ fault, ¬ bad [] a fault) ∧ FirstDefect (fun before => bad (a :: before)) l fault) := by
  constructor
  · rintro ⟨before, c, after, hl, hbefore, hc⟩
    cases before with
    | nil =>
      obtain ⟨rfl, -⟩ := List.cons.inj hl
      exact Or.inl hc
    | cons b before =>
      obtain ⟨rfl, htail⟩ := List.cons.inj hl
      obtain ⟨hb, hbefore⟩ := flawless_cons.mp hbefore
      exact Or.inr ⟨hb, before, c, after, htail, hbefore, hc⟩
  · rintro (ha | ⟨ha, before, c, after, hl, hbefore, hc⟩)
    · exact ⟨[], a, l, rfl, flawless_nil bad, ha⟩
    · exact ⟨a :: before, c, after, by rw [hl, List.cons_append],
        flawless_cons.mpr ⟨ha, hbefore⟩, hc⟩

/-- **A list is flawless unless it has a first defect.** -/
theorem flawless_iff_forall_not_firstDefect :
    Flawless bad l ↔ ∀ fault, ¬ FirstDefect bad l fault := by
  induction l generalizing bad with
  | nil => exact iff_of_true (flawless_nil bad) fun _ => not_firstDefect_nil
  | cons a l ih =>
    rw [flawless_cons, ih]
    simp only [firstDefect_cons, not_or, not_and]
    exact ⟨fun ⟨ha, h⟩ fault => ⟨ha fault, fun _ => h fault⟩,
      fun h => ⟨fun fault => (h fault).1, fun fault => (h fault).2 fun fault => (h fault).1⟩⟩

/-- A list that is not flawless has a first defect. -/
theorem exists_firstDefect (h : ¬ Flawless bad l) : ∃ fault, FirstDefect bad l fault := by
  by_contra hnone
  exact h (flawless_iff_forall_not_firstDefect.mpr (not_exists.mp hnone))

end Defects

namespace Declarations

/-! ## Symbols -/

section Symbols

variable {clash : String → Prop} [DecidablePred clash] {earlier : List String} {name : String}
  {fault : Fault}

/-- What a declared symbol is refused for first, after those named
`earlier`. -/
def refusal? (clash : String → Prop) [DecidablePred clash] (earlier : List String)
    (name : String) : Option Fault :=
  if name = "" then some (.unknownSymbol "")
  else if name = endMarkerName then some (.reservedSymbol name)
  else if clash name then some (.ambiguousSymbol name)
  else if name ∈ earlier then some (.duplicateSymbol name)
  else none

theorem checkKind_cons (d : Declared) (l : List Declared) :
    checkKind clash earlier (d :: l) = match refusal? clash earlier d.text with
      | some fault => d.fail fault
      | none => checkKind clash (d.text :: earlier) l := by
  rw [checkKind]
  unfold refusal? checkSymbol Declared.fail
  by_cases hempty : d.text = ""
  · simp only [if_pos hempty]
    rfl
  by_cases hmarker : d.text = endMarkerName
  · simp only [if_neg hempty, if_pos hmarker]
    rw [hmarker]
    rfl
  by_cases hclash : clash d.text
  · simp only [if_neg hempty, if_neg hmarker, if_pos hclash]
    rfl
  by_cases hmem : d.text ∈ earlier
  · simp only [if_neg hempty, if_neg hmarker, if_neg hclash, if_pos hmem]
    rfl
  · simp only [if_neg hempty, if_neg hmarker, if_neg hclash, if_neg hmem]
    rfl

/-- **After names that are not refused** a name is refused for one thing only. -/
theorem refused_iff (hclash : ∀ name, clash name → name ≠ "" ∧ name ≠ endMarkerName)
    (hearlier : ∀ name ∈ earlier, (name ≠ "" ∧ name ≠ endMarkerName) ∧ ¬ clash name) :
    Refused clash earlier name fault ↔ refusal? clash earlier name = some fault := by
  unfold refusal?
  constructor
  · intro h
    cases h with
    | empty => rfl
    | reserved => rfl
    | ambiguous h => rw [if_neg (hclash name h).1, if_neg (hclash name h).2, if_pos h]
    | duplicate h =>
      obtain ⟨⟨hempty, hmarker⟩, hclash⟩ := hearlier name h
      rw [if_neg hempty, if_neg hmarker, if_neg hclash, if_pos h]
  · intro h
    split at h
    · next hempty =>
      obtain rfl := Option.some.inj h
      rw [hempty]
      exact .empty
    split at h
    · next hmarker =>
      obtain rfl := Option.some.inj h
      rw [hmarker]
      exact .reserved
    split at h
    · next hclash =>
      obtain rfl := Option.some.inj h
      exact .ambiguous hclash
    split at h
    · next hmem =>
      obtain rfl := Option.some.inj h
      exact .duplicate hmem
    · cases h

theorem refusal?_eq_none_iff : refusal? clash earlier name = none ↔
    ((name ≠ "" ∧ name ≠ endMarkerName) ∧ ¬ clash name) ∧ name ∉ earlier := by
  unfold refusal?
  split_ifs <;> simp_all

omit [DecidablePred clash] in
theorem Refused.mono {later : List String} (h : Refused clash earlier name fault)
    (hsub : earlier ⊆ later) : Refused clash later name fault := by
  cases h with
  | empty => exact .empty
  | reserved => exact .reserved
  | ambiguous h => exact .ambiguous h
  | duplicate h => exact .duplicate (hsub h)

/-- The order of earlier names does not matter. -/
theorem refused_reverse (clash : String → Prop) (earlier : List String) :
    Refused clash earlier.reverse = Refused clash earlier := by
  funext name fault
  exact propext ⟨fun h => h.mono fun _ => List.mem_reverse.mp,
    fun h => h.mono fun _ => List.mem_reverse.mpr⟩

/-- **A check of symbols reports their first defect**, and passes symbols
without one. It keeps the names it has seen in reverse order. -/
theorem checkKind_of_defects (hclash : ∀ name, clash name → name ≠ "" ∧ name ≠ endMarkerName)
    {seen : List String} (l : List Declared)
    (hseen : ∀ name ∈ seen, (name ≠ "" ∧ name ≠ endMarkerName) ∧ ¬ clash name) :
    (∀ fault, FirstDefect (fun before => Refused clash (before.reverse ++ seen))
        (l.map Declared.text) fault → ∃ span, checkKind clash seen l = .error ⟨fault, span⟩)
      ∧ (Flawless (fun before => Refused clash (before.reverse ++ seen)) (l.map Declared.text) →
        checkKind clash seen l = .ok ()) := by
  induction l generalizing seen with
  | nil => exact ⟨fun fault h => absurd h not_firstDefect_nil, fun _ => rfl⟩
  | cons d l ih =>
    have hbad : ∀ fault, Refused clash ([].reverse ++ seen) d.text fault
        ↔ refusal? clash seen d.text = some fault := fun fault => refused_iff hclash hseen
    simp only [List.map_cons, firstDefect_cons, flawless_cons, hbad, List.reverse_cons,
      List.append_assoc, List.singleton_append]
    rw [checkKind_cons]
    cases hrefusal : refusal? clash seen d.text with
    | some first =>
      refine ⟨fun fault h => ?_, fun h => absurd rfl (h.1 first)⟩
      obtain h | h := h
      · obtain rfl := Option.some.inj h
        exact ⟨d.span, rfl⟩
      · exact absurd rfl (h.1 first)
    | none =>
      have hname := (refusal?_eq_none_iff.mp hrefusal).1
      obtain ⟨herror, hok⟩ := @ih (d.text :: seen) (List.forall_mem_cons.mpr ⟨hname, hseen⟩)
      exact ⟨fun fault h => herror fault (h.resolve_left (by simp)).2, fun h => hok h.2⟩

end Symbols

end Declarations

/-! ## Without a start symbol -/

open Declarations (Refused) in
/-- **What is wrong with symbols** among which no start symbol is declared: a
nonterminal, or else a terminal, or else that there is no start symbol. -/
inductive SymbolFault (nonterminals terminals : List String) : Fault → Prop
  | nonterminal {fault : Fault} (h : FirstDefect (Refused (· = epsilonName)) nonterminals fault) :
    SymbolFault nonterminals terminals fault
  | terminal {fault : Fault} (hnonterminals : Flawless (Refused (· = epsilonName)) nonterminals)
    (h : FirstDefect (Refused (· ∈ nonterminals)) terminals fault) :
    SymbolFault nonterminals terminals fault
  | start (hnonterminals : Flawless (Refused (· = epsilonName)) nonterminals)
    (hterminals : Flawless (Refused (· ∈ nonterminals)) terminals) :
    SymbolFault nonterminals terminals .missingStart

theorem exists_symbolFault (nonterminals terminals : List String) :
    ∃ fault, SymbolFault nonterminals terminals fault := by
  by_cases hnonterminals : Flawless (Declarations.Refused (· = epsilonName)) nonterminals
  · by_cases hterminals : Flawless (Declarations.Refused (· ∈ nonterminals)) terminals
    · exact ⟨_, .start hnonterminals hterminals⟩
    · obtain ⟨fault, h⟩ := exists_firstDefect hterminals
      exact ⟨fault, .terminal hnonterminals h⟩
  · obtain ⟨fault, h⟩ := exists_firstDefect hnonterminals
    exact ⟨fault, .nonterminal h⟩

namespace Declarations

/-- The check of one kind of symbols, without names that were seen before. -/
theorem checkKind_nil_of_defects {clash : String → Prop} [DecidablePred clash]
    (hclash : ∀ name, clash name → name ≠ "" ∧ name ≠ endMarkerName) (l : List Declared) :
    (∀ fault, FirstDefect (Refused clash) (l.map Declared.text) fault →
        ∃ span, checkKind clash [] l = .error ⟨fault, span⟩)
      ∧ (Flawless (Refused clash) (l.map Declared.text) → checkKind clash [] l = .ok ()) := by
  have h := @checkKind_of_defects clash _ hclash [] l (by simp)
  simp only [List.append_nil, refused_reverse] at h
  exact h

/-- **Without a start symbol** declarations are refused. -/
theorem toGrammar_of_symbolFault {d : Declarations} {fault : Fault} (hstart : d.start = none)
    (h : SymbolFault d.texts.nonterminals d.texts.terminals fault) :
    ∃ span, d.toGrammar = .error ⟨fault, span⟩ := by
  have hepsilon : ∀ name, name = epsilonName → name ≠ "" ∧ name ≠ endMarkerName := by
    rintro _ rfl
    decide
  obtain ⟨hnterror, hntok⟩ := checkKind_nil_of_defects hepsilon d.nonterminals
  rw [← checkNonterminals_eq_checkKind] at hntok
  -- nonterminals that pass are no reserved names, also where they are terminals
  have hnames : Flawless (Refused (· = epsilonName)) d.texts.nonterminals →
      ∀ name ∈ d.texts.nonterminals, name ≠ "" ∧ name ≠ endMarkerName := by
    intro hflawless name hname
    obtain ⟨c, hc, rfl⟩ := List.mem_map.mp hname
    exact ((checkNonterminals_eq_ok.mp (hntok hflawless)).1 c hc).1.1
  unfold toGrammar
  cases h with
  | nonterminal h =>
    obtain ⟨span, herror⟩ := hnterror fault h
    rw [← checkNonterminals_eq_checkKind] at herror
    exact ⟨span, bind_eq_error.mpr (Or.inl herror)⟩
  | terminal hflawless h =>
    obtain ⟨span, herror⟩ := (checkKind_nil_of_defects (hnames hflawless) d.terminals).1 fault h
    rw [← checkTerminals_eq_checkKind] at herror
    exact ⟨span, bind_eq_error.mpr (Or.inr ⟨(), hntok hflawless,
      bind_eq_error.mpr (Or.inl herror)⟩)⟩
  | start hflawless h =>
    have htok := (checkKind_nil_of_defects (hnames hflawless) d.terminals).2 h
    rw [← checkTerminals_eq_checkKind] at htok
    refine ⟨none, bind_eq_error.mpr (Or.inr ⟨(), hntok hflawless,
      bind_eq_error.mpr (Or.inr ⟨(), htok, bind_eq_error.mpr (Or.inl ?_)⟩)⟩)⟩
    rw [hstart]
    rfl

end Declarations

end GrammarAnalysis
