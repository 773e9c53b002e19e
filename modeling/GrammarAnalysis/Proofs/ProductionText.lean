import GrammarAnalysis.Grammar.Declaration
import Mathlib.Data.List.Infix

/-!
# Production texts

The text of a production is cut at its first arrow and what stands
behind the arrow at every bar. `IsProductionText` says so without the
functions that cut: the arrow is the first one because no arrow stands
before it, the alternatives are what `List.splitOn` finds between the
bars, and all parts are trimmed.

A text has one left-hand side and one list of alternatives at most
(`IsProductionText.unique`). A text that is cut (`splitProduction_eq_ok`)
has a left-hand side that is not empty, and a text that is refused
(`splitProduction_eq_error`) has no arrow, or nothing before it.
-/

namespace GrammarAnalysis

/-! ## The first arrow -/

/-- The characters of an arrow. -/
def arrow : List Char := ['-', '>']

/-- **A text that begins with an arrow, or has an arrow in it**: its first
character is the beginning of one, or one stands behind it. -/
theorem arrow_infix_cons {c : Char} {l : List Char} :
    arrow <:+: c :: l ↔ (c = '-' ∧ ∃ rest, l = '>' :: rest) ∨ arrow <:+: l := by
  rw [List.infix_cons_iff]
  refine or_congr_left ⟨?_, ?_⟩
  · rintro ⟨rest, h⟩
    obtain ⟨rfl, rfl⟩ := List.cons.inj h
    exact ⟨rfl, rest, rfl⟩
  · rintro ⟨rfl, rest, rfl⟩
    exact ⟨rest, rfl⟩

theorem splitAtArrow_eq_none_iff {l : List Char} : splitAtArrow l = none ↔ ¬ arrow <:+: l := by
  fun_induction splitAtArrow l with
  | case1 => simp [arrow]
  | case2 c =>
    rw [arrow_infix_cons]
    simp [arrow]
  | case3 c d rest hcd =>
    refine iff_of_false (by simp) (not_not_intro (arrow_infix_cons.mpr (Or.inl ⟨hcd.1, ?_⟩)))
    exact ⟨rest, by rw [hcd.2]⟩
  | case4 c d rest hcd ih =>
    rw [Option.map_eq_none_iff, ih, arrow_infix_cons (c := c), not_or]
    refine (and_iff_right ?_).symm
    rintro ⟨rfl, r, h⟩
    exact hcd ⟨rfl, (List.cons.inj h).1⟩

/-- **The arrow at which a text is cut is the first one**: it is there,
and no arrow stands before it. -/
theorem splitAtArrow_eq_some_iff {l before after : List Char} :
    splitAtArrow l = some (before, after) ↔
      l = before ++ (arrow ++ after) ∧ ¬ arrow <:+: before := by
  fun_induction splitAtArrow l generalizing before with
  | case1 => simp [arrow]
  | case2 c =>
    refine iff_of_false (by simp) (fun h => ?_)
    have hlen := congrArg List.length h.1
    simp only [List.length_append, arrow, List.length_cons, List.length_nil] at hlen
    omega
  | case3 c d rest hcd =>
    obtain ⟨rfl, rfl⟩ := hcd
    rw [Option.some.injEq, Prod.mk.injEq]
    constructor
    · rintro ⟨rfl, rfl⟩
      exact ⟨rfl, by simp [arrow]⟩
    · rintro ⟨h, hfirst⟩
      cases before with
      | nil => exact ⟨rfl, by simpa [arrow] using h⟩
      | cons c before =>
        -- the arrow at the beginning would stand before the cut
        obtain ⟨rfl, htail⟩ := List.cons.inj h
        refine absurd (arrow_infix_cons.mpr (Or.inl ⟨rfl, ?_⟩)) hfirst
        cases before with
        | nil => exact absurd (List.cons.inj htail).1 (by decide)
        | cons d before => exact ⟨before, by rw [(List.cons.inj htail).1]⟩
  | case4 c d rest hcd ih =>
    rw [Option.map_eq_some_iff]
    constructor
    · rintro ⟨⟨b, a⟩, hsplit, heq⟩
      obtain ⟨rfl, rfl⟩ := Prod.mk.inj heq
      obtain ⟨h, hfirst⟩ := ih.mp hsplit
      refine ⟨by rw [h, List.cons_append], fun hin => ?_⟩
      obtain ⟨rfl, r, rfl⟩ | hin := arrow_infix_cons.mp hin
      · exact hcd ⟨rfl, (List.cons.inj h).1⟩
      · exact hfirst hin
    · rintro ⟨h, hfirst⟩
      cases before with
      | nil =>
        obtain ⟨rfl, htail⟩ := List.cons.inj h
        exact absurd ⟨rfl, (List.cons.inj htail).1⟩ hcd
      | cons b before =>
        obtain ⟨rfl, htail⟩ := List.cons.inj h
        have hfirst' : ¬ arrow <:+: before := fun hin => hfirst (arrow_infix_cons.mpr (Or.inr hin))
        exact ⟨(before, after), ih.mpr ⟨htail, hfirst'⟩, rfl⟩

/-! ## Between bars -/

/-- The pieces between separators are those of the standard library. -/
theorem splitWhere_eq_splitOnP {α : Type} (isSeparator : α → Bool) (l : List α) :
    splitWhere isSeparator l = l.splitOnP isSeparator := by
  induction l with
  | nil => rfl
  | cons a l ih =>
    rw [List.splitOnP_cons_eq_if_modifyHead, ← ih]
    cases h : isSeparator a with
    | true =>
      rw [splitWhere_cons_of_pos l h]
      rfl
    | false =>
      obtain ⟨piece, rest, hl, hal⟩ := splitWhere_cons_of_neg l h
      rw [hal, hl]
      rfl

/-! ## Production texts -/

/-- **The parts of a production text**: what stands before its first
arrow, and what stands behind it between bars, all trimmed. -/
def IsProductionText (text lhs : String) (alternatives : List String) : Prop :=
  ∃ before after, text.toList = before ++ (arrow ++ after) ∧ ¬ arrow <:+: before
    ∧ lhs = trimmed (String.ofList before)
    ∧ alternatives = (after.splitOn '|').map (fun piece => trimmed (String.ofList piece))

/-- The parts are those that are cut. -/
theorem isProductionText_iff {text lhs : String} {alternatives : List String} :
    IsProductionText text lhs alternatives ↔
      ∃ before after, splitAtArrow text.toList = some (before, after)
        ∧ lhs = String.ofList (trimWhere isBlank before)
        ∧ alternatives
          = (splitWhere (· == '|') after).map (fun a => String.ofList (trimWhere isBlank a)) := by
  unfold IsProductionText trimmed List.splitOn
  simp only [splitAtArrow_eq_some_iff, splitWhere_eq_splitOnP, String.toList_ofList, and_assoc]

/-- **A text has its parts in one way.** -/
theorem IsProductionText.unique {text lhs lhs' : String} {alternatives alternatives' : List String}
    (h : IsProductionText text lhs alternatives) (h' : IsProductionText text lhs' alternatives') :
    lhs = lhs' ∧ alternatives = alternatives' := by
  obtain ⟨before, after, hsplit, rfl, rfl⟩ := isProductionText_iff.mp h
  obtain ⟨before', after', hsplit', rfl, rfl⟩ := isProductionText_iff.mp h'
  obtain ⟨rfl, rfl⟩ := Prod.mk.inj (Option.some.inj (hsplit.symm.trans hsplit'))
  exact ⟨rfl, rfl⟩

/-- **A text is cut** when it has a left-hand side that is not empty. -/
theorem splitProduction_eq_ok {text lhs : String} {alternatives : List String} :
    splitProduction text = .ok (lhs, alternatives) ↔
      IsProductionText text lhs alternatives ∧ lhs ≠ "" := by
  rw [isProductionText_iff]
  unfold splitProduction
  cases hsplit : splitAtArrow text.toList with
  | none => simp
  | some cut =>
    obtain ⟨before, after⟩ := cut
    simp only [Option.some.injEq, Prod.mk.injEq]
    split
    · next hempty =>
      refine iff_of_false (by simp) ?_
      rintro ⟨⟨_, _, ⟨rfl, rfl⟩, rfl, -⟩, hne⟩
      exact hne hempty
    · next hne =>
      rw [Except.ok.injEq, Prod.mk.injEq]
      constructor
      · rintro ⟨rfl, rfl⟩
        exact ⟨⟨before, after, ⟨rfl, rfl⟩, rfl, rfl⟩, hne⟩
      · rintro ⟨⟨_, _, ⟨rfl, rfl⟩, rfl, rfl⟩, -⟩
        exact ⟨rfl, rfl⟩

/-- **A text is refused** when it has no arrow, or only blanks before the
first one. -/
theorem splitProduction_eq_error {text : String} {fault : Fault} :
    splitProduction text = .error fault ↔
      (fault = .missingArrow text ∧ ¬ arrow <:+: text.toList)
        ∨ (fault = .emptyLhs text ∧ ∃ alternatives, IsProductionText text "" alternatives) := by
  simp only [isProductionText_iff, ← splitAtArrow_eq_none_iff]
  unfold splitProduction
  cases hsplit : splitAtArrow text.toList with
  | none => simpa using eq_comm
  | some cut =>
    obtain ⟨before, after⟩ := cut
    simp only [Option.some.injEq, Prod.mk.injEq]
    split
    · next hempty =>
      rw [Except.error.injEq]
      constructor
      · rintro rfl
        exact Or.inr ⟨rfl, _, before, after, ⟨rfl, rfl⟩, hempty.symm, rfl⟩
      · rintro (⟨-, h⟩ | ⟨rfl, -⟩)
        · exact absurd h (by simp)
        · rfl
    · next hne =>
      refine iff_of_false (by simp) ?_
      rintro (⟨-, h⟩ | ⟨-, _, _, _, ⟨rfl, rfl⟩, hempty, -⟩)
      · exact absurd h (by simp)
      · exact hne hempty.symm

end GrammarAnalysis
