/-!
# Splitting and trimming lists

Text is cut in three ways here: a file into lines, a line into words,
the right side of a production into alternatives. Each is the same
operation on a list, `splitWhere`, at a different separator. It is
stated for lists of any element so that it also cuts *located* text,
whose characters carry their offset, and the pieces keep their place.

Separators are removed and all else is kept: `flatten_splitWhere` says
the pieces, joined, are the list without its separators.
-/

namespace GrammarAnalysis

variable {α : Type}

/-- **The pieces between separators**, in order. There is one piece more
than there are separators, and two separators in a row enclose an empty
piece. -/
def splitWhere (isSeparator : α → Bool) (l : List α) : List (List α) :=
  l.foldr
    (fun a pieces =>
      if isSeparator a then [] :: pieces
      else match pieces with
        | [] => [[a]]
        | piece :: rest => (a :: piece) :: rest)
    [[]]

/-- The list without the leading and trailing elements that satisfy
`drop`. -/
def trimWhere (drop : α → Bool) (l : List α) : List α :=
  ((l.dropWhile drop).reverse.dropWhile drop).reverse

/-- The list without the trailing elements that satisfy `drop`. -/
def trimEndWhere (drop : α → Bool) (l : List α) : List α :=
  (l.reverse.dropWhile drop).reverse

@[simp] theorem splitWhere_nil (isSeparator : α → Bool) :
    splitWhere isSeparator [] = [[]] := rfl

theorem splitWhere_cons_of_pos {isSeparator : α → Bool} {a : α} (l : List α)
    (h : isSeparator a = true) :
    splitWhere isSeparator (a :: l) = [] :: splitWhere isSeparator l := by
  simp [splitWhere, h]

theorem splitWhere_ne_nil (isSeparator : α → Bool) (l : List α) :
    splitWhere isSeparator l ≠ [] := by
  induction l with
  | nil => simp
  | cons a l _ =>
    simp only [splitWhere, List.foldr_cons]
    split
    · simp
    · split <;> simp

theorem splitWhere_cons_of_neg {isSeparator : α → Bool} {a : α} (l : List α)
    (h : isSeparator a = false) :
    ∃ piece rest, splitWhere isSeparator l = piece :: rest ∧
      splitWhere isSeparator (a :: l) = (a :: piece) :: rest := by
  cases hl : splitWhere isSeparator l with
  | nil => exact absurd hl (splitWhere_ne_nil isSeparator l)
  | cons piece rest =>
    refine ⟨piece, rest, rfl, ?_⟩
    unfold splitWhere at hl ⊢
    simp [h, hl]

/-- **Nothing but separators is lost.** -/
theorem flatten_splitWhere (isSeparator : α → Bool) (l : List α) :
    (splitWhere isSeparator l).flatten = l.filter (fun a => !isSeparator a) := by
  induction l with
  | nil => rfl
  | cons a l ih =>
    cases h : isSeparator a with
    | true => rw [splitWhere_cons_of_pos l h]; simp [h, ih]
    | false =>
      obtain ⟨piece, rest, hl, hal⟩ := splitWhere_cons_of_neg l h
      rw [hal]
      rw [hl] at ih
      simp only [List.flatten_cons] at ih
      simp [h, ← ih]

/-- No piece holds a separator. -/
theorem not_isSeparator_of_mem_splitWhere {isSeparator : α → Bool} {l piece : List α} {a : α}
    (hp : piece ∈ splitWhere isSeparator l) (ha : a ∈ piece) : isSeparator a = false := by
  have hf : a ∈ (splitWhere isSeparator l).flatten := List.mem_flatten.mpr ⟨piece, hp, ha⟩
  rw [flatten_splitWhere] at hf
  simpa using (List.mem_filter.mp hf).2

end GrammarAnalysis
