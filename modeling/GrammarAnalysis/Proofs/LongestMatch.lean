import GrammarAnalysis.Proofs.LocatedText
import Mathlib.Data.List.Chain
import Mathlib.Data.List.Forall2

/-!
# Longest matches

An alternative is written without separators, so its symbols have to be told
apart by what they look like. A word other than the reserved name of the empty
string is cut into pieces of one character, or of one character and a prime.
There are several ways to do this: `a'` is one piece, or two. `IsLongestMatch`
chooses among them without saying how to find the chosen one: no piece of one
character stands before a piece that begins with a prime, since the prime
should have been taken with it.

A word has one such segmentation and no other (`isLongestMatch_iff`), whatever
runs of primes are in it, and it is the one that is found from the left. So the
symbols of an alternative are determined word by word (`segment_exact`), and a
symbol is cut no further.
-/

namespace GrammarAnalysis

variable {word rest l : List Char} {piece : String} {pieces : List String}

/-! ## Segmentations of a word -/

/-- **A piece of a word**: a character, or a character and a prime. -/
def IsPiece (piece : String) : Prop :=
  ∃ c, piece = String.ofList [c] ∨ piece = String.ofList [c, primeMark]

/-- **A prime belongs to the character before it**: if the first piece is that
character alone, the second one does not begin with a prime. -/
def Detached (first second : String) : Prop :=
  first.length = 1 → second.toList.head? ≠ some primeMark

/-- **A segmentation by longest matches**: the word is made up of pieces, and
no piece could have taken a prime from the next one. -/
structure IsLongestMatch (word : List Char) (pieces : List String) : Prop where
  isPiece : ∀ piece ∈ pieces, IsPiece piece
  flatMap_eq : pieces.flatMap String.toList = word
  detached : pieces.IsChain Detached

/-- **The segmentation of a word**: the reserved name of the empty string is one
piece, any other word is cut by longest matches. -/
inductive IsSegmentation : List Char → List String → Prop
  | reserved : IsSegmentation epsilonName.toList [epsilonName]
  | pieces {word : List Char} {pieces : List String} (hword : word ≠ epsilonName.toList)
    (h : IsLongestMatch word pieces) : IsSegmentation word pieces

theorem IsPiece.toList_ne_nil (h : IsPiece piece) : piece.toList ≠ [] := by
  obtain ⟨c, rfl | rfl⟩ := h <;> simp

theorem isLongestMatch_nil : IsLongestMatch word [] ↔ word = [] :=
  ⟨fun h => h.flatMap_eq.symm, fun h => ⟨by simp, h.symm, .nil⟩⟩

/-- **The first piece of a longest match**: what is left is cut by longest
matches, and does not begin with a prime if the piece could take it. -/
theorem isLongestMatch_cons : IsLongestMatch word (piece :: pieces) ↔
    IsPiece piece ∧ ∃ rest, word = piece.toList ++ rest ∧ IsLongestMatch rest pieces
      ∧ (piece.length = 1 → rest.head? ≠ some primeMark) := by
  have hhead : (∀ s ∈ pieces, IsPiece s) →
      ((∀ s ∈ pieces.head?, Detached piece s) ↔
        (piece.length = 1 → (pieces.flatMap String.toList).head? ≠ some primeMark)) := by
    intro hpieces
    cases pieces with
    | nil => simp
    | cons s pieces =>
      have hs := (hpieces s List.mem_cons_self).toList_ne_nil
      simp [Detached, List.head?_append_of_ne_nil _ hs]
  constructor
  · rintro ⟨hpiece, hword, hchain⟩
    obtain ⟨hpiece, hpieces⟩ := List.forall_mem_cons.mp hpiece
    obtain ⟨hfirst, hchain⟩ := List.isChain_cons.mp hchain
    exact ⟨hpiece, pieces.flatMap String.toList, by rw [← hword, List.flatMap_cons],
      ⟨hpieces, rfl, hchain⟩, (hhead hpieces).mp hfirst⟩
  · rintro ⟨hpiece, rest, rfl, ⟨hpieces, rfl, hchain⟩, hfirst⟩
    exact ⟨List.forall_mem_cons.mpr ⟨hpiece, hpieces⟩, List.flatMap_cons,
      List.isChain_cons.mpr ⟨(hhead hpieces).mpr hfirst, hchain⟩⟩

/-- The empty word has no pieces. -/
theorem isLongestMatch_empty : IsLongestMatch [] pieces ↔ pieces = [] := by
  cases pieces with
  | nil => simp [isLongestMatch_nil]
  | cons piece pieces =>
    refine iff_of_false (fun h => ?_) (List.cons_ne_nil piece pieces)
    obtain ⟨hpiece, rest, hnil, -⟩ := isLongestMatch_cons.mp h
    exact hpiece.toList_ne_nil (List.append_eq_nil_iff.mp hnil.symm).1

/-- **The first character of a word** is a piece with the prime behind it, and
a piece alone if there is none. -/
theorem isLongestMatch_cons_iff {c : Char} : IsLongestMatch (c :: l) pieces ↔
    (l.head? ≠ some primeMark
        ∧ ∃ later, pieces = String.ofList [c] :: later ∧ IsLongestMatch l later)
      ∨ ∃ rest later, l = primeMark :: rest ∧ pieces = String.ofList [c, primeMark] :: later
        ∧ IsLongestMatch rest later := by
  constructor
  · intro h
    cases pieces with
    | nil => exact absurd (isLongestMatch_nil.mp h) (List.cons_ne_nil c l)
    | cons piece pieces =>
      obtain ⟨⟨d, rfl | rfl⟩, rest, hword, hrest, hfirst⟩ := isLongestMatch_cons.mp h
      · rw [String.toList_ofList] at hword
        obtain ⟨rfl, rfl⟩ := List.cons.inj hword
        exact Or.inl ⟨hfirst (by simp), pieces, rfl, hrest⟩
      · rw [String.toList_ofList] at hword
        obtain ⟨rfl, rfl⟩ := List.cons.inj hword
        exact Or.inr ⟨rest, pieces, rfl, rfl, hrest⟩
  · rintro (⟨hhead, later, rfl, hlater⟩ | ⟨rest, later, rfl, rfl, hlater⟩)
    · exact isLongestMatch_cons.mpr ⟨⟨c, Or.inl rfl⟩, l, by simp, hlater, fun _ => hhead⟩
    · exact isLongestMatch_cons.mpr ⟨⟨c, Or.inr rfl⟩, rest, by simp, hlater, by simp⟩

/-- **The only longest match of a word** is found from the left. -/
theorem isLongestMatch_iff :
    IsLongestMatch word pieces ↔ pieces = (primedPieces word).map String.ofList := by
  fun_induction primedPieces word generalizing pieces with
  | case1 => exact isLongestMatch_empty
  | case2 c =>
    rw [isLongestMatch_cons_iff]
    simp [isLongestMatch_empty]
  | case3 c rest ih =>
    rw [isLongestMatch_cons_iff]
    simp [ih]
  | case4 c d rest hd ih =>
    rw [isLongestMatch_cons_iff]
    simp [ih, hd]

theorem isSegmentation_iff : IsSegmentation word pieces ↔
    pieces = (segmentWord word).map String.ofList := by
  unfold segmentWord
  split
  · next hword =>
    subst hword
    constructor
    · rintro (_ | ⟨hne, -⟩)
      · simp
      · exact absurd rfl hne
    · rintro rfl
      simpa using IsSegmentation.reserved
  · next hword =>
    rw [← isLongestMatch_iff]
    constructor
    · rintro (_ | ⟨-, h⟩)
      · exact absurd rfl hword
      · exact h
    · exact .pieces hword

/-! ## Words -/

/-- The words of a text, by the cutting of the standard library. -/
theorem wordsBy_id_eq_splitOnP (l : List Char) :
    wordsBy id l = (l.splitOnP isBlank).filter (· ≠ []) := by
  unfold wordsBy
  rw [splitWhere_eq_splitOnP]
  refine List.filter_congr fun word _ => ?_
  cases word <;> rfl

/-- The words of a text, joined, are the text without its blanks. -/
theorem flatten_wordsBy_id (l : List Char) :
    (wordsBy id l).flatten = l.filter (fun c => !isBlank c) := by
  unfold wordsBy
  rw [List.flatten_filter_not_isEmpty, flatten_splitWhere]
  rfl

/-- A text without blanks is one word. -/
theorem wordsBy_id_eq_singleton (hne : l ≠ []) (hfree : ∀ c ∈ l, isBlank c = false) :
    wordsBy id l = [l] := by
  rw [wordsBy_id_eq_splitOnP, List.splitOnP_eq_singleton hfree]
  simp [hne]

/-! ## Alternatives -/

theorem segmentWord_eq_nil_iff : segmentWord word = [] ↔ word = [] := by
  refine ⟨fun h => ?_, fun h => by rw [h]; rfl⟩
  rw [← flatten_segmentWord word, h, List.flatten_nil]

/-- The symbols of an alternative, joined, are the alternative without its
blanks. -/
theorem join_segment (alternative : String) :
    String.join (segment alternative)
      = String.ofList (alternative.toList.filter (fun c => !isBlank c)) := by
  rw [← String.toList_inj, String.toList_join, segment, String.toList_ofList, List.flatMap_map]
  simp only [String.toList_ofList, List.flatMap_id']
  rw [← flatten_wordsBy_id]
  induction wordsBy id alternative.toList with
  | nil => rfl
  | cons word words ih =>
    rw [List.flatMap_cons, List.flatten_append, flatten_segmentWord, ih, List.flatten_cons]

/-- The symbols of an alternative that is one word are its segmentation. -/
theorem segment_eq_iff_isSegmentation {alternative : String} (hne : alternative.toList ≠ [])
    (hfree : ∀ c ∈ alternative.toList, isBlank c = false) :
    segment alternative = pieces ↔ IsSegmentation alternative.toList pieces := by
  rw [segment, wordsBy_id_eq_singleton hne hfree, List.flatMap_singleton, isSegmentation_iff,
    eq_comm]

/-- An alternative without symbols is blank. -/
theorem segment_eq_nil_iff {alternative : String} :
    segment alternative = [] ↔ ∀ c ∈ alternative.toList, isBlank c = true := by
  have hwords : (∀ word ∈ wordsBy id alternative.toList, word = [])
      ↔ (wordsBy id alternative.toList).flatten = [] := List.flatten_eq_nil_iff.symm
  rw [segment, List.map_eq_nil_iff, List.flatMap_eq_nil_iff]
  simp only [segmentWord_eq_nil_iff]
  rw [hwords, flatten_wordsBy_id]
  simp

/-- A symbol of a word is the reserved name or a piece. -/
theorem eq_epsilonName_or_isPiece (h : l ∈ segmentWord word) :
    l = epsilonName.toList ∨ IsPiece (String.ofList l) := by
  unfold segmentWord at h
  split at h
  · next hword => exact Or.inl ((List.mem_singleton.mp h).trans hword)
  · have hmatch := isLongestMatch_iff.mpr (Eq.refl ((primedPieces word).map String.ofList))
    exact Or.inr (hmatch.isPiece _ (List.mem_map_of_mem h))

/-- **A symbol of a word is cut no further.** -/
theorem segmentWord_of_mem (h : l ∈ segmentWord word) : segmentWord l = [l] := by
  obtain rfl | ⟨c, hl | hl⟩ := eq_epsilonName_or_isPiece h
  · rfl
  · obtain rfl := String.ofList_injective hl
    simp [segmentWord, primedPieces, epsilonName]
  · obtain rfl := String.ofList_injective hl
    simp [segmentWord, primedPieces, epsilonName]

/-- **The symbols of an alternative** are free of blanks and not empty, and
each is its own only symbol. -/
theorem segment_of_mem {alternative : String} (h : piece ∈ segment alternative) :
    segment piece = [piece] := by
  obtain ⟨l, hl, rfl⟩ := List.mem_map.mp h
  obtain ⟨word, hword, hl⟩ := List.mem_flatMap.mp hl
  have hself := segmentWord_of_mem hl
  have hne : l ≠ [] := fun hnil => by
    rw [segmentWord_eq_nil_iff.mpr hnil] at hself
    cases hself
  have hfree : ∀ c ∈ l, isBlank c = false := fun c hc => by
    have hc := List.mem_flatten.mpr ⟨l, hl, hc⟩
    rw [flatten_segmentWord] at hc
    obtain ⟨-, _, _, -, hbetween⟩ := mem_wordsBy_iff.mp hword
    exact hbetween.free c hc
  rw [segment, String.toList_ofList, wordsBy_id_eq_singleton hne hfree, List.flatMap_singleton,
    hself, List.map_singleton]

/-- **Symbols are found word by word, by longest matches.** The words of an
alternative have segmentations, these are the only ones, and joined they are
the symbols. The symbols, joined in turn, are the alternative without its
blanks; there are none if the alternative is blank, and each of them is its own
only symbol. -/
theorem segment_exact (alternative : String) :
    (∃ segmentations : List (List String),
        (∀ segmentations', List.Forall₂ IsSegmentation
            ((alternative.toList.splitOnP isBlank).filter (· ≠ [])) segmentations'
          ↔ segmentations' = segmentations)
        ∧ segment alternative = segmentations.flatten)
      ∧ String.join (segment alternative)
        = String.ofList (alternative.toList.filter (fun c => !isBlank c))
      ∧ (segment alternative = [] ↔ ∀ c ∈ alternative.toList, isBlank c = true)
      ∧ ∀ piece ∈ segment alternative, segment piece = [piece] := by
  refine ⟨⟨(wordsBy id alternative.toList).map (fun w => (segmentWord w).map String.ofList),
    fun segmentations => ?_, ?_⟩, join_segment alternative, segment_eq_nil_iff,
    fun piece => segment_of_mem⟩
  · have hunique : IsSegmentation = fun word pieces =>
        (segmentWord word).map String.ofList = pieces := by
      funext word pieces
      exact propext (isSegmentation_iff.trans eq_comm)
    rw [← wordsBy_id_eq_splitOnP, hunique, eq_comm (a := segmentations),
      ← List.forall₂_map_left_iff (R := Eq), List.forall₂_eq_eq_eq]
  · rw [segment, List.map_flatMap, List.flatMap_def]

/-- In three words, of which the last begins behind an ideographic space, a run
of primes is cut behind the first one, the reserved name is not cut, and a prime
at the beginning stands alone. Two primes are their own only symbol. -/
theorem segment_exact_primes :
    segment " é''' NULL\u3000'aNULL" = ["é'", "''", "NULL", "'", "a", "N", "U", "L", "L"]
      ∧ "''" ∈ segment " é''' NULL\u3000'aNULL" ∧ segment "''" = ["''"]
      ∧ segment " \u3000" = [] := by
  have h : segment " é''' NULL\u3000'aNULL"
      = ["é'", "''", "NULL", "'", "a", "N", "U", "L", "L"] := by decide +kernel
  have hmem : "''" ∈ segment " é''' NULL\u3000'aNULL" := by
    rw [h]
    exact List.mem_cons_of_mem _ List.mem_cons_self
  obtain ⟨-, -, -, hself⟩ := segment_exact " é''' NULL\u3000'aNULL"
  obtain ⟨-, -, hempty, -⟩ := segment_exact " \u3000"
  have hblank : " \u3000".toList.all isBlank = true := by decide +kernel
  exact ⟨h, hmem, hself _ hmem, hempty.mpr (List.all_eq_true.mp hblank)⟩

end GrammarAnalysis
