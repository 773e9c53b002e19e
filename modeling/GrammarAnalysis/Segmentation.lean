import GrammarAnalysis.Symbol
import GrammarAnalysis.Text.Blank

/-!
# From the text of an alternative to its symbols

An alternative such as `+TE'` is written without separators: every
character is a symbol, and a prime joins the character before it. Only
the word `NULL`, standing alone between blanks, is a symbol of more
letters. What the symbols mean is not decided here; a segmentation is
found without knowing any declaration.

Nothing is lost but blanks: `flatten_segmentWord` says that the pieces
of a word, joined, are the word.
-/

namespace GrammarAnalysis

/-- **The symbols of a word**, from the left: a character, together with
the prime after it if there is one. -/
def primedPieces : List Char → List (List Char)
  | [] => []
  | [c] => [[c]]
  | c :: d :: rest =>
    if d = primeMark then [c, d] :: primedPieces rest
    else [c] :: primedPieces (d :: rest)

/-- The symbols of one word: the reserved name of the empty string is
one piece, any other word is cut into primed pieces. -/
def segmentWord (word : List Char) : List (List Char) :=
  if word = epsilonName.toList then [word] else primedPieces word

/-- **The symbols of an alternative**, word by word. -/
def segment (alternative : String) : List String :=
  ((wordsBy id alternative.toList).flatMap segmentWord).map String.ofList

/-- The pieces of a word make up the word. -/
theorem flatten_primedPieces (word : List Char) : (primedPieces word).flatten = word := by
  fun_induction primedPieces word with
  | case1 => rfl
  | case2 c => rfl
  | case3 c rest ih => simp [ih]
  | case4 c d rest _ ih => simp [ih]

@[simp] theorem flatten_segmentWord (word : List Char) : (segmentWord word).flatten = word := by
  unfold segmentWord
  split
  · simp
  · exact flatten_primedPieces word

end GrammarAnalysis
