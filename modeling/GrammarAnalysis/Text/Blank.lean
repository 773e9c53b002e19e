import GrammarAnalysis.Text.Split

/-!
# Blank characters, trimming and words

Blank means the Unicode property `White_Space`: twenty-five characters,
among them the no-break space and the ideographic space, but neither
the zero-width space nor the byte order mark. All trimming and all
splitting into words uses this one class.
-/

namespace GrammarAnalysis

/-- **The Unicode property `White_Space`.** -/
def isBlank (c : Char) : Bool :=
  let n := c.toNat
  (0x09 ≤ n && n ≤ 0x0D) || n == 0x20 || n == 0x85 || n == 0xA0 || n == 0x1680 ||
    (0x2000 ≤ n && n ≤ 0x200A) || n == 0x2028 || n == 0x2029 || n == 0x202F ||
    n == 0x205F || n == 0x3000

/-- The text without its leading and trailing blanks. -/
def trimmed (s : String) : String :=
  String.ofList (trimWhere isBlank s.toList)

/-- The text without its trailing blanks. -/
def trimmedEnd (s : String) : String :=
  String.ofList (trimEndWhere isBlank s.toList)

/-- The pieces of a list between blanks, empty ones left out; `charOf`
reads the character of an element. -/
def wordsBy {α : Type} (charOf : α → Char) (l : List α) : List (List α) :=
  (splitWhere (fun a => isBlank (charOf a)) l).filter (fun w => !w.isEmpty)

/-- **The words of a text**: its longest runs free of blanks. -/
def wordsOf (s : String) : List String :=
  (wordsBy id s.toList).map String.ofList

end GrammarAnalysis
