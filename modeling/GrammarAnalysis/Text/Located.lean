import GrammarAnalysis.Text.Blank

/-!
# Located text

A fault in a grammar file is reported together with the place it stands
at. `Located` text is text whose characters carry their byte offset in
the file, so that a line, a trimmed line and a word of it still know
where they are, and no piece is ever searched for again.

Offsets and spans count bytes of the UTF-8 encoding.
-/

namespace GrammarAnalysis

/-- **A range of bytes**, from `start` up to and without `stop`. -/
structure Span where
  /-- The offset of the first byte. -/
  start : Nat
  /-- The offset after the last byte. -/
  stop : Nat
deriving DecidableEq, Repr

/-- A character and the byte offset at which it stands. -/
structure Located where
  /-- The byte offset. -/
  offset : Nat
  /-- The character. -/
  char : Char
deriving DecidableEq, Repr

namespace Located

/-- The characters of a text from the byte offset `offset` on. -/
def listFrom (offset : Nat) : List Char → List Located
  | [] => []
  | c :: cs => ⟨offset, c⟩ :: listFrom (offset + c.utf8Size) cs

/-- The located characters of a whole text. -/
def ofString (s : String) : List Located :=
  listFrom 0 s.toList

/-- The text of located characters. -/
def text (l : List Located) : String :=
  String.ofList (l.map (·.char))

/-- The bytes from the first to the last of some located characters. -/
def span (l : List Located) : Span where
  start := (l.head?.map (·.offset)).getD 0
  stop := (l.getLast?.map (fun c => c.offset + c.char.utf8Size)).getD 0

/-- The lines of a located text. A line feed ends a line and belongs to
none. -/
def lines (l : List Located) : List (List Located) :=
  splitWhere (fun c => c.char == '\n') l

/-- Located text without its leading and trailing blanks. -/
def trim (l : List Located) : List Located :=
  trimWhere (fun c => isBlank c.char) l

/-- The words of a located text. -/
def words (l : List Located) : List (List Located) :=
  wordsBy (·.char) l

/-- Locating characters does not change them. -/
theorem map_char_listFrom (offset : Nat) (cs : List Char) :
    (listFrom offset cs).map (·.char) = cs := by
  induction cs generalizing offset with
  | nil => rfl
  | cons c cs ih => simp [listFrom, ih]

@[simp] theorem text_ofString (s : String) : text (ofString s) = s := by
  simp [text, ofString, map_char_listFrom]

end Located

end GrammarAnalysis
