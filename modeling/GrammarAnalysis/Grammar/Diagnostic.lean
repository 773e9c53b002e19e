import GrammarAnalysis.Grammar.Fault
import GrammarAnalysis.Text.Width

/-!
# Rendered diagnostics

A fault in a grammar file is shown with the line it stands on, and the
offending piece of that line is underlined:

    error: unknown directive `%token`
      ┌─ a.grammar:1:1
      │
    1 │ %token a
      │ ^^^^^^

The line is shown without control characters at its end, and with tabs
expanded, so that the underline stands below what it marks on a
monospaced display. A fault without a place has only its message.
-/

namespace GrammarAnalysis.Diagnostic

/-- Tabs go to the next column that is a multiple of this. -/
def tabWidth : Nat := 4

/-- Line ends, and the null character, are not shown at the end of a
line. -/
def isLineEnd (c : Char) : Bool :=
  c == '\n' || c == '\r' || c == '\x00'

/-- The columns that the characters of a line take, from a column on. -/
def columns : Nat → List Located → List (Located × Nat)
  | _, [] => []
  | column, c :: rest =>
    let width := if c.char = '\t' then tabWidth - column % tabWidth else Width.ofChar c.char
    (c, width) :: columns (column + width) rest

/-- The same character a number of times. -/
def repeated (n : Nat) (c : Char) : List Char :=
  List.replicate n c

/-- A line as it is shown, tabs expanded. -/
def shownLine (line : List Located) : String :=
  String.ofList ((columns 0 line).flatMap
    (fun (c, width) => if c.char = '\t' then repeated width ' ' else [c.char]))

/-- What stands below one place of a line: a mark if the place is in the
span, a blank if it is before the end of the span. -/
def markOf (span : Span) (offset width : Nat) : List Char :=
  if span.start ≤ offset ∧ offset < span.stop then repeated width '^'
  else if offset < span.stop then repeated width ' '
  else []

/-- **The marks below a line** that ends at the byte `stop`. The place
after the last character can be marked too. -/
def underline (span : Span) (stop : Nat) (line : List Located) : String :=
  String.ofList ((columns 0 line).flatMap (fun (c, width) => markOf span c.offset width) ++
    markOf span stop 1)

/-- **A place in a text**, as it is shown. -/
structure Place where
  /-- The number of lines before it. -/
  lineIndex : Nat
  /-- The number of characters before it on its line. -/
  columnIndex : Nat
  /-- The offset of the first byte of the line. -/
  lineStart : Nat
  /-- The line, without what is not shown at its end. -/
  line : List Located
deriving DecidableEq, Repr

/-- The place of a byte offset in a text. -/
def placeOf (text : List Located) (offset : Nat) : Place :=
  let before := text.takeWhile (fun c => c.offset < offset)
  let lineIndex := before.countP (fun c => c.char == '\n')
  let line := ((Located.lines text)[lineIndex]?).getD []
  { lineIndex
    columnIndex := line.countP (fun c => c.offset < offset)
    lineStart := (line.head?.map (·.offset)).getD offset
    line := trimEndWhere (fun c => isLineEnd c.char) line }

/-- **The rendered diagnostic** of an error in the text of the file
`name`. -/
def render (name text : String) (e : GrammarError) : String :=
  let header := "error: " ++ e.message ++ "\n"
  match e.span with
  | none => header ++ "\n"
  | some span =>
    let place := placeOf (Located.ofString text) span.start
    let number := toString (place.lineIndex + 1)
    let gutter := String.ofList (repeated number.length ' ')
    let stop := (place.line.getLast?.map (fun c => c.offset + c.char.utf8Size)).getD place.lineStart
    header ++
      gutter ++ " ┌─ " ++ name ++ ":" ++ number ++ ":" ++
        toString (place.columnIndex + 1) ++ "\n" ++
      gutter ++ " │\n" ++
      number ++ " │ " ++ shownLine place.line ++ "\n" ++
      gutter ++ " │ " ++ underline span stop place.line ++ "\n\n"

end GrammarAnalysis.Diagnostic
