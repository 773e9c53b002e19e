import GrammarAnalysis.Lookahead.Report
import GrammarAnalysis.Precedence.Analysis
import GrammarAnalysis.Text.Blank

/-!
# The text of an operator-precedence analysis

The report lists FIRSTVT and LASTVT where they exist, prints the matrix
as a grid whose rows are the left terminals, and ends with the verdict.

## The grid

Every column is one blank and then as many characters wide as the
longest terminal name has bytes. A name may therefore be padded with
more blanks than its characters need, but never with too few, and the
columns stay aligned. Column heads and relations stand at the right of
their columns, row heads at the left. Blanks at the end of a line are
removed.
-/

namespace GrammarAnalysis

/-- A text with blanks before it, to at least `width` characters. -/
def alignRight (width : Nat) (s : String) : String :=
  String.ofList (List.replicate (width - s.length) ' ') ++ s

/-- A text with blanks after it, to at least `width` characters. -/
def alignLeft (width : Nat) (s : String) : String :=
  s ++ String.ofList (List.replicate (width - s.length) ' ')

namespace PrecedenceMatrix

/-- The width of a column without the blank before it: the greatest
number of bytes of a terminal name. -/
def columnWidth (g : Grammar) (m : PrecedenceMatrix) : Nat :=
  ((m.terminals.map (fun t => (g.terminalName t).utf8ByteSize)).max?).getD 1

/-- One line of the grid, from its head and its cells. -/
def gridLine (width : Nat) (head : String) (cells : List String) : String :=
  trimmedEnd ("  " ++ alignLeft width head ++
    String.join (cells.map (fun cell => " " ++ alignRight width cell)))

/-- The sign in a cell, nothing if it is empty. -/
def cellText (m : PrecedenceMatrix) (left right : Terminal) : String :=
  ((m.get? left right).map Relation.sign).getD ""

/-- **The lines of the grid**: the column heads, then one line for every
row. -/
def gridLines (g : Grammar) (m : PrecedenceMatrix) : List String :=
  let width := m.columnWidth g
  gridLine width "" (m.terminals.map g.terminalName) ::
    m.terminals.map fun l => gridLine width (g.terminalName l) (m.terminals.map (m.cellText l))

end PrecedenceMatrix

namespace PrecedenceAnalysis

/-- The lines that list FIRSTVT and LASTVT. -/
def edgeLines (a : PrecedenceAnalysis) : List String :=
  match a.relations with
  | .error _ => []
  | .ok r =>
    ("FIRSTVT" :: a.grammar.setLines r.firstVT.table.get) ++
      ("LASTVT" :: a.grammar.setLines r.lastVT.table.get)

/-- The lines of the report. -/
def reportLines (a : PrecedenceAnalysis) : List String :=
  a.edgeLines ++
    match a.matrix? with
    | some m => ("MATRIX" :: m.gridLines a.grammar) ++ ["operator precedence: yes"]
    | none => ["operator precedence: no, " ++ a.verdict.description a.grammar]

/-- **The report.** -/
def report (a : PrecedenceAnalysis) : String :=
  unlines a.reportLines

end PrecedenceAnalysis

end GrammarAnalysis
