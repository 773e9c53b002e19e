import GrammarAnalysis.Grammar.Fault
import GrammarAnalysis.Grammar.Printer
import GrammarAnalysis.Lookahead.Select

/-!
# The text of an LL(1) analysis

The report lists FIRST and FOLLOW of every nonterminal and SELECT of
every production, and ends with the verdict. A verdict of *no* describes
the first conflict.
-/

namespace GrammarAnalysis

/-- Which productions conflict, and on which lookaheads. -/
def Conflict.description (g : Grammar) (c : Conflict) : String :=
  quoted (g.productionTextAt c.earlier) ++ " and " ++ quoted (g.productionTextAt c.later) ++
    " both select on " ++ ", ".intercalate (c.lookaheads.map (fun t => quoted (g.terminalName t)))

/-- The lines that list one set for every nonterminal. -/
def Grammar.setLines (g : Grammar) (setOf : Nonterminal → TerminalSet) : List String :=
  g.allNonterminals.map fun x => "  " ++ g.nonterminalName x ++ ": " ++ g.setText (setOf x)

namespace LookaheadAnalysis

/-- The lines that list SELECT of every production. -/
def selectLines (a : LookaheadAnalysis) : List String :=
  List.zipWith
    (fun p s => "  " ++ a.grammar.productionText p ++ ": " ++ a.grammar.setText s)
    a.grammar.productions a.select

/-- The line that says whether the grammar is LL(1). -/
def verdictLine (a : LookaheadAnalysis) : String :=
  match a.conflict? with
  | none => "LL(1): yes"
  | some c => "LL(1): no, " ++ c.description a.grammar

/-- The lines of the report. -/
def reportLines (a : LookaheadAnalysis) : List String :=
  ("FIRST" :: a.grammar.setLines a.firstOf) ++
    ("FOLLOW" :: a.grammar.setLines a.followOf) ++
    ("SELECT" :: a.selectLines) ++ [a.verdictLine]

/-- **The report.** -/
def report (a : LookaheadAnalysis) : String :=
  unlines a.reportLines

end LookaheadAnalysis

end GrammarAnalysis
