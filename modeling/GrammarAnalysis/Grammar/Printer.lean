import GrammarAnalysis.Grammar.Basic
import GrammarAnalysis.TerminalSet

/-!
# The text of productions, grammars and sets

Symbols are printed one after the other without separators, as they are
written: `E' -> +TE'`. A grammar is printed rule by rule, the
alternatives of a rule on one line. A set of terminals is printed in
braces, its members in the order of their numbers.

What is printed is made of lines; `unlines` ends each of them.
-/

namespace GrammarAnalysis

/-- **The text made of lines**, each ended by a line feed. -/
def unlines (lines : List String) : String :=
  String.join (lines.map (· ++ "\n"))

namespace Grammar

/-- The names of symbols, joined. -/
def symbolsText (g : Grammar) (symbols : List Symbol) : String :=
  String.join (symbols.map g.symbolName)

/-- The text `A -> x` of one production. -/
def productionText (g : Grammar) (p : Production) : String :=
  g.nonterminalName p.lhs ++ " -> " ++ g.symbolsText p.rhs

/-- The text of the production with a given number. -/
def productionTextAt (g : Grammar) (number : Nat) : String :=
  ((g.productions[number]?).map g.productionText).getD ""

/-- The text `A -> x | y` of one rule. -/
def ruleText (g : Grammar) (r : Rule) : String :=
  g.nonterminalName r.lhs ++ " -> " ++ " | ".intercalate (r.alternatives.map g.symbolsText)

/-- The lines that print a grammar: one for every rule, in the order
written. -/
def lines (g : Grammar) : List String :=
  g.rules.map g.ruleText

/-- **The text of a grammar.** -/
def text (g : Grammar) : String :=
  unlines g.lines

/-- The names of the members of a set, in the order of their numbers. -/
def setNames (g : Grammar) (s : TerminalSet) : List String :=
  s.toList.map g.terminalName

/-- The text of a set of terminals. -/
def setText (g : Grammar) (s : TerminalSet) : String :=
  if s = ∅ then "\x7b\x7d" else "\x7b " ++ ", ".intercalate (g.setNames s) ++ " \x7d"

end Grammar

end GrammarAnalysis
