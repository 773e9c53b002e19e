import GrammarAnalysis.Text.Located

/-!
# What can be wrong with a grammar

A text that is no grammar has a `Fault`, which names the offending piece
of text. When the grammar comes from a file the fault is reported with
the bytes at which that piece stands.
-/

namespace GrammarAnalysis

/-- **Why a text is not a grammar.** -/
inductive Fault where
  /-- A production without `->`. -/
  | missingArrow (production : String)
  /-- A production with nothing before its `->`. -/
  | emptyLhs (production : String)
  /-- A nonterminal with an alternative that holds no symbol. -/
  | emptyAlternative (lhs : String)
  /-- An alternative in which the empty string stands beside other
  symbols. -/
  | epsilonMixed (alternative : String)
  /-- A symbol that is not declared. -/
  | unknownSymbol (name : String)
  /-- A production of something that is not a nonterminal. -/
  | notNonterminal (lhs : String)
  /-- A second production of the same nonterminal. -/
  | duplicateProduction (lhs : String)
  /-- A nonterminal without productions. -/
  | missingProductions (name : String)
  /-- A symbol declared twice as the same kind. -/
  | duplicateSymbol (name : String)
  /-- A symbol declared as both kinds. -/
  | ambiguousSymbol (name : String)
  /-- The end-marker declared as a symbol. -/
  | reservedSymbol (name : String)
  /-- A start symbol that is not a nonterminal. -/
  | startNotNonterminal (name : String)
  /-- No start symbol. -/
  | missingStart
  /-- A second start symbol on a line of its own. -/
  | duplicateStart
  /-- A second word after the start symbol. -/
  | extraStartSymbol (word : String)
  /-- A directive that does not exist. -/
  | unknownDirective (word : String)
deriving DecidableEq, Repr

/-- A piece of text between backquotes. -/
def quoted (s : String) : String :=
  "`" ++ s ++ "`"

/-- The sentence that describes a fault. -/
def Fault.message : Fault → String
  | missingArrow s => "production " ++ quoted s ++ " has no " ++ quoted "->"
  | emptyLhs s => "production " ++ quoted s ++ " has an empty left-hand side"
  | emptyAlternative s => "production for " ++ quoted s ++ " has an empty alternative"
  | epsilonMixed s => "alternative " ++ quoted s ++ " mixes NULL with other symbols"
  | unknownSymbol s => quoted s ++ " is neither a terminal nor a nonterminal"
  | notNonterminal s => quoted s ++ " has productions but is not a nonterminal"
  | duplicateProduction s =>
    quoted s ++ " appears twice as a left-hand side; use | to separate alternatives"
  | missingProductions s => "nonterminal " ++ quoted s ++ " has no productions"
  | duplicateSymbol s => quoted s ++ " is declared twice"
  | ambiguousSymbol s => quoted s ++ " is declared as both a terminal and a nonterminal"
  | reservedSymbol s => quoted s ++ " is reserved for the end-marker"
  | startNotNonterminal s => "start symbol " ++ quoted s ++ " is not a nonterminal"
  | missingStart => "missing start symbol"
  | duplicateStart => "start symbol is declared more than once"
  | extraStartSymbol s => "unexpected " ++ quoted s ++ " after the start symbol"
  | unknownDirective s => "unknown directive " ++ quoted s

/-- **A fault and its place.** The place is absent when the grammar does
not come from a file, and when what is wrong is that something is
absent from the file. -/
structure GrammarError where
  /-- What is wrong. -/
  fault : Fault
  /-- Where it stands in the file. -/
  span : Option Span
deriving DecidableEq, Repr

/-- The sentence that describes an error. -/
def GrammarError.message (e : GrammarError) : String :=
  e.fault.message

end GrammarAnalysis
