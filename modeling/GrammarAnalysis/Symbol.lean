/-!
# Symbols

A grammar numbers its nonterminals and its terminals in the order in
which they are declared, each from zero. The analyses work with the
numbers; names come back only when a result is printed.

Three spellings are fixed. `NULL` is the terminal that stands for the
empty string, `#` is the end-marker, which ends every parser input and
is no symbol of any grammar, and a prime belongs to the character before
it, so that `E'` is one symbol.
-/

namespace GrammarAnalysis

/-- **A nonterminal**, by its place in the declaration order. -/
structure Nonterminal where
  /-- The number of nonterminals declared before it. -/
  index : Nat
deriving DecidableEq, Repr

/-- **A terminal**, by its place in the declaration order. The number
after the last declared terminal is the end-marker. -/
structure Terminal where
  /-- The number of terminals declared before it. -/
  index : Nat
deriving DecidableEq, Repr

/-- A symbol of a right-hand side. -/
inductive Symbol where
  | nonterminal (x : Nonterminal)
  | terminal (t : Terminal)
deriving DecidableEq, Repr

/-- The name of the terminal that stands for the empty string. -/
def epsilonName : String := "NULL"

/-- The name of the end-marker. -/
def endMarkerName : String := "#"

/-- The character that is part of the symbol before it. -/
def primeMark : Char := '\''

end GrammarAnalysis
