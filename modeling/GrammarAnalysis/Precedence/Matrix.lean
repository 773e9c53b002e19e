import GrammarAnalysis.Grammar.Basic

/-!
# Precedence relations and matrices

Between two terminals that are neighbours in a sentential form, apart
from at most one nonterminal, there is one of three relations: the left
one yields to the right one, both belong to the same handle, or the left
one takes precedence. A matrix holds at most one relation for every
ordered pair of terminals. The epsilon terminal and the end-marker have
no row and no column.
-/

namespace GrammarAnalysis

/-- **A precedence relation** between a left and a right terminal. -/
inductive Relation where
  /-- The handle begins at the right terminal. -/
  | less
  /-- Both terminals belong to one handle. -/
  | equal
  /-- The handle ends at the left terminal. -/
  | greater
deriving DecidableEq, Repr

/-- The sign of a relation. -/
def Relation.sign : Relation → String
  | less => "<"
  | equal => "="
  | greater => ">"

/-- **A square of cells**, one for every ordered pair of declared
terminals. -/
structure PrecedenceMatrix where
  /-- The number of declared terminals. -/
  size : Nat
  /-- The epsilon terminal, whose row and column stay empty. -/
  epsilon : Terminal
  /-- The cells, row by row. -/
  cells : Array (Option Relation)
deriving DecidableEq, Repr

namespace PrecedenceMatrix

/-- The matrix without relations. -/
def blank (g : Grammar) : PrecedenceMatrix where
  size := g.terminals.length
  epsilon := g.epsilon
  cells := Array.replicate (g.terminals.length * g.terminals.length) none

/-- Whether a terminal has a row and a column. -/
def covers (m : PrecedenceMatrix) (t : Terminal) : Bool :=
  t.index < m.size && t != m.epsilon

/-- The place of a cell in `cells`. -/
def place (m : PrecedenceMatrix) (left right : Terminal) : Nat :=
  left.index * m.size + right.index

/-- **The relation of two terminals**, if there is one. -/
def get? (m : PrecedenceMatrix) (left right : Terminal) : Option Relation :=
  if m.covers left && m.covers right then (m.cells[m.place left right]?).getD none else none

/-- The matrix with a relation put into one cell. -/
def set (m : PrecedenceMatrix) (left right : Terminal) (rel : Relation) : PrecedenceMatrix :=
  { m with cells := m.cells.setIfInBounds (m.place left right) (some rel) }

/-- The terminals with a row and a column, in the order of their
numbers. -/
def terminals (m : PrecedenceMatrix) : List Terminal :=
  ((List.range m.size).map Terminal.mk).filter (· ≠ m.epsilon)

/-- **The relations**, row by row. -/
def toList (m : PrecedenceMatrix) : List (Terminal × Relation × Terminal) :=
  m.terminals.flatMap fun l =>
    m.terminals.filterMap fun r => (m.get? l r).map (fun rel => (l, rel, r))

/-- The number of cells that hold a relation. -/
def count (m : PrecedenceMatrix) : Nat :=
  m.cells.countP Option.isSome

end PrecedenceMatrix

end GrammarAnalysis
