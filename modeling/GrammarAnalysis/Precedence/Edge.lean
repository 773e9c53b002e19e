import GrammarAnalysis.Grammar.Basic
import GrammarAnalysis.SetSystem

/-!
# FIRSTVT and LASTVT sets

FIRSTVT of a nonterminal holds the terminals that can be the first
terminal of what it derives, whether or not a nonterminal stands before
them; LASTVT holds the last ones. Only operator grammars have these
sets: no right-hand side has two adjacent nonterminals, and none is the
empty string. The first terminal of a right-hand side is then its first
or its second symbol, unless it is a single nonterminal, whose set is
inherited.

LASTVT looks at the last symbol and the one before it, where FIRSTVT looks
at the first two. What a right-hand side contributes at its right end is
what it contributes when it is read from there (`Edge.contribution_eq`).
-/

namespace GrammarAnalysis

/-- **An end of a string.** -/
inductive Edge where
  /-- The left end, where FIRSTVT looks. -/
  | first
  /-- The right end, where LASTVT looks. -/
  | last
deriving DecidableEq, Repr

/-- The symbol at a place of a string, counted from one of its ends. -/
def Edge.symbolAt : Edge → List Symbol → Nat → Option Symbol
  | first, u, i => u[i]?
  | last, u, i => if i < u.length then u[u.length - 1 - i]? else none

/-- What the outermost symbol and its neighbour, if there are such symbols,
contribute to the set of a nonterminal. Two adjacent nonterminals contribute
nothing. -/
def outerContribution : Option Symbol → Option Symbol → Contribution
  | some (.terminal t), _ => .known (.single t)
  | some (.nonterminal _), some (.terminal t) => .known (.single t)
  | some (.nonterminal x), none => .inherit x
  | _, _ => .known ∅

/-- **What a right-hand side contributes** at one of its ends. -/
def Edge.contribution (edge : Edge) (rhs : List Symbol) : Contribution :=
  outerContribution (edge.symbolAt rhs 0) (edge.symbolAt rhs 1)

/-! ## Reading from an end -/

/-- A string read from one of its ends. -/
def Edge.read {α : Type} : Edge → List α → List α
  | first, symbols => symbols
  | last, symbols => symbols.reverse

/-- What a string that is read from the left contributes. -/
def edgeContribution : List Symbol → Contribution
  | .terminal t :: _ => .known (.single t)
  | .nonterminal _ :: .terminal t :: _ => .known (.single t)
  | [.nonterminal x] => .inherit x
  | _ => .known ∅

/-- Places are counted from the end where reading begins. -/
theorem Edge.symbolAt_eq (edge : Edge) (u : List Symbol) (i : Nat) :
    edge.symbolAt u i = (edge.read u)[i]? := by
  cases edge with
  | first => rfl
  | last =>
    rw [symbolAt, read]
    split
    · next hi => exact (List.getElem?_reverse hi).symm
    · next hi => exact (List.getElem?_eq_none (by simpa using hi)).symm

/-- **The symbols that decide** are the first two that are read: at the left
end the first and the second symbol, at the right end the last and the one
before it. -/
theorem Edge.contribution_eq (edge : Edge) (u : List Symbol) :
    edge.contribution u = edgeContribution (edge.read u) := by
  rw [contribution, symbolAt_eq, symbolAt_eq]
  match edge.read u with
  | [] => rfl
  | .terminal t :: v => rfl
  | [.nonterminal x] => rfl
  | .nonterminal x :: .terminal t :: v => rfl
  | .nonterminal x :: .nonterminal y :: v => rfl

namespace Grammar

/-- The inclusions that define FIRSTVT or LASTVT. -/
def edgeSystem (g : Grammar) (edge : Edge) : SetSystem where
  contributions := g.allNonterminals.map fun x =>
    (g.alternatives x).map edge.contribution
  marker := g.epsilon
  alphabet := g.terminals.length

/-- **FIRSTVT or LASTVT of every nonterminal.** -/
def solveEdge (g : Grammar) (edge : Edge) : Solution :=
  (g.edgeSystem edge).solve (SetTable.blank g.nonterminals.length)

end Grammar

end GrammarAnalysis
