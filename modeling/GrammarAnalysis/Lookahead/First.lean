import GrammarAnalysis.Grammar.Basic
import GrammarAnalysis.SetSystem

/-!
# FIRST sets

FIRST of a string of symbols holds the terminals with which a string
derived from it can begin, and the epsilon terminal if the empty string
can be derived. FIRST of a nonterminal includes FIRST of each of its
right-hand sides, which makes the sets the least solution of a
`SetSystem`.

A right-hand side is read from the left: a nonterminal contributes what
it holds apart from epsilon, and the symbols after it matter only if
epsilon is in its set. A last nonterminal contributes epsilon too.
-/

namespace GrammarAnalysis

/-- What a right-hand side contributes to FIRST of its nonterminal. -/
def firstContribution : List Symbol → Contribution
  | [] => .known ∅
  | .terminal t :: _ => .known (.single t)
  | [.nonterminal x] => .inherit x
  | .nonterminal x :: rest => .through x (firstContribution rest)

namespace Grammar

/-- The inclusions that define FIRST. -/
def firstSystem (g : Grammar) : SetSystem where
  contributions := g.allNonterminals.map (fun x => (g.alternatives x).map firstContribution)
  marker := g.epsilon
  alphabet := g.terminals.length + 1

/-- **FIRST of every nonterminal.** -/
def solveFirst (g : Grammar) : Solution :=
  g.firstSystem.solve (SetTable.blank g.nonterminals.length)

end Grammar

/-- **FIRST of a string of symbols**, from FIRST of the nonterminals. It
holds epsilon only if every symbol can derive the empty string. -/
def firstOf (epsilon : Terminal) (first : SetTable) : List Symbol → TerminalSet
  | [] => .single epsilon
  | .terminal t :: _ => .single t
  | .nonterminal x :: rest =>
    let set := first.get x
    if epsilon ∈ set then set.erase epsilon ∪ firstOf epsilon first rest else set

/-- FIRST of one symbol: of a terminal, the terminal itself. -/
def firstOfSymbol (first : SetTable) : Symbol → TerminalSet
  | .terminal t => .single t
  | .nonterminal x => first.get x

end GrammarAnalysis
