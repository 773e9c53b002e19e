import GrammarAnalysis.Lookahead.First

/-!
# FOLLOW sets

FOLLOW of a nonterminal holds the terminals that can stand directly
after it. Every occurrence of the nonterminal in a right-hand side
contributes FIRST of the symbols after it, without epsilon; and where
those symbols can derive the empty string, whatever follows the
left-hand side follows the occurrence as well. The end-marker follows
the start symbol.

FIRST is complete when this system is set up, so the contributions of
the symbols after an occurrence are fixed sets.
-/

namespace GrammarAnalysis

/-- The strings of symbols that stand after the occurrences of `x`, one
for every occurrence. -/
def tailsAfter (x : Nonterminal) : List Symbol → List (List Symbol)
  | [] => []
  | y :: rest => if y = .nonterminal x then rest :: tailsAfter x rest else tailsAfter x rest

/-- What an occurrence contributes to FOLLOW, when it stands in a
right-hand side of `lhs` before the symbols `tail`. -/
def followContributions (epsilon : Terminal) (first : SetTable) (lhs : Nonterminal)
    (tail : List Symbol) : List Contribution :=
  let set := firstOf epsilon first tail
  if epsilon ∈ set then [.known (set.erase epsilon), .inherit lhs] else [.known set]

namespace Grammar

/-- The inclusions that define FOLLOW. -/
def followSystem (g : Grammar) (first : SetTable) : SetSystem where
  contributions := g.allNonterminals.map fun x =>
    g.productions.flatMap fun p =>
      (tailsAfter x p.rhs).flatMap (followContributions g.epsilon first p.lhs)
  marker := g.epsilon
  alphabet := g.terminals.length + 1

/-- The sets before the first pass: the end-marker follows the start
symbol. -/
def followStart (g : Grammar) : SetTable :=
  (SetTable.blank g.nonterminals.length).set g.start (.single g.endMarker)

/-- **FOLLOW of every nonterminal**, from FIRST. -/
def solveFollow (g : Grammar) (first : SetTable) : Solution :=
  (g.followSystem first).solve g.followStart

end Grammar

end GrammarAnalysis
