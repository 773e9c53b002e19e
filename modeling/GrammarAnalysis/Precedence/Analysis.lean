import GrammarAnalysis.Grammar.Fault
import GrammarAnalysis.Grammar.Printer
import GrammarAnalysis.Precedence.Assertion

/-!
# Operator-precedence grammars

A grammar is an operator-precedence grammar when it passes three tests,
each made only if the one before it is passed: no right-hand side has
two adjacent nonterminals, no production is the empty string, and the
relations that the productions assert do not contradict one another.

FIRSTVT and LASTVT exist from the third test on, and the matrix only if
all three are passed.
-/

namespace GrammarAnalysis

/-- **Why a grammar has no precedence relations at all.** -/
inductive ShapeFault where
  /-- The right-hand side of a production has nonterminals at `position`
  and after it. -/
  | adjacentNonterminals (production position : Nat)
  /-- A production is the empty string. -/
  | epsilonProduction (production : Nat)
deriving DecidableEq, Repr

/-- **The outcome of the tests.** -/
inductive PrecedenceVerdict where
  /-- All are passed. -/
  | operatorPrecedence
  /-- The grammar has the wrong shape. -/
  | misshapen (fault : ShapeFault)
  /-- Two asserted relations contradict each other. -/
  | contradictory (c : Contradiction)
deriving DecidableEq, Repr

/-- The first place with a nonterminal there and after it, counted from
`position`. -/
def adjacentFrom : Nat → List Symbol → Option Nat
  | position, .nonterminal _ :: .nonterminal _ :: _ => some position
  | position, _ :: rest => adjacentFrom (position + 1) rest
  | _, [] => none

namespace Grammar

/-- The first two adjacent nonterminals, in the order of the
productions. -/
def adjacentNonterminals? (g : Grammar) : Option ShapeFault :=
  g.productions.zipIdx.findSome? fun (p, n) =>
    (adjacentFrom 0 p.rhs).map (ShapeFault.adjacentNonterminals n)

/-- The first production of the empty string. -/
def epsilonProduction? (g : Grammar) : Option ShapeFault :=
  (g.productions.findIdx? (fun p => g.isEpsilonRhs p.rhs)).map ShapeFault.epsilonProduction

/-- **What is wrong with the shape of a grammar.** Adjacent nonterminals
are reported before productions of the empty string, wherever they
stand. -/
def shapeFault? (g : Grammar) : Option ShapeFault :=
  g.adjacentNonterminals?.orElse fun _ => g.epsilonProduction?

end Grammar

/-- What the analysis of a grammar of the right shape finds. -/
structure PrecedenceRelations where
  /-- FIRSTVT. -/
  firstVT : Solution
  /-- LASTVT. -/
  lastVT : Solution
  /-- The matrix, filled up to a contradiction. -/
  filling : Filling
deriving DecidableEq, Repr

/-- **The operator-precedence analysis of a grammar.** -/
structure PrecedenceAnalysis where
  /-- The grammar. -/
  grammar : Grammar
  /-- What is wrong with its shape, or its relations. -/
  relations : Except ShapeFault PrecedenceRelations

namespace PrecedenceAnalysis

/-- Analyses a grammar. -/
def ofGrammar (g : Grammar) : PrecedenceAnalysis :=
  match g.shapeFault? with
  | some fault => ⟨g, .error fault⟩
  | none =>
    let firstVT := g.solveEdge .first
    let lastVT := g.solveEdge .last
    ⟨g, .ok ⟨firstVT, lastVT, .ofGrammar g firstVT.table lastVT.table⟩⟩

/-- **The verdict.** -/
def verdict (a : PrecedenceAnalysis) : PrecedenceVerdict :=
  match a.relations with
  | .error fault => .misshapen fault
  | .ok r =>
    match r.filling.contradiction? with
    | some c => .contradictory c
    | none => .operatorPrecedence

/-- Whether the grammar is an operator-precedence grammar. -/
def isOperatorPrecedence (a : PrecedenceAnalysis) : Bool :=
  a.verdict = .operatorPrecedence

/-- Whether no right-hand side has adjacent nonterminals. -/
def isOperatorGrammar (a : PrecedenceAnalysis) : Bool :=
  match a.verdict with
  | .misshapen (.adjacentNonterminals _ _) => false
  | _ => true

/-- FIRSTVT of a nonterminal. -/
def firstVT? (a : PrecedenceAnalysis) (x : Nonterminal) : Option TerminalSet :=
  a.relations.toOption.map (fun r => r.firstVT.table.get x)

/-- LASTVT of a nonterminal. -/
def lastVT? (a : PrecedenceAnalysis) (x : Nonterminal) : Option TerminalSet :=
  a.relations.toOption.map (fun r => r.lastVT.table.get x)

/-- The matrix of an operator-precedence grammar. -/
def matrix? (a : PrecedenceAnalysis) : Option PrecedenceMatrix :=
  match a.relations with
  | .error _ => none
  | .ok r => if r.filling.contradiction?.isSome then none else some r.filling.matrix

end PrecedenceAnalysis

/-- The sentence that describes a shape fault. -/
def ShapeFault.description (g : Grammar) : ShapeFault → String
  | adjacentNonterminals n position =>
    let rhs := ((g.productions[n]?).map (·.rhs)).getD []
    quoted (g.productionTextAt n) ++ " has adjacent nonterminals " ++
      quoted (g.symbolsText ((rhs.drop position).take 2))
  | epsilonProduction n => quoted (g.productionTextAt n) ++ " is an epsilon production"

/-- The sentence that describes a contradiction. -/
def Contradiction.description (g : Grammar) (c : Contradiction) : String :=
  quoted (g.terminalName c.left) ++ " and " ++ quoted (g.terminalName c.right) ++
    " are both " ++ c.existing.sign ++ " and " ++ c.asserted.sign ++ ", asserted by " ++
    quoted (g.productionTextAt c.production)

/-- **The sentence that describes a verdict.** -/
def PrecedenceVerdict.description (g : Grammar) : PrecedenceVerdict → String
  | operatorPrecedence => "operator-precedence grammar"
  | misshapen fault => fault.description g
  | contradictory c => c.description g

end GrammarAnalysis
