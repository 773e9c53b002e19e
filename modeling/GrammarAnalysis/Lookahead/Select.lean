import GrammarAnalysis.Lookahead.Follow

/-!
# SELECT sets and conflicts

SELECT of a production holds the lookaheads on which a predictive parser
may choose it: FIRST of its right-hand side, and, if that can derive the
empty string, FOLLOW of its nonterminal. It never holds epsilon.

Two productions of one nonterminal whose SELECT sets meet are a
`Conflict`. A grammar without conflicts is LL(1).
-/

namespace GrammarAnalysis

/-- **SELECT of a production**, from FIRST and FOLLOW. -/
def selectOf (epsilon : Terminal) (first follow : SetTable) (p : Production) : TerminalSet :=
  let set := firstOf epsilon first p.rhs
  if epsilon ∈ set then set.erase epsilon ∪ follow.get p.lhs else set

/-- **Two productions that share lookaheads.** -/
structure Conflict where
  /-- The nonterminal of both productions. -/
  nonterminal : Nonterminal
  /-- The number of the earlier production. -/
  earlier : Nat
  /-- The number of the later production. -/
  later : Nat
  /-- The lookaheads that select both, in ascending order. -/
  lookaheads : List Terminal
deriving DecidableEq, Repr

/-- All pairs of elements at different places, in the order of the
first, then of the second. -/
def pairs {α : Type} : List α → List (α × α)
  | [] => []
  | a :: rest => rest.map (fun b => (a, b)) ++ pairs rest

namespace Conflict

/-- The conflict of two productions, if their sets meet. -/
def between? (x : Nonterminal) (a b : TerminalSet × Nat) : Option Conflict :=
  let shared := (a.1 ∩ b.1).toList
  if shared = [] then none else some ⟨x, a.2, b.2, shared⟩

/-- **All conflicts**, from the SELECT sets of the productions:
nonterminal by nonterminal, and for each in the order of the earlier,
then of the later production. -/
def all (g : Grammar) (select : List TerminalSet) : List Conflict :=
  g.allNonterminals.flatMap fun x =>
    let range := g.productionRange x
    (pairs ((select.zipIdx.take range.stop).drop range.start)).filterMap
      fun (a, b) => between? x a b

end Conflict

/-- **The LL(1) analysis of a grammar.** -/
structure LookaheadAnalysis where
  /-- The grammar. -/
  grammar : Grammar
  /-- FIRST. -/
  first : Solution
  /-- FOLLOW. -/
  follow : Solution
  /-- SELECT of every production, by production number. -/
  select : List TerminalSet
  /-- All conflicts. -/
  conflicts : List Conflict
deriving Repr

namespace LookaheadAnalysis

/-- Analyses a grammar. -/
def ofGrammar (g : Grammar) : LookaheadAnalysis :=
  let first := g.solveFirst
  let follow := g.solveFollow first.table
  let select := g.productions.map (selectOf g.epsilon first.table follow.table)
  ⟨g, first, follow, select, Conflict.all g select⟩

/-- FIRST of a nonterminal. -/
def firstOf (a : LookaheadAnalysis) (x : Nonterminal) : TerminalSet :=
  a.first.table.get x

/-- FOLLOW of a nonterminal. -/
def followOf (a : LookaheadAnalysis) (x : Nonterminal) : TerminalSet :=
  a.follow.table.get x

/-- Whether a nonterminal derives the empty string. -/
def nullable (a : LookaheadAnalysis) (x : Nonterminal) : Bool :=
  a.grammar.epsilon ∈ a.firstOf x

/-- The first conflict. -/
def conflict? (a : LookaheadAnalysis) : Option Conflict :=
  a.conflicts.head?

/-- **Whether the grammar is LL(1).** -/
def isLL1 (a : LookaheadAnalysis) : Bool :=
  a.conflict?.isNone

end LookaheadAnalysis

end GrammarAnalysis
