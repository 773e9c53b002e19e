import GrammarAnalysis.Precedence.Edge
import GrammarAnalysis.Precedence.Matrix

/-!
# Asserted relations

The productions of an operator grammar assert precedence relations. Take
a terminal `t` of a right-hand side. After a nonterminal `N`, every
terminal in LASTVT of `N` is greater than `t`. Before a nonterminal `N`,
`t` is less than every terminal in FIRSTVT of `N`. And `t` is equal to
the next terminal, if at most one nonterminal stands between them.

`assertions` lists all of them, in the order of the productions, then of
the terminals in the right-hand side, and for one terminal in the order
just given. Filling a matrix with them ends at the first assertion that
contradicts an earlier one.
-/

namespace GrammarAnalysis

/-- **An asserted relation.** -/
structure Assertion where
  /-- The left terminal. -/
  left : Terminal
  /-- The relation. -/
  relation : Relation
  /-- The right terminal. -/
  right : Terminal
  /-- The number of the production that asserts it. -/
  production : Nat
deriving DecidableEq, Repr

/-- A cell for which two different relations are asserted. -/
structure Contradiction where
  /-- The left terminal. -/
  left : Terminal
  /-- The right terminal. -/
  right : Terminal
  /-- The relation asserted first. -/
  existing : Relation
  /-- The other relation. -/
  asserted : Relation
  /-- The number of the production that asserts the other relation. -/
  production : Nat
deriving DecidableEq, Repr

namespace Assertion

/-- What the symbol before a terminal asserts. -/
def before (lastVT : SetTable) (n : Nat) (t : Terminal) : Option Symbol → List Assertion
  | some (.nonterminal x) => (lastVT.get x).toList.map (fun a => ⟨a, .greater, t, n⟩)
  | _ => []

/-- What the symbols after a terminal assert. -/
def after (firstVT : SetTable) (n : Nat) (t : Terminal) : List Symbol → List Assertion
  | .terminal b :: _ => [⟨t, .equal, b, n⟩]
  | .nonterminal x :: .terminal b :: _ =>
    (firstVT.get x).toList.map (fun a => ⟨t, .less, a, n⟩) ++ [⟨t, .equal, b, n⟩]
  | .nonterminal x :: _ => (firstVT.get x).toList.map (fun a => ⟨t, .less, a, n⟩)
  | [] => []

/-- What a right-hand side asserts, from a place on whose preceding
symbol is given. -/
def ofSymbols (firstVT lastVT : SetTable) (n : Nat) :
    Option Symbol → List Symbol → List Assertion
  | _, [] => []
  | _, .nonterminal x :: rest => ofSymbols firstVT lastVT n (some (.nonterminal x)) rest
  | previous, .terminal t :: rest =>
    before lastVT n t previous ++ after firstVT n t rest ++
      ofSymbols firstVT lastVT n (some (.terminal t)) rest

/-- **All assertions of a grammar.** -/
def all (g : Grammar) (firstVT lastVT : SetTable) : List Assertion :=
  g.productions.zipIdx.flatMap fun (p, n) => ofSymbols firstVT lastVT n none p.rhs

end Assertion

/-- **A matrix being filled.** -/
structure Filling where
  /-- The matrix. -/
  matrix : PrecedenceMatrix
  /-- The assertions that filled an empty cell, the latest one first. -/
  filled : List Assertion
  /-- The contradiction that ended the filling. -/
  contradiction? : Option Contradiction
deriving DecidableEq, Repr

namespace Filling

/-- Adds an assertion. One about a terminal without a row is passed
over, and so is one that is already there. -/
def add (f : Filling) (a : Assertion) : Filling :=
  if f.matrix.covers a.left && f.matrix.covers a.right then
    match f.matrix.get? a.left a.right with
    | none =>
      { f with matrix := f.matrix.set a.left a.right a.relation, filled := a :: f.filled }
    | some existing =>
      if existing = a.relation then f
      else
        { f with
          contradiction? := some ⟨a.left, a.right, existing, a.relation, a.production⟩ }
  else f

/-- Adds assertions up to the first contradiction. -/
def addAll (f : Filling) : List Assertion → Filling
  | [] => f
  | a :: rest =>
    let next := f.add a
    if next.contradiction?.isSome then next else next.addAll rest

/-- **The filling by all assertions of a grammar.** -/
def ofGrammar (g : Grammar) (firstVT lastVT : SetTable) : Filling :=
  addAll ⟨.blank g, [], none⟩ (Assertion.all g firstVT lastVT)

end Filling

end GrammarAnalysis
