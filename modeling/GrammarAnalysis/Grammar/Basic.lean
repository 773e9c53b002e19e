import GrammarAnalysis.Symbol

/-!
# Context-free grammars

A grammar is two lists of names, a start symbol and a list of rules. A
`Rule` gathers all alternatives of one nonterminal; rules stand in the
order in which they were written, which need not be the order in which
the nonterminals are declared.

A *production* is one alternative of one rule. Productions are numbered
through, rule after rule, and it is by this number that reports, tables
and conflicts refer to them. The alternatives of a nonterminal are
therefore a range of production numbers (`Grammar.productionRange`).

The empty string is written as a terminal of its own, `epsilonName`,
which every grammar declares: a production of the empty string has that
terminal as its only symbol. The end-marker is not declared; its number
is the first one after the declared terminals.
-/

namespace GrammarAnalysis

/-- **The alternatives of one nonterminal.** -/
structure Rule where
  /-- The nonterminal. -/
  lhs : Nonterminal
  /-- Its right-hand sides, in the order written. -/
  alternatives : List (List Symbol)
deriving DecidableEq, Repr

/-- One alternative of one nonterminal. -/
structure Production where
  /-- The nonterminal. -/
  lhs : Nonterminal
  /-- The right-hand side; an empty string is the epsilon terminal. -/
  rhs : List Symbol
deriving DecidableEq, Repr

/-- The production numbers from `start` up to and without `stop`. -/
structure ProductionRange where
  /-- The first number. -/
  start : Nat
  /-- The number after the last. -/
  stop : Nat
deriving DecidableEq, Repr

/-- **A context-free grammar.** -/
structure Grammar where
  /-- The names of the nonterminals, in declaration order. -/
  nonterminals : List String
  /-- The names of the terminals, in declaration order, the epsilon
  terminal among them. -/
  terminals : List String
  /-- The start symbol. -/
  start : Nonterminal
  /-- The rules, in the order written. -/
  rules : List Rule
deriving DecidableEq, Repr

namespace Rule

/-- The productions of a rule. -/
def productions (r : Rule) : List Production :=
  r.alternatives.map (Production.mk r.lhs)

end Rule

namespace Grammar

/-! ## Symbols and names -/

/-- The terminal that stands for the empty string. -/
def epsilon (g : Grammar) : Terminal :=
  ⟨g.terminals.idxOf epsilonName⟩

/-- The end-marker: the number after the last declared terminal. -/
def endMarker (g : Grammar) : Terminal :=
  ⟨g.terminals.length⟩

/-- All nonterminals, in declaration order. -/
def allNonterminals (g : Grammar) : List Nonterminal :=
  (List.range g.nonterminals.length).map Nonterminal.mk

/-- The nonterminal of a name. -/
def nonterminal? (g : Grammar) (name : String) : Option Nonterminal :=
  (g.nonterminals.idxOf? name).map Nonterminal.mk

/-- The declared terminal of a name. -/
def terminal? (g : Grammar) (name : String) : Option Terminal :=
  (g.terminals.idxOf? name).map Terminal.mk

/-- The declared symbol of a name, a nonterminal before a terminal. -/
def symbol? (g : Grammar) (name : String) : Option Symbol :=
  match g.nonterminal? name with
  | some x => some (.nonterminal x)
  | none => (g.terminal? name).map Symbol.terminal

/-- The name of a nonterminal. -/
def nonterminalName (g : Grammar) (x : Nonterminal) : String :=
  (g.nonterminals[x.index]?).getD ""

/-- The name of a terminal, the end-marker included. -/
def terminalName (g : Grammar) (t : Terminal) : String :=
  if t = g.endMarker then endMarkerName else (g.terminals[t.index]?).getD ""

/-- The name of a symbol. -/
def symbolName (g : Grammar) : Symbol → String
  | .nonterminal x => g.nonterminalName x
  | .terminal t => g.terminalName t

/-! ## Productions -/

/-- **The productions**, numbered by their place in this list. -/
def productions (g : Grammar) : List Production :=
  g.rules.flatMap Rule.productions

/-- The right-hand sides of a nonterminal. -/
def alternatives (g : Grammar) (x : Nonterminal) : List (List Symbol) :=
  ((g.rules.find? (fun r => r.lhs = x)).map Rule.alternatives).getD []

/-- The production numbers of a nonterminal among rules whose first
production has the number `first`. -/
def rangeFrom (x : Nonterminal) : Nat → List Rule → ProductionRange
  | first, [] => ⟨first, first⟩
  | first, r :: rules =>
    let next := first + r.alternatives.length
    if r.lhs = x then ⟨first, next⟩ else rangeFrom x next rules

/-- **The production numbers of a nonterminal.** -/
def productionRange (g : Grammar) (x : Nonterminal) : ProductionRange :=
  rangeFrom x 0 g.rules

/-- Whether a right-hand side is the empty string. -/
def isEpsilonRhs (g : Grammar) (rhs : List Symbol) : Bool :=
  rhs == [.terminal g.epsilon]

/-- The symbols a production puts in the place of its nonterminal: its
right-hand side, and none if that is the empty string. -/
def expansion (g : Grammar) (rhs : List Symbol) : List Symbol :=
  if g.isEpsilonRhs rhs then [] else rhs

end Grammar

end GrammarAnalysis
