import GrammarAnalysis.Lookahead.Report

/-!
# Parsing tables

A parsing table says which production to choose for a nonterminal and a
lookahead. It has an entry for every production and every lookahead in
the SELECT set of that production, listed in this order. When no two
SELECT sets of one nonterminal meet, no two entries are for the same
cell, and the table is a function of the cell.

A table is therefore built from an analysis without conflicts; for any
other grammar `PredictiveParser.ofAnalysis` answers with the first
conflict.
-/

namespace GrammarAnalysis

/-- One entry of a parsing table. -/
structure TableEntry where
  /-- The nonterminal to be expanded. -/
  nonterminal : Nonterminal
  /-- The lookahead. -/
  lookahead : Terminal
  /-- The number of the production to be chosen. -/
  production : Nat
deriving DecidableEq, Repr

/-- **A parsing table.** -/
structure ParsingTable where
  /-- The entries, in the order of their productions, and for one
  production in the order of the lookaheads. -/
  entries : List TableEntry
deriving DecidableEq, Repr

namespace ParsingTable

/-- The entries of one production. -/
def entriesOf (p : Production) (number : Nat) (select : TerminalSet) : List TableEntry :=
  select.toList.map (fun t => ⟨p.lhs, t, number⟩)

/-- The table of the SELECT sets of a grammar. -/
def ofSelect (g : Grammar) (select : List TerminalSet) : ParsingTable where
  entries := (g.productions.zip select).zipIdx.flatMap
    (fun ((p, s), number) => entriesOf p number s)

/-- The production for a nonterminal and a lookahead. -/
def get? (table : ParsingTable) (x : Nonterminal) (lookahead : Terminal) : Option Nat :=
  (table.entries.find? (fun e => e.nonterminal = x ∧ e.lookahead = lookahead)).map (·.production)

/-- The lines that print a table, one for every entry. -/
def lines (g : Grammar) (table : ParsingTable) : List String :=
  table.entries.map fun e =>
    "[" ++ g.nonterminalName e.nonterminal ++ ", " ++ g.terminalName e.lookahead ++ "] " ++
      g.productionTextAt e.production

end ParsingTable

/-- **Why a grammar has no predictive parser**: its first conflict. -/
structure NotLL1 where
  /-- The conflict. -/
  conflict : Conflict
  /-- The text that describes it. -/
  description : String
deriving DecidableEq, Repr

/-- The sentence that reports a grammar without a predictive parser. -/
def NotLL1.message (e : NotLL1) : String :=
  "grammar is not LL(1): " ++ e.description

/-- **A predictive parser**: a grammar and its parsing table. -/
structure PredictiveParser where
  /-- The grammar. -/
  grammar : Grammar
  /-- The table. -/
  table : ParsingTable
deriving DecidableEq, Repr

/-- The predictive parser of an analysed grammar, if it is LL(1). -/
def PredictiveParser.ofAnalysis (a : LookaheadAnalysis) : Except NotLL1 PredictiveParser :=
  match a.conflict? with
  | some c => .error ⟨c, c.description a.grammar⟩
  | none => .ok ⟨a.grammar, .ofSelect a.grammar a.select⟩

end GrammarAnalysis
