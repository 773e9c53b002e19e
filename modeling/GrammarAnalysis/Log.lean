import GrammarAnalysis.Precedence.Report
import GrammarAnalysis.Predictive.Parser

/-!
# The log of an analysis

An analysis can be followed in a log. Its records are facts about the
results: how many passes a solution took, which steps a parser made,
which cells of a matrix were filled, what the verdicts are. An `Event`
is one such fact; the analyses make no records themselves, their events
are read off their results.

A record is printed with its level and with the part of the program it
belongs to.
-/

namespace GrammarAnalysis

/-- **How much a record is wanted.** -/
inductive LogLevel where
  /-- Progress of the analyses. -/
  | debug
  /-- Single steps. -/
  | trace
deriving DecidableEq, Repr

/-- The name of a level. -/
def LogLevel.name : LogLevel → String
  | debug => "DEBUG"
  | trace => "TRACE"

/-- Whether records of the level `record` are shown when `shown` is
asked for: with single steps, progress is shown too. -/
def LogLevel.shows : (shown record : LogLevel) → Bool
  | debug, trace => false
  | _, _ => true

/-- **One fact about an analysis.** -/
inductive Event where
  /-- A grammar has been built. -/
  | built (g : Grammar)
  /-- A grammar file has been read. -/
  | loaded (g : Grammar)
  /-- FIRST is complete. -/
  | firstConverged (passes : Nat)
  /-- FOLLOW is complete. -/
  | followConverged (passes : Nat)
  /-- The LL(1) verdict. -/
  | lookaheadVerdict (g : Grammar) (conflict? : Option Conflict)
  /-- The parser took a step. -/
  | parsed (g : Grammar) (step : ParseStep)
  /-- The grammar has the wrong shape for precedence relations. -/
  | misshapen (fault : ShapeFault)
  /-- FIRSTVT or LASTVT is complete. -/
  | edgeConverged (edge : Edge) (passes : Nat)
  /-- An empty cell of the matrix has been filled. -/
  | filled (a : Assertion)
  /-- The matrix is complete. -/
  | related (relations : Nat)
  /-- The precedence relations contradict each other. -/
  | contradictory (c : Contradiction)
  /-- A directory has been searched. -/
  | searched (files : Nat) (path : String)

namespace Event

/-- The level of an event. -/
def level : Event → LogLevel
  | parsed _ _ | filled _ => .trace
  | _ => .debug

/-- The part of the program an event belongs to. -/
def target : Event → String
  | built _ => "grammar::grammar"
  | loaded _ | searched _ _ => "grammarscope"
  | firstConverged _ | followConverged _ => "ll::ffn"
  | lookaheadVerdict _ _ => "ll"
  | parsed _ _ => "ll::parser"
  | misshapen _ | related _ | contradictory _ => "op"
  | edgeConverged _ _ => "op::vt"
  | filled _ => "op::matrix"

/-- A count and what is counted. -/
def counted (n : Nat) (noun : String) : String :=
  toString n ++ " " ++ noun

/-- The sizes of a grammar. -/
def sizes (g : Grammar) : String :=
  ", ".intercalate [counted g.nonterminals.length "nonterminals",
    counted g.terminals.length "terminals", counted g.productions.length "productions"]

/-- The record of a parser step. -/
def stepRecord (g : Grammar) : ParseStep → String
  | .expand _ n => "expand " ++ g.productionTextAt n
  | .matched t => "match " ++ g.terminalName t
  | .accept => "accept"

/-- The record of a shape fault. -/
def shapeRecord : ShapeFault → String
  | .adjacentNonterminals n position =>
    "AdjacentNonterminals \x7b prod: " ++ toString n ++ ", pos: " ++ toString position ++ " \x7d"
  | .epsilonProduction n => "EpsilonProduction \x7b prod: " ++ toString n ++ " \x7d"

/-- A relation in a record. -/
def relationRecord : Relation → String
  | .less => "Less"
  | .equal => "Equal"
  | .greater => "Greater"

/-- A terminal in a record. -/
def terminalRecord (t : Terminal) : String :=
  "TerminalId(" ++ toString t.index ++ ")"

/-- The record of a contradiction. -/
def contradictionRecord (c : Contradiction) : String :=
  "PrecConflict \x7b left: " ++ terminalRecord c.left ++ ", right: " ++ terminalRecord c.right ++
    ", existing: " ++ relationRecord c.existing ++ ", asserted: " ++ relationRecord c.asserted ++
    ", prod: " ++ toString c.production ++ " \x7d"

/-- A number of passes in a record. -/
def passesRecord (sets : String) (passes : Nat) : String :=
  sets ++ " converged after " ++ counted passes "passes"

/-- **The message of an event.** -/
def message : Event → String
  | built g => "grammar: " ++ sizes g ++ ", start " ++ g.nonterminalName g.start
  | loaded g => "loaded grammar with " ++ sizes g
  | firstConverged passes => passesRecord "FIRST" passes
  | followConverged passes => passesRecord "FOLLOW" passes
  | lookaheadVerdict _ none => "grammar is LL(1)"
  | lookaheadVerdict g (some c) => "grammar is not LL(1): " ++ c.description g
  | parsed g step => stepRecord g step
  | misshapen fault => "not an operator-precedence grammar: " ++ shapeRecord fault
  | edgeConverged .first passes => passesRecord "FirstVT" passes
  | edgeConverged .last passes => passesRecord "LastVT" passes
  | filled a =>
    "[" ++ toString a.left.index ++ ", " ++ toString a.right.index ++ "] " ++ a.relation.sign
  | related relations => "operator-precedence grammar, " ++ counted relations "relations"
  | contradictory c => "precedence conflict: " ++ contradictionRecord c
  | searched files path => "found " ++ counted files "grammar files" ++ " under " ++ path

/-- The record of an event, as `LEVEL target: message`. -/
def record (e : Event) : String :=
  e.level.name ++ " " ++ e.target ++ ": " ++ e.message

end Event

/-! ## The events of each analysis -/

/-- The events of an LL(1) analysis. -/
def LookaheadAnalysis.events (a : LookaheadAnalysis) : List Event :=
  [.firstConverged a.first.passes, .followConverged a.follow.passes,
    .lookaheadVerdict a.grammar a.conflict?]

/-- The events of a parser run, one for every step. -/
def ParseRun.events (g : Grammar) (run : ParseRun) : List Event :=
  run.steps.map (Event.parsed g)

/-- The events of an operator-precedence analysis. -/
def PrecedenceAnalysis.events (a : PrecedenceAnalysis) : List Event :=
  match a.relations with
  | .error fault => [.misshapen fault]
  | .ok r =>
    [.edgeConverged .first r.firstVT.passes, .edgeConverged .last r.lastVT.passes] ++
      r.filling.filled.reverse.map Event.filled ++
      [match r.filling.contradiction? with
        | some c => .contradictory c
        | none => .related r.filling.matrix.count]

end GrammarAnalysis
