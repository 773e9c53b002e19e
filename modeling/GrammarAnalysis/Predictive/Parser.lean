import GrammarAnalysis.Predictive.Table

/-!
# Predictive parsing

A predictive parser reads a list of terminal names that ends with the
end-marker, and keeps a stack of symbols that are still expected; below
the stack stands the end-marker. For every name it reads, the stack is
*descended*: nonterminals on top of it are replaced by the symbols of
the production that the table gives for the lookahead, until a terminal
is on top or the stack is empty. The terminal must be the one read; an
empty stack expects the end-marker.

## Depth

One lookahead decides all expansions of a descent. If the expansion of a
nonterminal, before anything is read, leads to the same nonterminal as
the leftmost symbol left, it leads there for ever. So expansions that
end nest no deeper than there are nonterminals, and the descent is
structurally recursive in that depth. The parser of an arbitrary table
may run out of it, which is the fault `endlessExpansion`; the table of
an LL(1) grammar never brings this about.

## Positions

An error is reported at the number of input symbols before the offending
one, and at the length of the input when it ends too early.
-/

namespace GrammarAnalysis

/-- **One step of a predictive parser.** -/
inductive ParseStep where
  /-- The nonterminal on top of the stack was replaced by a production,
  given by its number. -/
  | expand (x : Nonterminal) (production : Nat)
  /-- The terminal on top of the stack was read. -/
  | matched (t : Terminal)
  /-- The end-marker was read and nothing was left on the stack. -/
  | accept
deriving DecidableEq, Repr

/-- **Why an input is not accepted.** -/
inductive ParseFault where
  /-- Another terminal is expected. -/
  | mismatch (expected found : String)
  /-- The table has no production for the nonterminal on top of the
  stack. -/
  | noProduction (nonterminal lookahead : String)
  /-- The input symbol is no terminal of the grammar. -/
  | unknownSymbol (name : String)
  /-- The input ended before the end-marker. -/
  | unexpectedEnd
  /-- There is more input after the end-marker. -/
  | trailingInput (name : String)
  /-- The table expands the nonterminal without end. -/
  | endlessExpansion (nonterminal lookahead : String)
deriving DecidableEq, Repr

/-- The phrase that describes a fault. -/
def ParseFault.message : ParseFault → String
  | mismatch expected found => "expected " ++ quoted expected ++ ", found " ++ quoted found
  | noProduction x lookahead => "no production for " ++ quoted x ++ " on " ++ quoted lookahead
  | unknownSymbol name => quoted name ++ " is not a terminal of the grammar"
  | unexpectedEnd => "input ended before the end-marker"
  | trailingInput name => "unexpected " ++ quoted name ++ " after the end-marker"
  | endlessExpansion x lookahead =>
    "endless expansion of " ++ quoted x ++ " on " ++ quoted lookahead

/-- **A fault and its position in the input.** -/
structure ParseError where
  /-- What is wrong. -/
  fault : ParseFault
  /-- The number of input symbols before the offending one. -/
  position : Nat
deriving DecidableEq, Repr

/-- The sentence that describes an error. -/
def ParseError.message (e : ParseError) : String :=
  e.fault.message ++ " at input position " ++ toString e.position

/-- **How a run of the parser went**: the steps it took, and the error
that ended it unless it accepted. -/
structure ParseRun where
  /-- The steps, also those before an error. -/
  steps : List ParseStep
  /-- The error. -/
  error? : Option ParseError
deriving DecidableEq, Repr

namespace ParseRun

/-- A run that fails before it takes a step. -/
def failed (fault : ParseFault) (position : Nat) : ParseRun :=
  ⟨[], some ⟨fault, position⟩⟩

/-- A run with steps before it. -/
def after (run : ParseRun) (steps : List ParseStep) : ParseRun :=
  { run with steps := steps ++ run.steps }

/-- The steps of a run that accepted. -/
def result (run : ParseRun) : Except ParseError (List ParseStep) :=
  match run.error? with
  | none => .ok run.steps
  | some e => .error e

end ParseRun

/-- **Where a descent ends.** -/
inductive Descent where
  /-- All symbols have been replaced by nothing. -/
  | vanished
  /-- A terminal is on top, with `rest` below it. -/
  | reached (t : Terminal) (rest : List Symbol)
  /-- The table has no production for `x`. -/
  | blocked (x : Nonterminal)
  /-- The expansion of `x` does not end. -/
  | endless (x : Nonterminal)
deriving DecidableEq, Repr

namespace PredictiveParser

/-- The terminal that an input symbol names. The name of the epsilon
terminal is no input symbol. -/
def lookahead? (p : PredictiveParser) (name : String) : Option Terminal :=
  if name = endMarkerName then some p.grammar.endMarker
  else (p.grammar.terminal? name).filter (· ≠ p.grammar.epsilon)

/-- The symbols that a production puts on the stack. -/
def expansionAt (p : PredictiveParser) (production : Nat) : List Symbol :=
  ((p.grammar.productions[production]?).map (fun q => p.grammar.expansion q.rhs)).getD []

/-- Descends a stack, given how a nonterminal on top is expanded. What
the expansion leaves lies above the rest of the stack. -/
def descendBy (expand : Nonterminal → List ParseStep × Descent) :
    List Symbol → List ParseStep × Descent
  | [] => ([], .vanished)
  | .terminal t :: rest => ([], .reached t rest)
  | .nonterminal x :: rest =>
    match expand x with
    | (steps, .vanished) =>
      let (more, d) := descendBy expand rest
      (steps ++ more, d)
    | (steps, .reached t left) => (steps, .reached t (left ++ rest))
    | (steps, .blocked y) => (steps, .blocked y)
    | (steps, .endless y) => (steps, .endless y)

/-- Expands a nonterminal under a lookahead, and descends what it is
replaced by. -/
def expand (p : PredictiveParser) (lookahead : Terminal) :
    Nat → Nonterminal → List ParseStep × Descent
  | 0, x => ([], .endless x)
  | depth + 1, x =>
    match p.table.get? x lookahead with
    | none => ([], .blocked x)
    | some n =>
      let (steps, d) := descendBy (p.expand lookahead depth) (p.expansionAt n)
      (.expand x n :: steps, d)

/-- **Descends a stack under a lookahead.** -/
def descend (p : PredictiveParser) (lookahead : Terminal) :
    List Symbol → List ParseStep × Descent :=
  descendBy (p.expand lookahead p.grammar.nonterminals.length)

/-- Reads the end-marker at `position` with nothing left on the stack:
the input must end there. -/
def finish (position : Nat) : List String → ParseRun
  | [] => ⟨[.accept], none⟩
  | extra :: _ => .failed (.trailingInput extra) (position + 1)

/-- Runs the parser from `position` in the input, with a given stack on
the rest of the input. -/
def runFrom (p : PredictiveParser) : Nat → List Symbol → List String → ParseRun
  | position, _, [] => .failed .unexpectedEnd position
  | position, stack, name :: rest =>
    match p.lookahead? name with
    | none => .failed (.unknownSymbol name) position
    | some c =>
      let found := p.grammar.terminalName c
      let (steps, d) := p.descend c stack
      let next : ParseRun := match d with
        | .vanished =>
          if c = p.grammar.endMarker then finish position rest
          else .failed (.mismatch endMarkerName found) position
        | .reached t left =>
          if t = c then (p.runFrom (position + 1) left rest).after [.matched t]
          else .failed (.mismatch (p.grammar.terminalName t) found) position
        | .blocked x => .failed (.noProduction (p.grammar.nonterminalName x) found) position
        | .endless x => .failed (.endlessExpansion (p.grammar.nonterminalName x) found) position
      next.after steps

/-- **Runs the parser** on an input, from a stack that holds the start
symbol. -/
def run (p : PredictiveParser) (input : List String) : ParseRun :=
  p.runFrom 0 [.nonterminal p.grammar.start] input

/-- **Parses an input**: the steps that accept it, or the error. -/
def parse (p : PredictiveParser) (input : List String) : Except ParseError (List ParseStep) :=
  (p.run input).result

end PredictiveParser

/-- The line that prints a step. -/
def ParseStep.line (g : Grammar) : ParseStep → String
  | expand _ n => "expand " ++ g.productionTextAt n
  | matched t => "match  " ++ g.terminalName t
  | accept => "accept"

/-- The text of the steps of a parse, one line for every step. -/
def stepsText (g : Grammar) (steps : List ParseStep) : String :=
  unlines (steps.map (ParseStep.line g))

end GrammarAnalysis
