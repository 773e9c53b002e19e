import GrammarAnalysis.Log

/-!
# Questions about a grammar

Single results of the analyses can be asked for by the names of symbols.
Where a symbol or a terminal is expected, the name of the end-marker
stands for it, although it is not declared. A name that is not declared
is answered with that name; of several, with the first.
-/

namespace GrammarAnalysis

/-- **A question about a grammar.** -/
inductive Query where
  /-- The declared symbol of a name. -/
  | symbol (name : String)
  /-- The nonterminal of a name. -/
  | nonterminal (name : String)
  /-- The declared terminal of a name. -/
  | terminal (name : String)
  /-- Whether a symbol is the epsilon terminal. -/
  | isEpsilon (symbol : String)
  /-- The right-hand sides of a nonterminal. -/
  | alternatives (nonterminal : String)
  /-- The text of a string of symbols. -/
  | text (symbols : List String)
  /-- FIRST of a string of symbols. -/
  | firstOfString (symbols : List String)
  /-- FIRST of a symbol. -/
  | first (symbol : String)
  /-- Whether a nonterminal derives the empty string. -/
  | nullable (nonterminal : String)
  /-- FOLLOW of a nonterminal. -/
  | follow (nonterminal : String)
  /-- FIRSTVT or LASTVT of a nonterminal. -/
  | edge (edge : Edge) (nonterminal : String)
  /-- The production in the parsing table. -/
  | table (nonterminal terminal : String)
  /-- The precedence relation of two terminals. -/
  | relation (left right : String)
deriving DecidableEq, Repr

/-- **The answer to a question.** -/
inductive Answer where
  /-- A symbol. -/
  | symbol (x? : Option Symbol)
  /-- A nonterminal. -/
  | nonterminal (x? : Option Nonterminal)
  /-- A terminal. -/
  | terminal (t? : Option Terminal)
  /-- Yes or no. -/
  | truth (b : Bool)
  /-- Texts. -/
  | texts (l : List String)
  /-- A text. -/
  | text (s : String)
  /-- The names of the members of a set, if there is a set. -/
  | set (names? : Option (List String))
  /-- A production number. -/
  | production (n? : Option Nat)
  /-- A relation. -/
  | relation (rel? : Option Relation)
  /-- A name is not declared. -/
  | unknownName (name : String)
  /-- There is no parsing table. -/
  | notLL1 (e : NotLL1)
  /-- There is no matrix, for the reason given. -/
  | noMatrix (reason : String)
deriving DecidableEq, Repr

/-- **A grammar and both its analyses.** -/
structure AnalysedGrammar where
  /-- The grammar. -/
  grammar : Grammar
  /-- The LL(1) analysis. -/
  lookahead : LookaheadAnalysis
  /-- The operator-precedence analysis. -/
  precedence : PrecedenceAnalysis

namespace AnalysedGrammar

/-- Analyses a grammar. -/
def ofGrammar (g : Grammar) : AnalysedGrammar :=
  ⟨g, .ofGrammar g, .ofGrammar g⟩

/-- A name that is looked up, or the answer that it is unknown. -/
def found {α : Type} (name : String) : Option α → Except Answer α
  | some x => .ok x
  | none => .error (.unknownName name)

/-- The nonterminal of a name. -/
def resolveNonterminal (a : AnalysedGrammar) (name : String) : Except Answer Nonterminal :=
  found name (a.grammar.nonterminal? name)

/-- The terminal of a name, or the end-marker. -/
def resolveTerminal (a : AnalysedGrammar) (name : String) : Except Answer Terminal :=
  if name = endMarkerName then .ok a.grammar.endMarker
  else found name (a.grammar.terminal? name)

/-- The symbol of a name, or the end-marker. -/
def resolveSymbol (a : AnalysedGrammar) (name : String) : Except Answer Symbol :=
  if name = endMarkerName then .ok (.terminal a.grammar.endMarker)
  else found name (a.grammar.symbol? name)

/-- A set of terminals as an answer. -/
def setAnswer (a : AnalysedGrammar) (set? : Option TerminalSet) : Answer :=
  .set (set?.map a.grammar.setNames)

/-- The production in the parsing table, if there is one. -/
def tableAnswer (a : AnalysedGrammar) (x : Nonterminal) (t : Terminal) : Answer :=
  match PredictiveParser.ofAnalysis a.lookahead with
  | .error e => .notLL1 e
  | .ok p => .production (p.table.get? x t)

/-- The relation in the matrix, if there is one. -/
def relationAnswer (a : AnalysedGrammar) (left right : Terminal) : Answer :=
  match a.precedence.matrix? with
  | none => .noMatrix (a.precedence.verdict.description a.grammar)
  | some m => .relation (m.get? left right)

/-- The answer to a question whose names are all declared. -/
def resolve (a : AnalysedGrammar) : Query → Except Answer Answer
  | .symbol name => return .symbol (a.grammar.symbol? name)
  | .nonterminal name => return .nonterminal (a.grammar.nonterminal? name)
  | .terminal name => return .terminal (a.grammar.terminal? name)
  | .isEpsilon name => return .truth ((← a.resolveSymbol name) = .terminal a.grammar.epsilon)
  | .alternatives name => do
    let x ← a.resolveNonterminal name
    return .texts ((a.grammar.alternatives x).map a.grammar.symbolsText)
  | .text names => return .text (a.grammar.symbolsText (← names.mapM a.resolveSymbol))
  | .firstOfString names => do
    let symbols ← names.mapM a.resolveSymbol
    return a.setAnswer (some (firstOf a.grammar.epsilon a.lookahead.first.table symbols))
  | .first name => do
    return a.setAnswer (some (firstOfSymbol a.lookahead.first.table (← a.resolveSymbol name)))
  | .nullable name => return .truth (a.lookahead.nullable (← a.resolveNonterminal name))
  | .follow name => return a.setAnswer (some (a.lookahead.followOf (← a.resolveNonterminal name)))
  | .edge .first name => return a.setAnswer (a.precedence.firstVT? (← a.resolveNonterminal name))
  | .edge .last name => return a.setAnswer (a.precedence.lastVT? (← a.resolveNonterminal name))
  | .table name terminal => do
    let x ← a.resolveNonterminal name
    return a.tableAnswer x (← a.resolveTerminal terminal)
  | .relation left right => do
    let l ← a.resolveTerminal left
    return a.relationAnswer l (← a.resolveTerminal right)

/-- **The answer to a question.** -/
def answer (a : AnalysedGrammar) (q : Query) : Answer :=
  match a.resolve q with
  | .ok answer => answer
  | .error answer => answer

end AnalysedGrammar

end GrammarAnalysis
