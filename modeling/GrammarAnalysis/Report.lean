import GrammarAnalysis.Grammar.DirectiveFile
import GrammarAnalysis.Log

/-!
# The report on a grammar file

A report consists of sections separated by a blank line: the grammar;
for an LL(1) analysis its sets and verdict, the parsing table if there
is one, and the steps of a parse if an input is given; for an
operator-precedence analysis its report. Which analyses are made is the
`Mode`.

That a grammar is not LL(1), or not an operator-precedence grammar, is a
finding and stands in the report. It is an error only that the file is
no grammar, or that an input is given and cannot be parsed.
-/

namespace GrammarAnalysis

/-- **Which analyses are made.** -/
inductive Mode where
  /-- The LL(1) analysis. -/
  | lookahead
  /-- The operator-precedence analysis. -/
  | precedence
  /-- Both. -/
  | all
deriving DecidableEq, Repr

namespace Mode

/-- The mode of a name, in letters of either case. -/
def ofName? (name : String) : Option Mode :=
  let lower := name.toList.map Char.toLower
  if lower = "ll".toList then some .lookahead
  else if lower = "op".toList then some .precedence
  else if lower = "all".toList then some .all
  else none

/-- The mode that is asked for: every analysis is made if none is named.
A name that is no mode is given back. -/
def ofRequest : Option String → Except String Mode
  | none => .ok .all
  | some name =>
    match ofName? name with
    | some mode => .ok mode
    | none => .error name

/-- The sentence that rejects the name of a mode. -/
def unsupported (name : String) : String :=
  "unsupported mode " ++ quoted name ++ ", expected one of LL, OP, ALL"

/-- Whether the LL(1) analysis is made. -/
def includesLookahead (mode : Mode) : Bool :=
  mode ≠ .precedence

/-- Whether the operator-precedence analysis is made. -/
def includesPrecedence (mode : Mode) : Bool :=
  mode ≠ .lookahead

end Mode

/-- **What is asked of an analysis.** -/
structure Config where
  /-- Which analyses are made. -/
  mode : Mode
  /-- The names to be parsed, the end-marker included. -/
  input : Option (List String)
deriving DecidableEq, Repr

/-- Whether an input, if there is one, has an analysis to parse it. -/
def Config.isValid (config : Config) : Bool :=
  config.input.isNone || config.mode.includesLookahead

/-- **Why there is no report.** -/
inductive AnalysisError where
  /-- The text is no grammar. -/
  | format (e : GrammarError)
  /-- An input is given and the grammar is not LL(1). -/
  | notLL1 (e : NotLL1)
  /-- The input is not accepted. -/
  | parse (e : ParseError)
deriving DecidableEq, Repr

/-- The sentence that describes an error. -/
def AnalysisError.message : AnalysisError → String
  | format e => e.message
  | notLL1 e => e.message
  | parse e => "parse failed: " ++ e.message

/-- **A part of a report**: its sections, the events on the way, and the
error that ended it. -/
structure ReportPart where
  /-- The texts of the sections. -/
  sections : List String
  /-- The events. -/
  events : List Event
  /-- The error. -/
  error? : Option AnalysisError

namespace ReportPart

/-- The part without sections. -/
def empty : ReportPart := ⟨[], [], none⟩

/-- One part after another; an error of the first is the end. -/
def andThen (first : ReportPart) (second : ReportPart) : ReportPart :=
  if first.error?.isSome then first
  else ⟨first.sections ++ second.sections, first.events ++ second.events, second.error?⟩

/-- The grammar. -/
def ofGrammar (g : Grammar) : ReportPart :=
  ⟨[g.text], [.built g, .loaded g], none⟩

/-- The LL(1) analysis, and the parse of an input. -/
def lookahead (g : Grammar) (input : Option (List String)) : ReportPart :=
  let a := LookaheadAnalysis.ofGrammar g
  match PredictiveParser.ofAnalysis a, input with
  | .error _, none => ⟨[a.report], a.events, none⟩
  | .error e, some _ => ⟨[a.report], a.events, some (.notLL1 e)⟩
  | .ok p, none => ⟨[a.report, unlines (p.table.lines g)], a.events, none⟩
  | .ok p, some symbols =>
    let run := p.run symbols
    ⟨[a.report, unlines (p.table.lines g), stepsText g run.steps], a.events ++ run.events g,
      run.error?.map AnalysisError.parse⟩

/-- The operator-precedence analysis. -/
def precedence (g : Grammar) : ReportPart :=
  let a := PrecedenceAnalysis.ofGrammar g
  ⟨[a.report], a.events, none⟩

/-- All parts that are asked for. -/
def all (g : Grammar) (config : Config) : ReportPart :=
  ((ofGrammar g).andThen
    (if config.mode.includesLookahead then lookahead g config.input else empty)).andThen
    (if config.mode.includesPrecedence then precedence g else empty)

end ReportPart

/-- Sections without the blanks at their ends, separated by a blank
line. -/
def joinSections (sections : List String) : String :=
  "\n\n".intercalate (sections.map trimmedEnd) ++ "\n"

/-- **The report on a file, or the error, and the events on the way.** -/
structure Analysis where
  /-- The report or the error. -/
  result : Except AnalysisError String
  /-- The events. -/
  events : List Event

/-- **Analyses the text of a grammar file.** -/
def analyze (text : String) (config : Config) : Analysis :=
  match Grammar.ofFile text with
  | .error e => ⟨.error (.format e), []⟩
  | .ok g =>
    let part := ReportPart.all g config
    match part.error? with
    | some e => ⟨.error e, part.events⟩
    | none => ⟨.ok (joinSections part.sections), part.events⟩

end GrammarAnalysis
