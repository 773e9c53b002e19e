import GrammarAnalysis.Grammar.Declaration

/-!
# Grammar files

A grammar file declares a grammar line by line:

    // expressions
    %nonterminals E T
    %terminals + i
    %start E
    E->E+T|T
    T->i

A line that starts with `%` is a directive, and its words after the
first are symbols; directives of one name accumulate, but `%start` may
appear once and takes one word. A blank line and a line that starts with
`//` say nothing. Every other line is a production.

The lines are read to the end before any declaration is checked, so a
fault of a directive is reported before a fault of what is declared.
-/

namespace GrammarAnalysis

/-- Located text as a declared text. -/
def Declared.ofLocated (l : List Located) : Declared :=
  ⟨Located.text l, some (Located.span l)⟩

namespace DirectiveFile

/-- **What a line says.** -/
inductive Line where
  /-- Nothing: the line is blank or a comment. -/
  | blank
  /-- A production. -/
  | production (text : Declared)
  /-- Words that are nonterminals. -/
  | nonterminals (words : List Declared)
  /-- Words that are terminals. -/
  | terminals (words : List Declared)
  /-- A start line, given whole, and its words after the directive. -/
  | start (line : Declared) (words : List Declared)
  /-- A directive that does not exist. -/
  | unknown (name : Declared)
deriving DecidableEq, Repr

namespace Line

/-- What a directive says, from the whole line, the name of the
directive and the words after it. -/
def ofDirective (line name : Declared) (words : List Declared) : Line :=
  if name.text = "%nonterminals" then nonterminals words
  else if name.text = "%terminals" then terminals words
  else if name.text = "%start" then start line words
  else unknown name

/-- Reads one line. -/
def ofLocated (raw : List Located) : Line :=
  let line := Located.trim raw
  match line with
  | [] => blank
  | ⟨_, '/'⟩ :: ⟨_, '/'⟩ :: _ => blank
  | ⟨_, '%'⟩ :: _ =>
    match (Located.words line).map Declared.ofLocated with
    | [] => blank
    | name :: words => ofDirective (Declared.ofLocated line) name words
  | _ => production (Declared.ofLocated line)

/-- The nonterminals that a line declares. -/
def nonterminalWords : Line → List Declared
  | nonterminals words => words
  | _ => []

/-- The terminals that a line declares. -/
def terminalWords : Line → List Declared
  | terminals words => words
  | _ => []

/-- The production that a line is. -/
def production? : Line → Option Declared
  | production text => some text
  | _ => none

/-- The start symbol that a line declares. -/
def start? : Line → Option Declared
  | start _ [word] => some word
  | _ => none

end Line

/-- The lines of a file. -/
def lines (text : String) : List Line :=
  (Located.lines (Located.ofString text)).map Line.ofLocated

/-- **The fault of the first bad directive.** `started` says whether
there was a start line before; a second one is a fault whatever its
words are. -/
def firstFault? (started : Bool) : List Line → Option GrammarError
  | [] => none
  | .unknown name :: _ => some ⟨.unknownDirective name.text, name.span⟩
  | .start line words :: rest =>
    if started then some ⟨.duplicateStart, line.span⟩
    else
      match words with
      | [] => some ⟨.missingStart, line.span⟩
      | [_] => firstFault? true rest
      | _ :: extra :: _ => some ⟨.extraStartSymbol extra.text, extra.span⟩
  | _ :: rest => firstFault? started rest

/-- What lines declare where no directive is bad. -/
def declared (lines : List Line) : Declarations where
  nonterminals := lines.flatMap Line.nonterminalWords
  terminals := lines.flatMap Line.terminalWords
  productions := lines.filterMap Line.production?
  start := lines.findSome? Line.start?

/-- **The declarations of a file**, or the fault of its first bad
directive. -/
def declarations (text : String) : Except GrammarError Declarations :=
  match firstFault? false (lines text) with
  | some e => .error e
  | none => .ok (declared (lines text))

end DirectiveFile

/-- **The grammar declared by the text of a grammar file.** -/
def Grammar.ofFile (text : String) : Except GrammarError Grammar := do
  (← DirectiveFile.declarations text).toGrammar

end GrammarAnalysis
