import GrammarAnalysis.Grammar.Basic
import GrammarAnalysis.Grammar.Fault
import GrammarAnalysis.Segmentation

/-!
# From declarations to a grammar

A grammar is declared by four things: the words that are its
nonterminals, the words that are its terminals, one text `A->x|y` for
every nonterminal, and the start word. `Declarations.toGrammar` checks
them and numbers the symbols.

The first fault is reported, in a fixed order: the nonterminals from
left to right, the terminals, the start symbol, the productions one
after the other, and last the nonterminals that got none. Within a
production the left-hand side comes first, then its alternatives from
left to right.
-/

namespace GrammarAnalysis

/-- **A declared piece of text**, with its place if it stands in a
file. -/
structure Declared where
  /-- The text. -/
  text : String
  /-- Its place. -/
  span : Option Span
deriving DecidableEq, Repr

/-- What declares a grammar. -/
structure Declarations where
  /-- The nonterminals. -/
  nonterminals : List Declared
  /-- The terminals. The epsilon terminal may be left out. -/
  terminals : List Declared
  /-- The productions, one text for every nonterminal. -/
  productions : List Declared
  /-- The start symbol. -/
  start : Option Declared
deriving DecidableEq, Repr

namespace Declared

/-- A fault at the place of a declared text. -/
def fail {α : Type} (d : Declared) (fault : Fault) : Except GrammarError α :=
  .error ⟨fault, d.span⟩

/-- A text that stands in no file, trimmed. -/
def ofText (s : String) : Declared :=
  ⟨trimmed s, none⟩

end Declared

/-! ## The parts of a production text -/

/-- The characters before and after the first `->`. -/
def splitAtArrow : List Char → Option (List Char × List Char)
  | [] => none
  | [_] => none
  | c :: d :: rest =>
    if c = '-' ∧ d = '>' then some ([], rest)
    else (splitAtArrow (d :: rest)).map (fun (before, after) => (c :: before, after))

/-- **The left-hand side and the alternatives** of the text
`A->x|y|…`. -/
def splitProduction (s : String) : Except Fault (String × List String) :=
  match splitAtArrow s.toList with
  | none => .error (.missingArrow s)
  | some (before, after) =>
    let lhs := String.ofList (trimWhere isBlank before)
    if lhs = "" then .error (.emptyLhs s)
    else
      .ok (lhs, (splitWhere (· == '|') after).map (fun a => String.ofList (trimWhere isBlank a)))

namespace Declarations

/-- Declarations that stand in no file: four lists of texts. -/
def ofLists (nonterminals terminals productions : List String) (start : String) :
    Declarations where
  nonterminals := nonterminals.map Declared.ofText
  terminals := terminals.map Declared.ofText
  productions := productions.map Declared.ofText
  start := some (Declared.ofText start)

/-! ## The symbols -/

/-- The faults of a declared symbol that do not depend on other
declarations: it is empty, or it is the end-marker. -/
def checkSymbol (d : Declared) : Except GrammarError Unit :=
  if d.text = "" then d.fail (.unknownSymbol "")
  else if d.text = endMarkerName then d.fail (.reservedSymbol d.text)
  else .ok ()

/-- Checks declared nonterminals, after those named `earlier`. -/
def checkNonterminals (earlier : List String) : List Declared → Except GrammarError Unit
  | [] => .ok ()
  | d :: rest => do
    checkSymbol d
    if d.text = epsilonName then d.fail (.ambiguousSymbol epsilonName)
    else if d.text ∈ earlier then d.fail (.duplicateSymbol d.text)
    else checkNonterminals (d.text :: earlier) rest

/-- Checks declared terminals, after those named `earlier`. -/
def checkTerminals (nonterminals earlier : List String) :
    List Declared → Except GrammarError Unit
  | [] => .ok ()
  | d :: rest => do
    checkSymbol d
    if d.text ∈ nonterminals then d.fail (.ambiguousSymbol d.text)
    else if d.text ∈ earlier then d.fail (.duplicateSymbol d.text)
    else checkTerminals nonterminals (d.text :: earlier) rest

/-- Terminals with the epsilon terminal, which is added at the end if it
is not declared. -/
def withEpsilon (terminals : List String) : List String :=
  if epsilonName ∈ terminals then terminals else terminals ++ [epsilonName]

/-- The start symbol. -/
def startSymbol (nonterminals : List String) : Option Declared → Except GrammarError Nonterminal
  | none => .error ⟨.missingStart, none⟩
  | some d =>
    match nonterminals.idxOf? d.text with
    | none => d.fail (.startNotNonterminal d.text)
    | some i => .ok ⟨i⟩

/-! ## The rules -/

/-- The symbols of one alternative of the nonterminal `lhs`. -/
def readAlternative (symbol? : String → Option Symbol) (lhs alternative : String) :
    Except Fault (List Symbol) :=
  let names := segment alternative
  if names = [] then .error (.emptyAlternative lhs)
  else if names.length > 1 ∧ epsilonName ∈ names then .error (.epsilonMixed alternative)
  else names.mapM fun name =>
    match symbol? name with
    | some x => .ok x
    | none => .error (.unknownSymbol name)

/-- One declared production, when the nonterminals in `earlier` have
theirs already. -/
def readRule (nonterminal? : String → Option Nonterminal) (symbol? : String → Option Symbol)
    (earlier : List Nonterminal) (text : String) : Except Fault Rule := do
  let (lhs, alternatives) ← splitProduction text
  match nonterminal? lhs with
  | none => .error (.notNonterminal lhs)
  | some x =>
    if x ∈ earlier then .error (.duplicateProduction lhs)
    else return ⟨x, ← alternatives.mapM (readAlternative symbol? lhs)⟩

/-- All declared productions, when the nonterminals in `earlier` have
theirs already. -/
def readRules (nonterminal? : String → Option Nonterminal) (symbol? : String → Option Symbol)
    (earlier : List Nonterminal) : List Declared → Except GrammarError (List Rule)
  | [] => .ok []
  | d :: rest =>
    match readRule nonterminal? symbol? earlier d.text with
    | .error fault => d.fail fault
    | .ok r => return r :: (← readRules nonterminal? symbol? (r.lhs :: earlier) rest)

/-- Checks that every declared nonterminal, numbered from `index` on,
has a rule. -/
def checkRules (rules : List Rule) (index : Nat) : List Declared → Except GrammarError Unit
  | [] => .ok ()
  | d :: rest =>
    if (⟨index⟩ : Nonterminal) ∈ rules.map (·.lhs) then checkRules rules (index + 1) rest
    else d.fail (.missingProductions d.text)

/-- **The grammar that is declared**, or the first fault. -/
def toGrammar (d : Declarations) : Except GrammarError Grammar := do
  let nonterminals := d.nonterminals.map (·.text)
  let terminals := d.terminals.map (·.text)
  checkNonterminals [] d.nonterminals
  checkTerminals nonterminals [] d.terminals
  let start ← startSymbol nonterminals d.start
  let g : Grammar := ⟨nonterminals, withEpsilon terminals, start, []⟩
  let rules ← readRules g.nonterminal? g.symbol? [] d.productions
  checkRules rules 0 d.nonterminals
  return { g with rules }

end Declarations

/-- **The grammar declared by four lists of texts.** -/
def Grammar.ofLists (nonterminals terminals productions : List String) (start : String) :
    Except GrammarError Grammar :=
  (Declarations.ofLists nonterminals terminals productions start).toGrammar

end GrammarAnalysis
