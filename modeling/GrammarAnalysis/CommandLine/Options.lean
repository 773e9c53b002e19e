/-!
# Options and arguments

Arguments are read from left to right. One that begins with a dash and
goes on is an option; a lone dash, and every argument after `--`, is
free. A long option is `--name` or `--name=value`. Short options are
single characters and may be written together, as in `-vv`; one that
takes a value takes what is left of its argument, and otherwise the next
argument, whatever that looks like. A long name of one byte is a short
option.

The first problem met is reported. That an option is given too often is
noticed last, when all arguments are read.
-/

namespace GrammarAnalysis.CommandLine

/-- **An option of the program.** -/
inductive OptionName where
  /-- Which analyses are made. -/
  | mode
  /-- The symbols to be parsed. -/
  | input
  /-- A log, with more of it the more often it is given. -/
  | verbose
  /-- The usage text. -/
  | help
deriving DecidableEq, Repr

/-- How an option is written: by one character, or by a longer name. -/
inductive Spelling where
  | short (c : Char)
  | long (name : String)
deriving DecidableEq, Repr

/-- A spelling without its dashes. -/
def Spelling.text : Spelling → String
  | short c => String.ofList [c]
  | long name => name

/-- The spelling for the name after two dashes. -/
def Spelling.ofName (name : String) : Spelling :=
  match name.toList with
  | [c] => if c.utf8Size = 1 then .short c else .long name
  | _ => .long name

namespace OptionName

/-- All options, in the order in which repetitions are reported. -/
def all : List OptionName := [mode, input, verbose, help]

/-- The character of an option. -/
def short : OptionName → Char
  | mode => 'm'
  | input => 'i'
  | verbose => 'v'
  | help => 'h'

/-- The long name of an option. -/
def long : OptionName → String
  | mode => "mode"
  | input => "input"
  | verbose => "verbose"
  | help => "help"

/-- Whether an option takes a value. -/
def takesValue : OptionName → Bool
  | mode | input => true
  | verbose | help => false

/-- Whether an option may be given more than once. -/
def isRepeatable : OptionName → Bool
  | verbose => true
  | _ => false

/-- The option of a spelling. -/
def ofSpelling? (s : Spelling) : Option OptionName :=
  all.find? fun o =>
    match s with
    | .short c => o.short = c
    | .long name => o.long = name

end OptionName

/-- **Why arguments cannot be read.** -/
inductive OptionFault where
  /-- There is no such option. -/
  | unrecognized (name : String)
  /-- An option that takes a value is the last argument. -/
  | argumentMissing (name : String)
  /-- An option that takes no value is given one. -/
  | unexpectedArgument (name : String)
  /-- An option is given more than once. -/
  | duplicated (name : String)
deriving DecidableEq, Repr

/-- The sentence that describes a fault. -/
def OptionFault.message : OptionFault → String
  | unrecognized name => "Unrecognized option: '" ++ name ++ "'"
  | argumentMissing name => "Argument to option '" ++ name ++ "' missing"
  | unexpectedArgument name => "Option '" ++ name ++ "' does not take an argument"
  | duplicated name => "Option '" ++ name ++ "' given more than once"

/-- One occurrence of an option, with its value if it takes one. -/
structure Occurrence where
  /-- The option. -/
  name : OptionName
  /-- Its value. -/
  value : Option String
deriving DecidableEq, Repr

/-- **Arguments that have been read.** -/
structure Arguments where
  /-- The options, in the order given. -/
  options : List Occurrence
  /-- The arguments that are not options, in the order given. -/
  free : List String
deriving DecidableEq, Repr

namespace Arguments

/-- No arguments. -/
def empty : Arguments := ⟨[], []⟩

/-- Arguments with options before them. -/
def withOptions (occurrences : List Occurrence) (a : Arguments) : Arguments :=
  { a with options := occurrences ++ a.options }

/-- Arguments with a free argument before them. -/
def withFree (free : String) (a : Arguments) : Arguments :=
  { a with free := free :: a.free }

/-- How often an option is given. -/
def count (a : Arguments) (o : OptionName) : Nat :=
  a.options.countP (fun occurrence => occurrence.name = o)

/-- The value of an option. -/
def value? (a : Arguments) (o : OptionName) : Option String :=
  (a.options.find? (fun occurrence => occurrence.name = o)).bind (·.value)

end Arguments

/-- **What one argument is.** -/
inductive Argument where
  /-- No option. -/
  | free
  /-- The end of the options. -/
  | endOfOptions
  /-- A long option, with the text after its equals sign. -/
  | long (name : String) (value : Option String)
  /-- Short options written together. -/
  | cluster (characters : List Char)
deriving DecidableEq, Repr

/-- The kind of an argument. -/
def Argument.ofString (s : String) : Argument :=
  match s.toList with
  | ['-', '-'] => .endOfOptions
  | '-' :: '-' :: rest =>
    .long (String.ofList (rest.takeWhile (· ≠ '=')))
      (match rest.dropWhile (· ≠ '=') with
        | [] => none
        | _ :: value => some (String.ofList value))
  | '-' :: c :: rest => .cluster (c :: rest)
  | _ => .free

/-- What short options written together give: the options that take no
value, and, if the last one takes a value, that one with what is left of
the argument. -/
structure ClusterReading where
  /-- The options without a value. -/
  flags : List Occurrence
  /-- The option with a value, and the value if it is not empty. -/
  last : Option (Char × OptionName × Option String)
deriving DecidableEq, Repr

/-- Reads short options written together. -/
def readCluster : List Char → Except OptionFault ClusterReading
  | [] => .ok ⟨[], none⟩
  | c :: rest =>
    match OptionName.ofSpelling? (.short c) with
    | none => .error (.unrecognized (String.ofList [c]))
    | some o =>
      if o.takesValue then
        .ok ⟨[], some (c, o, if rest = [] then none else some (String.ofList rest))⟩
      else do
        let reading ← readCluster rest
        return { reading with flags := ⟨o, none⟩ :: reading.flags }

/-- Gives an option its value: the one at hand, or the next argument.
What is left of the arguments is given back. -/
def takeValue (o : OptionName) (spelling : String) :
    Option String → List String → Except OptionFault (Occurrence × List String)
  | some value, rest => .ok (⟨o, some value⟩, rest)
  | none, value :: rest => .ok (⟨o, some value⟩, rest)
  | none, [] => .error (.argumentMissing spelling)

/-- Reads the options of one argument; the arguments after it may be
needed for a value. -/
def readOption (argument : Argument) (rest : List String) :
    Except OptionFault (List Occurrence × List String) :=
  match argument with
  | .free | .endOfOptions => .ok ([], rest)
  | .long name value =>
    match OptionName.ofSpelling? (.ofName name) with
    | none => .error (.unrecognized name)
    | some o =>
      if o.takesValue then do
        let (occurrence, rest) ← takeValue o name value rest
        return ([occurrence], rest)
      else if value.isSome then .error (.unexpectedArgument name)
      else .ok ([⟨o, none⟩], rest)
  | .cluster characters => do
    let reading ← readCluster characters
    match reading.last with
    | none => return (reading.flags, rest)
    | some (c, o, value) =>
      let (occurrence, rest) ← takeValue o (String.ofList [c]) value rest
      return (reading.flags ++ [occurrence], rest)

/-- Reads arguments, at most `bound` of them. -/
def readUpTo : Nat → List String → Except OptionFault Arguments
  | _, [] => .ok .empty
  | 0, _ :: _ => .ok .empty
  | bound + 1, argument :: rest =>
    match Argument.ofString argument with
    | .free => (readUpTo bound rest).map (Arguments.withFree argument)
    | .endOfOptions => .ok ⟨[], rest⟩
    | other => do
      let (occurrences, rest) ← readOption other rest
      (readUpTo bound rest).map (Arguments.withOptions occurrences)

/-- The first option that is given too often. -/
def duplicated? (a : Arguments) : Option OptionName :=
  OptionName.all.find? (fun o => !o.isRepeatable && a.count o > 1)

/-- **Reads all arguments.** -/
def readArguments (arguments : List String) : Except OptionFault Arguments := do
  let a ← readUpTo arguments.length arguments
  match duplicated? a with
  | some o => .error (.duplicated o.long)
  | none => return a

end GrammarAnalysis.CommandLine
