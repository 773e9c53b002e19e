import GrammarAnalysis.Batch
import GrammarAnalysis.CommandLine.Libraries
import GrammarAnalysis.Grammar.Diagnostic

/-!
# A run of the program

A run reads its arguments and then either ends at once, with the usage
text or a complaint, or analyses the files found for the one path it is
given. Reports go to the standard output, everything else to the
standard error. When there are several files, a header names each of
them. Every run ends with exit code zero or one.

A file that is no grammar is shown as a diagnostic under the path it is
shown by; any other failure is one line under the path as given.
-/

namespace GrammarAnalysis.CommandLine

/-- **What a run has printed, and how it ended.** -/
structure Output where
  /-- The exit code. -/
  code : Nat
  /-- The standard output. -/
  stdout : String
  /-- The standard error. -/
  stderr : String
deriving DecidableEq, Repr

/-- The first line of the usage text, for a program of a given name. -/
def usageLine (program : String) : String :=
  "Usage: " ++ program ++ " [options] PATH"

/-- The level of the log for a number of requests. -/
def logLevel? : Nat → Option LogLevel
  | 0 => none
  | 1 => some .debug
  | _ => some .trace

/-- A message of several lines, all but the first indented. -/
def indented (message : String) : String :=
  "\n    ".intercalate ((splitWhere (· == '\n') message.toList).map String.ofList)

/-- The line of the log for an event. -/
def logLine (e : Event) : String :=
  "[" ++ e.level.name ++ " " ++ e.target ++ "] " ++ indented e.message

/-- The log of some events: those that the level shows. -/
def logText (level? : Option LogLevel) (events : List Event) : String :=
  match level? with
  | none => ""
  | some level => unlines ((events.filter (fun e => level.shows e.level)).map logLine)

/-- **What a run is to do**, when its arguments are in order. -/
inductive Task where
  /-- Print the usage text and end with a code. -/
  | usage (code : Nat)
  /-- Print a complaint and end with code one. -/
  | complain (message : String)
  /-- Analyse the files found for a path. -/
  | analyze (path : String) (config : Config) (level? : Option LogLevel)
deriving DecidableEq, Repr

/-- The task set by arguments that can be read. -/
def taskOf (request : Request) : Task :=
  if request.help then .usage 0
  else
    match Mode.ofRequest request.mode, request.free with
    | .error name, _ => .complain (Mode.unsupported name)
    | .ok mode, [path] =>
      let config : Config := ⟨mode, request.input.map wordsOf⟩
      match config.validate with
      | .error e => .complain e.message
      | .ok _ => .analyze path config (logLevel? request.verbosity)
    | .ok _, _ => .usage 1

/-- **The task set by arguments.** -/
def task (libraries : Libraries) (arguments : List String) : Task :=
  match libraries.read arguments with
  | .error message => .complain message
  | .ok request => taskOf request

/-- The header that names a file. -/
def header (shown : String) : String :=
  "==> " ++ shown ++ " <==\n"

/-- The text that reports the failure of a file shown as `shown`. -/
def failureText (shown : String) : RunError → String
  | .analysis _ text (.format e) => Diagnostic.render shown text e
  | e => e.message ++ "\n"

/-- What is printed to the standard output for a file. -/
def stdoutOf (w : Workspace) (withHeader : Bool) (r : FileResult) : String :=
  (if withHeader then header (w.shownPath r.path) else "") ++ r.result.toOption.getD ""

/-- What is printed to the standard error for a file. -/
def stderrOf (w : Workspace) (level? : Option LogLevel) (r : FileResult) : String :=
  logText level? r.events ++
    match r.result with
    | .ok _ => ""
    | .error e => failureText (w.shownPath r.path) e

/-- What the analysis of the files that are found for a path prints. A
complaint about the path or a file on the way is all that is printed if the
search for them fails. -/
def runAnalysis (libraries : Libraries) (w : Workspace) (path : String) (config : Config)
    (level? : Option LogLevel) : Output :=
  match w.search libraries.walk path with
  | .error message => ⟨1, "", message ++ "\n"⟩
  | .ok files =>
    let results := w.analyzeFiles config files
    { code := (Summary.ofResults results).exitCode
      stdout := String.join (results.map (stdoutOf w (files.length > 1)))
      stderr := logText level? (w.searchEvents path files.length) ++
        String.join (results.map (stderrOf w level?)) }

/-- Carries out a task. -/
def perform (libraries : Libraries) (w : Workspace) (program : String) : Task → Output
  | .usage code => ⟨code, libraries.usage (usageLine program), ""⟩
  | .complain message => ⟨1, "", message ++ "\n"⟩
  | .analyze path config level? => runAnalysis libraries w path config level?

/-- **A run with given libraries** and arguments. -/
def runWith (libraries : Libraries) (w : Workspace) (program : String) (arguments : List String) :
    Output :=
  perform libraries w program (task libraries arguments)

/-- **A run of the program** with given arguments. -/
def run (w : Workspace) (program : String) (arguments : List String) : Output :=
  runWith .standard w program arguments

end GrammarAnalysis.CommandLine
