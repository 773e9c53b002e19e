import GrammarAnalysis.CommandLine.Options
import GrammarAnalysis.DirectoryWalk
import GrammarAnalysis.Grammar.Printer

/-!
# What a run takes from libraries

Reading options, listing them in a usage text, and walking through directories
is left to libraries. A run knows of its options only what it asks about them
(`Request`), and of a walk only what it visits. `Libraries` are what a run
depends on, and nothing in a run depends on how they do it.

`Libraries.standard` are the libraries of the program: options are read by
`readArguments`, and walks go through a file tree.
-/

namespace GrammarAnalysis.CommandLine

/-- **What is asked for by arguments.** -/
structure Request where
  /-- Whether the usage text is asked for. -/
  help : Bool
  /-- How often a log, or more of it, is asked for. -/
  verbosity : Nat
  /-- The name of the mode. -/
  mode : Option String
  /-- The text of the input. -/
  input : Option String
  /-- The arguments that are not options. -/
  free : List String
deriving DecidableEq, Repr

/-- What arguments that have been read ask for. -/
def Arguments.request (a : Arguments) : Request where
  help := a.count .help > 0
  verbosity := a.count .verbose
  mode := a.value? .mode
  input := a.value? .input
  free := a.free

/-- **The libraries of a run.** -/
structure Libraries where
  /-- What arguments ask for, or why they cannot be read. -/
  read : List String → Except String Request
  /-- The usage text with a given first line. -/
  usage : String → String
  /-- What is visited on a walk from a path on. -/
  walk : Workspace → String → List (Except String Visit)

namespace Libraries

/-- The usage text with a given first line. -/
def usageText (first : String) : String :=
  unlines
    [first,
      "",
      "Options:",
      "    -m, --mode MODE     Analyses to run. Defaults to ALL.",
      "                        Supported modes: LL, OP, ALL (case insensitive)",
      "    -i, --input SYMBOLS Whitespace-separated symbols to parse with the LL(1)",
      "                        table,",
      "                        ending with #",
      "    -v, --verbose       Log analysis progress, repeat for more",
      "    -h, --help          Print this message"]

/-- **The libraries of the program.** -/
def standard : Libraries where
  read arguments := ((readArguments arguments).mapError OptionFault.message).map Arguments.request
  usage := usageText
  walk := Workspace.walk

end Libraries

end GrammarAnalysis.CommandLine
