import GrammarAnalysis.FileTree
import GrammarAnalysis.Report

/-!
# Analysing many files

All files found for a path are analysed one after the other, each as if
it were alone. A file that fails does not stop the others; it is counted,
and a run with a failed file ends with another exit code.
-/

namespace GrammarAnalysis

/-- **Why a run, or a file of it, has no report.** -/
inductive RunError where
  /-- The file cannot be read. -/
  | unreadable (path : String) (fault : ReadFault)
  /-- An input is given, but no LL(1) analysis is asked for. -/
  | inputWithoutLookahead
  /-- The analysis of the text of the file failed. -/
  | analysis (path text : String) (e : AnalysisError)
deriving DecidableEq, Repr

/-- The sentence that describes an error. -/
def RunError.message : RunError → String
  | unreadable path fault => "cannot read " ++ path ++ ": " ++ fault.message
  | inputWithoutLookahead => "--input is parsed with the LL(1) table and needs mode LL or ALL"
  | analysis path _ e => path ++ ": " ++ e.message

/-- Checks that an input has an analysis to parse it. -/
def Config.validate (config : Config) : Except RunError Unit :=
  if config.isValid then .ok () else .error .inputWithoutLookahead

/-- **What a run has to say about one file.** -/
structure FileResult where
  /-- The path of the file. -/
  path : String
  /-- The report or the error. -/
  result : Except RunError String
  /-- The events of the analysis. -/
  events : List Event

namespace Workspace

/-- Analyses one file. -/
def analyzeFile (w : Workspace) (config : Config) (path : String) : FileResult :=
  match w.readText path with
  | .error fault => ⟨path, .error (.unreadable path fault), []⟩
  | .ok text =>
    let a := analyze text config
    ⟨path, a.result.mapError (RunError.analysis path text), a.events⟩

/-- **Analyses files**, in their order. -/
def analyzeFiles (w : Workspace) (config : Config) (files : List String) : List FileResult :=
  files.map (w.analyzeFile config)

/-- Analyses all files found for a path. -/
def analyzeAll (w : Workspace) (config : Config) (path : String) : List FileResult :=
  w.analyzeFiles config (w.grammarFiles path)

/-- The events of a search that found so many files: a directory is searched,
any other path is not. -/
def searchEvents (w : Workspace) (path : String) (found : Nat) : List Event :=
  if w.isDirectory path then [.searched found path] else []

end Workspace

/-- **How many files have been analysed, and how many of them failed.** -/
structure Summary where
  /-- The number of files. -/
  analyzed : Nat
  /-- The number of files without a report. -/
  failed : Nat
deriving DecidableEq, Repr

namespace Summary

/-- The summary of no files. -/
def empty : Summary := ⟨0, 0⟩

/-- The summary after one more file. -/
def record (s : Summary) (r : FileResult) : Summary :=
  match r.result with
  | .ok _ => { s with analyzed := s.analyzed + 1 }
  | .error _ => ⟨s.analyzed + 1, s.failed + 1⟩

/-- The summary of some files. -/
def ofResults (results : List FileResult) : Summary :=
  results.foldl record empty

/-- **The exit code**: zero if no file failed. -/
def exitCode (s : Summary) : Nat :=
  if s.failed = 0 then 0 else 1

end Summary

end GrammarAnalysis
