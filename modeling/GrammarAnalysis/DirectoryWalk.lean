import GrammarAnalysis.FileTree

/-!
# Walks through directories

Grammar files are searched for on a walk: what is visited one after another
is looked at, and the files with the right names are kept. A walk can fail on
its way, for instance at a directory that may not be listed, and the search
ends with the first failure. So it is a walk that decides what is found, and in
which order. Every walk is a parameter of the search.

`Workspace.walk` is the walk through a file tree, in which nothing fails: a
directory comes before what is below it, and the entries of a directory come in
ascending order of their names.
-/

namespace GrammarAnalysis

/-- **What a walk visits.** -/
structure Visit where
  /-- The path, which goes on from the path where the walk begins. -/
  path : String
  /-- The last name of the path, or all of it where the walk begins. -/
  name : String
  /-- Whether it is a file. -/
  isFile : Bool
deriving DecidableEq, Repr

/-- Whether a grammar file is visited. -/
def Visit.isGrammarFile (v : Visit) : Bool :=
  v.isFile && FileTree.isGrammarName v.name

/-- **The grammar files on a walk**, unless it fails. -/
def grammarFilesOn : List (Except String Visit) → Except String (List String)
  | [] => .ok []
  | .error message :: _ => .error message
  | .ok v :: rest =>
    (grammarFilesOn rest).map fun files => if v.isGrammarFile then v.path :: files else files

namespace FileTree

mutual

/-- **What is visited at and below `path`**, where an entry of the name
`name` stands. -/
def visitsAt (path name : String) : FileTree → List Visit
  | file _ => [⟨path, name, true⟩]
  | directory entries =>
    ⟨path, name, false⟩ :: (sortNamed (visitsOfEntries path entries)).flatMap (·.2)
termination_by structural tree => tree

/-- What is visited at and below each entry of the directory at `path`. -/
def visitsOfEntries (path : String) : List (String × FileTree) → List (String × List Visit)
  | [] => []
  | (name, tree) :: rest =>
    (name, visitsAt (joinPath path name) name tree) :: visitsOfEntries path rest
termination_by structural entries => entries

end

end FileTree

namespace Workspace

/-- **The walk through a file tree** from a path on. -/
def walk (w : Workspace) (path : String) : List (Except String Visit) :=
  match w.find path with
  | .ok tree => (tree.visitsAt path path).map .ok
  | .error fault => [.error fault.message]

/-- **The files to be analysed for a path**: the grammar files on the walk
through it if it is a directory, and otherwise the path itself, whether or not
there is a file. -/
def search (w : Workspace) (walk : Workspace → String → List (Except String Visit))
    (path : String) : Except String (List String) :=
  if w.isDirectory path then grammarFilesOn (walk w path) else .ok [path]

end Workspace

end GrammarAnalysis
