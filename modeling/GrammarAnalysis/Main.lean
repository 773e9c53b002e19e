import GrammarAnalysis.CommandLine.Run

/-!
# The program

The program reads what its one path needs from the file system into a
`FileTree`, and prints what a `CommandLine.run` on that tree prints. The
tree holds the directories that the path leads through and the grammar
files it leads to.
-/

namespace GrammarAnalysis.Program

/-- Puts a file or a whole directory into a tree. Below a directory only
grammar files are read. -/
partial def load (tree : FileTree) (place : List String) (entry : IO.FS.DirEntry) :
    IO FileTree := do
  if ← entry.path.isDir then
    let mut tree := tree.makeDirectory place
    for inner in ← entry.path.readDir do
      if (← inner.path.isDir) || FileTree.isGrammarName inner.fileName then
        tree ← load tree (place ++ [inner.fileName]) inner
    return tree
  else
    return tree.put (.file (← IO.FS.readBinFile entry.path)) place

/-- The names that lead to an existing file or directory from the root. -/
def placeOf (entry : IO.FS.DirEntry) : IO (List String) := do
  return (← IO.FS.realPath entry.path).components.filter (· ≠ "")

/-- The parts of a path up to each of its slashes, and the whole path. -/
def prefixesOf (path : List Char) : List String :=
  ((List.range path.length).filter (fun i => path[i]? = some '/')).map
    (fun i => if i = 0 then "/" else String.ofList (path.take i)) ++ [String.ofList path]

/-- Puts the directories that a path leads through, and what it leads
to, into a tree; the path is given by its parts from the first on. -/
def loadParts (tree : FileTree) : List String → IO FileTree
  | [] => return tree
  | part :: rest => do
    let entry : IO.FS.DirEntry := ⟨".", part⟩
    if part = "" || !(← entry.path.pathExists) then return tree
    let place ← placeOf entry
    if rest.isEmpty then load tree place entry
    else if ← entry.path.isDir then loadParts (tree.makeDirectory place) rest
    else return tree.put (.file .empty) place

/-- The file tree that a task needs, seen from the working directory. -/
def workspaceOf (task : CommandLine.Task) : IO Workspace := do
  let current ← placeOf ⟨".", "."⟩
  let tree := (FileTree.directory []).makeDirectory current
  let tree ← match task with
    | .analyze path _ _ => loadParts tree (prefixesOf path.toList)
    | _ => pure tree
  return ⟨tree, current, "/"⟩

end GrammarAnalysis.Program

/-- Runs the program on its arguments. -/
def main (arguments : List String) : IO UInt32 := do
  let task := GrammarAnalysis.CommandLine.task .standard arguments
  let workspace ← GrammarAnalysis.Program.workspaceOf task
  let output := GrammarAnalysis.CommandLine.perform .standard workspace "grammarscope" task
  IO.print output.stdout
  IO.eprint output.stderr
  return output.code.toUInt32
