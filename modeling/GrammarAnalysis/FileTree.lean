/-!
# File trees, paths and the search for grammar files

A path names a place in a tree of directories. It is read component by
component from the working directory, or from the root if it begins with
a slash; every component but the last, and the last too if a slash
follows, must lead through a directory.

Grammar files are searched below a directory in a fixed order: the
entries of a directory by the bytes of their names, and what is below a
directory at the place of its name. `a/b.grammar` therefore comes before
`a.grammar`. A file is a grammar file if its name has the extension
`grammar`, which `.grammar`, a name without anything before the point,
has not.
-/

namespace GrammarAnalysis

/-- **A file or a directory.** -/
inductive FileTree where
  /-- A file and its bytes. -/
  | file (bytes : ByteArray)
  /-- A directory and its entries, in any order. -/
  | directory (entries : List (String × FileTree))

/-- Why a file cannot be read. -/
inductive ReadFault where
  /-- There is nothing of that name. -/
  | notFound
  /-- A file stands where a directory is needed. -/
  | notADirectory
  /-- A directory stands where a file is needed. -/
  | isADirectory
  /-- The bytes are not the UTF-8 encoding of a text. -/
  | notUtf8
deriving DecidableEq, Repr

/-- The phrase that describes a fault. -/
def ReadFault.message : ReadFault → String
  | notFound => "No such file or directory (os error 2)"
  | notADirectory => "Not a directory (os error 20)"
  | isADirectory => "Is a directory (os error 21)"
  | notUtf8 => "stream did not contain valid UTF-8"

namespace FileTree

/-- The entry of a name in a directory. -/
def entry? (tree : FileTree) (name : String) : Except ReadFault FileTree :=
  match tree with
  | file _ => .error .notADirectory
  | directory entries =>
    match entries.lookup name with
    | some t => .ok t
    | none => .error .notFound

/-- What is reached through a list of names. -/
def descend (tree : FileTree) : List String → Except ReadFault FileTree
  | [] => .ok tree
  | name :: rest => do (← tree.entry? name).descend rest

/-- Puts a value in the place of the one with the same name, or at the
end. -/
def putNamed {α : Type} (name : String) (value : α) : List (String × α) → List (String × α)
  | [] => [(name, value)]
  | next :: rest =>
    if next.1 = name then (name, value) :: rest else next :: putNamed name value rest

/-- **Puts a tree in a place**, which is given by the names that lead to
it. Directories that are missing on the way are made; a file on the way
gives way to a directory. -/
def put (tree : FileTree) (new : FileTree) : List String → FileTree
  | [] => new
  | name :: rest =>
    match tree with
    | file _ => directory [(name, put (directory []) new rest)]
    | directory entries =>
      let below := (entries.lookup name).getD (directory [])
      directory (putNamed name (put below new rest) entries)

/-- Makes sure that there is a directory in a place. One that is there
already is kept. -/
def makeDirectory (tree : FileTree) (place : List String) : FileTree :=
  match tree.descend place with
  | .ok (directory _) => tree
  | _ => tree.put (directory []) place

/-! ## Grammar files -/

/-- The end of the name of a grammar file. -/
def grammarSuffix : String := ".grammar"

/-- **Whether a file of this name is a grammar file.** -/
def isGrammarName (name : String) : Bool :=
  name ≠ grammarSuffix && grammarSuffix.toList.isSuffixOf name.toList

/-- The path of an entry of the directory at `path`. -/
def joinPath (path name : String) : String :=
  if path.toList.getLast? = some '/' then path ++ name else path ++ "/" ++ name

/-- Inserts a named value into values in ascending order of names. -/
def insertNamed {α : Type} (new : String × α) : List (String × α) → List (String × α)
  | [] => [new]
  | next :: rest =>
    if next.1 < new.1 then next :: insertNamed new rest else new :: next :: rest

/-- Named values in ascending order of names. The order of names as
texts is the order of their bytes. -/
def sortNamed {α : Type} (l : List (String × α)) : List (String × α) :=
  l.foldr insertNamed []

mutual

/-- **The grammar files at and below `path`**, where an entry of the
name `name` stands. -/
def grammarFilesAt (path name : String) : FileTree → List String
  | file _ => if isGrammarName name then [path] else []
  | directory entries => (sortNamed (grammarFilesOfEntries path entries)).flatMap (·.2)
termination_by structural tree => tree

/-- The grammar files at and below each entry of the directory at
`path`. -/
def grammarFilesOfEntries (path : String) :
    List (String × FileTree) → List (String × List String)
  | [] => []
  | (name, tree) :: rest =>
    (name, grammarFilesAt (joinPath path name) name tree) :: grammarFilesOfEntries path rest
termination_by structural entries => entries

end

/-- **The grammar files below the directory at `path`.** -/
def grammarFilesBelow (path : String) (entries : List (String × FileTree)) : List String :=
  (sortNamed (grammarFilesOfEntries path entries)).flatMap (·.2)

end FileTree

/-- **A file tree with a working directory.** -/
structure Workspace where
  /-- The root directory. -/
  root : FileTree
  /-- The names that lead from the root to the working directory. -/
  current : List String
  /-- What is printed before the names of a path from the root. -/
  rootName : String

namespace Workspace

/-- The text between the slashes of a path. -/
def components (path : List Char) : List Char × List String :=
  path.foldr
    (fun c (first, rest) =>
      if c = '/' then ([], String.ofList first :: rest) else (c :: first, rest))
    ([], [])

/-- Follows the components of a path from the directory that `place`
leads to, and gives the names that lead to where the path ends. -/
def follow (w : Workspace) (place : List String) : List String → Except ReadFault (List String)
  | [] => .ok place
  | component :: rest => do
    match ← w.root.descend place with
    | .file _ => .error .notADirectory
    | .directory entries =>
      if component = "" ∨ component = "." then w.follow place rest
      else if component = ".." then w.follow place.dropLast rest
      else if (entries.lookup component).isSome then w.follow (place ++ [component]) rest
      else .error .notFound

/-- **The names that lead from the root to where a path leads.** The
empty path leads nowhere. -/
def resolve (w : Workspace) (path : String) : Except ReadFault (List String) :=
  match components path.toList with
  | ([], []) => .error .notFound
  | ([], rest) => w.follow [] rest
  | (first, rest) => w.follow w.current (String.ofList first :: rest)

/-- What a path leads to. -/
def find (w : Workspace) (path : String) : Except ReadFault FileTree := do
  w.root.descend (← w.resolve path)

/-- The text of the file at a path. -/
def readText (w : Workspace) (path : String) : Except ReadFault String := do
  match ← w.find path with
  | .directory _ => .error .isADirectory
  | .file bytes =>
    match String.fromUTF8? bytes with
    | some text => .ok text
    | none => .error .notUtf8

/-- Whether there is a directory at a path. -/
def isDirectory (w : Workspace) (path : String) : Bool :=
  match w.find path with
  | .ok (.directory _) => true
  | _ => false

/-- **The files to be analysed for a path**: the grammar files below it
if it is a directory, and otherwise the path itself, whether or not
there is a file. -/
def grammarFiles (w : Workspace) (path : String) : List String :=
  match w.find path with
  | .ok (.directory entries) => FileTree.grammarFilesBelow path entries
  | _ => [path]

/-- The path by which a file is shown: the one from the root if it is
there, and otherwise the path as given. -/
def shownPath (w : Workspace) (path : String) : String :=
  match w.resolve path with
  | .ok place => w.rootName ++ "/".intercalate place
  | .error _ => path

end Workspace

end GrammarAnalysis
