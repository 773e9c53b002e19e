import GrammarAnalysis.DirectoryWalk
import GrammarAnalysis.Proofs.FileSearch

/-!
# What is found on a walk

`Finds` says which files are to be analysed for a path, whatever walk is taken:
the path itself if it is no directory, and otherwise the files with the right
names on the walk, in its order, if nothing on the walk failed. The search
returns these files (`search_eq_ok_iff`), and fails if the walk does.

On the walk through a file tree nothing fails below a directory, and what is
found there are the grammar files of the tree (`search_walk`). Their paths and
their order are those of `grammarFiles_exact`.
-/

namespace GrammarAnalysis

variable {w : Workspace} {walk : Workspace → String → List (Except String Visit)}
  {path : String} {files : List String} {met : List (Except String Visit)}

/-- **A grammar file is visited**: a file with a name that has something before
its ending. -/
structure Visit.IsGrammarFile (v : Visit) : Prop where
  isFile : v.isFile = true
  isSuffix : ".grammar".toList <:+ v.name.toList
  ne_suffix : v.name ≠ ".grammar"

theorem Visit.isGrammarFile_iff {v : Visit} : v.isGrammarFile = true ↔ v.IsGrammarFile := by
  rw [isGrammarFile, Bool.and_eq_true, FileTree.isGrammarName_iff]
  exact ⟨fun ⟨hfile, hsuffix, hne⟩ => ⟨hfile, hsuffix, hne⟩, fun ⟨hfile, hsuffix, hne⟩ =>
    ⟨hfile, hsuffix, hne⟩⟩

instance (v : Visit) : Decidable v.IsGrammarFile :=
  decidable_of_iff _ Visit.isGrammarFile_iff

/-- The paths of the grammar files that are visited. -/
def grammarPaths (visits : List Visit) : List String :=
  (visits.filter (fun v => v.IsGrammarFile)).map Visit.path

/-- **The files to be analysed for a path** on some walk: the path itself if it
is no directory, and otherwise the grammar files that are visited, in this
order. A walk that fails finds nothing. -/
inductive Finds (walk : Workspace → String → List (Except String Visit)) (w : Workspace)
    (path : String) : List String → Prop
  | itself (h : w.isDirectory path = false) : Finds walk w path [path]
  | visited {visits : List Visit} (h : w.isDirectory path = true)
      (hwalk : walk w path = visits.map .ok) :
    Finds walk w path (grammarPaths visits)

theorem grammarFilesOn_map_ok (visits : List Visit) :
    grammarFilesOn (visits.map .ok) = .ok (grammarPaths visits) := by
  induction visits with
  | nil => rfl
  | cons v visits ih =>
    rw [List.map_cons, grammarFilesOn, ih, grammarPaths, grammarPaths, List.filter_cons]
    simp only [Except.map, Visit.isGrammarFile_iff, decide_eq_true_eq]
    split <;> rfl

/-- The first failure on a walk is that of the search. -/
theorem grammarFilesOn_of_failed (visits : List Visit) (message : String)
    (met : List (Except String Visit)) :
    grammarFilesOn (visits.map .ok ++ .error message :: met) = .error message := by
  induction visits with
  | nil => rfl
  | cons v visits ih =>
    rw [List.map_cons, List.cons_append, grammarFilesOn, ih]
    rfl

/-- **A search that succeeds meets no failure.** -/
theorem exists_of_grammarFilesOn (h : grammarFilesOn met = .ok files) :
    ∃ visits : List Visit, met = visits.map .ok := by
  induction met generalizing files with
  | nil => exact ⟨[], rfl⟩
  | cons first met ih =>
    cases first with
    | error message => cases h
    | ok v =>
      cases hrest : grammarFilesOn met with
      | error message =>
        rw [grammarFilesOn, hrest] at h
        cases h
      | ok files' =>
        obtain ⟨visits, rfl⟩ := ih hrest
        exact ⟨v :: visits, rfl⟩

namespace Workspace

/-- **The search returns the files that are found.** -/
theorem search_eq_ok_iff : w.search walk path = .ok files ↔ Finds walk w path files := by
  unfold search
  constructor
  · intro h
    split at h
    · next hdir =>
      obtain ⟨visits, hwalk⟩ := exists_of_grammarFilesOn h
      rw [hwalk, grammarFilesOn_map_ok] at h
      rw [← Except.ok.inj h]
      exact .visited hdir hwalk
    · next hdir =>
      rw [← Except.ok.inj h]
      exact .itself (by simpa using hdir)
  · intro h
    cases h with
    | itself hdir => rw [if_neg (by simp [hdir])]
    | visited hdir hwalk => rw [if_pos hdir, hwalk, grammarFilesOn_map_ok]

end Workspace

theorem Finds.unique {files' : List String} (h : Finds walk w path files)
    (h' : Finds walk w path files') : files = files' :=
  Except.ok.inj ((Workspace.search_eq_ok_iff.mpr h).symm.trans (Workspace.search_eq_ok_iff.mpr h'))

/-! ## The walk through a file tree -/

namespace FileTree

mutual

/-- **The grammar files that are visited** are those of the tree. -/
theorem grammarPaths_visitsAt (path name : String) :
    (tree : FileTree) → grammarPaths (visitsAt path name tree) = grammarFilesAt path name tree
  | file bytes => by
    rw [visitsAt, grammarFilesAt, grammarPaths, List.filter_cons]
    simp only [← Visit.isGrammarFile_iff, Visit.isGrammarFile, Bool.true_and, decide_eq_true_eq]
    split <;> rfl
  | directory entries => by
    -- the directory itself is no file
    have hdirectory : ¬ (⟨path, name, false⟩ : Visit).IsGrammarFile := fun h => nomatch h.isFile
    rw [visitsAt, grammarFilesAt, ← map_visitsOfEntries path entries, sortNamed_map,
      List.flatMap_map, grammarPaths, List.filter_cons_of_neg (by simpa using hdirectory),
      List.filter_flatMap, List.map_flatMap]
    rfl

theorem map_visitsOfEntries (path : String) : (entries : List (String × FileTree)) →
    (visitsOfEntries path entries).map (fun e => (e.1, grammarPaths e.2))
      = grammarFilesOfEntries path entries
  | [] => by rw [visitsOfEntries, grammarFilesOfEntries, List.map_nil]
  | (name, tree) :: rest => by
    rw [visitsOfEntries, grammarFilesOfEntries, List.map_cons, map_visitsOfEntries path rest,
      grammarPaths_visitsAt (joinPath path name) name tree]

end

end FileTree

/-- **What the search finds on the walk through a file tree** are the grammar
files of the tree. -/
theorem Workspace.search_walk (w : Workspace) (path : String) :
    w.search Workspace.walk path = .ok (w.grammarFiles path) := by
  unfold search grammarFiles isDirectory
  cases hfind : w.find path with
  | error fault => rfl
  | ok tree =>
    cases tree with
    | file bytes => rfl
    | directory entries =>
      have hwalk : w.walk path = ((FileTree.directory entries).visitsAt path path).map .ok := by
        rw [walk, hfind]
      rw [if_pos rfl, hwalk, grammarFilesOn_map_ok, FileTree.grammarPaths_visitsAt,
        FileTree.grammarFilesAt]
      rfl

end GrammarAnalysis
