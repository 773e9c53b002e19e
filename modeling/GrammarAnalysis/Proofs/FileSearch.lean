import GrammarAnalysis.FileTree
import GrammarAnalysis.Proofs.ByteOrder
import GrammarAnalysis.Proofs.ProductionText
import GrammarAnalysis.Proofs.WellFormed
import Mathlib.Data.List.Sort

/-!
# What the search for grammar files finds

The search sorts the entries of every directory and puts what is found below
an entry at the place of its name. The files are therefore in the order of
their paths from the directory, compared name by name: all that is below an
entry begins with its name, so the first names decide, and where they are the
same the search below that one entry decides.

`Lists` says this of a list of files: they are the paths with a property, in
this order. The property is that the path leads to a file with the right name
(`LeadsToGrammarFile`), so that a directory is never found but always looked
into. The search is an induction over the tree, with one lemma for what stands
below one entry (`Lists.below`) and one for what stands below one entry and the
others (`Lists.append`).

A file is returned as a path from the working directory. `resolve_join` says
that such a path leads to the file, and so no two files have the same one.
-/

namespace GrammarAnalysis

/-- **A name of a directory entry**: a single component of a path that stands
for nothing else. -/
structure IsEntryName (name : String) : Prop where
  ne_empty : name ≠ ""
  ne_here : name ≠ "."
  ne_above : name ≠ ".."
  slash_notMem : '/' ∉ name.toList

namespace FileTree

/-- **A tree in which names lead to one place**: the entries of a directory
have different names, and each name is a single component of a path. -/
inductive WellNamed : FileTree → Prop
  | file (bytes : ByteArray) : WellNamed (file bytes)
  | directory {entries : List (String × FileTree)} (nodup : (entries.map Prod.fst).Nodup)
      (isEntryName : ∀ e ∈ entries, IsEntryName e.1) (below : ∀ e ∈ entries, WellNamed e.2) :
      WellNamed (directory entries)

/-- **A path leads to a grammar file**: to a file whose name has something
before its ending. -/
def LeadsToGrammarFile (tree : FileTree) (rel : List String) : Prop :=
  (∃ bytes, tree.descend rel = .ok (.file bytes))
    ∧ ∃ name ∈ rel.getLast?, grammarSuffix.toList <:+ name.toList ∧ name ≠ grammarSuffix

/-- The same for a tree that has a name itself, to which the empty path
leads. -/
def FoundAt (name : String) (tree : FileTree) (rel : List String) : Prop :=
  (∃ bytes, tree.descend rel = .ok (.file bytes))
    ∧ isGrammarName (rel.getLast?.getD name) = true

/-- Files at and below `path`, in the order of the names that lead to them: a
list of the paths with a property. -/
def Lists (path : String) (Found : List String → Prop) (files : List String) : Prop :=
  ∃ rels : List (List String), files = rels.map (List.foldl joinPath path)
    ∧ rels.Pairwise (· < ·) ∧ ∀ rel, rel ∈ rels ↔ Found rel

variable {path name : String} {tree t : FileTree} {entries : List (String × FileTree)}
  {rel rest : List String} {files files' : List String} {Found Found' : List String → Prop}

/-! ## Names and paths -/

theorem isGrammarName_iff :
    isGrammarName name = true ↔ grammarSuffix.toList <:+ name.toList ∧ name ≠ grammarSuffix := by
  rw [isGrammarName, Bool.and_eq_true, decide_eq_true_eq, List.isSuffixOf_iff_suffix, and_comm]

/-- **Different names are looked up as they are listed.** -/
theorem lookup_eq_some_iff_mem {α : Type} {l : List (String × α)} (h : (l.map Prod.fst).Nodup)
    {a : α} : l.lookup name = some a ↔ (name, a) ∈ l := by
  induction l with
  | nil => simp
  | cons e l ih =>
    obtain ⟨n, b⟩ := e
    rw [List.map_cons, List.nodup_cons] at h
    rw [List.lookup_cons, List.mem_cons, Prod.mk.injEq]
    by_cases hn : name = n
    · subst hn
      have hnot : (name, a) ∉ l := fun hmem => h.1 (List.mem_map.mpr ⟨_, hmem, rfl⟩)
      simp [hnot, eq_comm]
    · rw [beq_eq_false_iff_ne.mpr hn, ih h.2]
      simp [hn]

theorem descend_cons_eq_ok_iff :
    tree.descend (name :: rest) = .ok t ↔ ∃ entries below, tree = directory entries
      ∧ entries.lookup name = some below ∧ below.descend rest = .ok t := by
  cases tree with
  | file bytes => simp [descend, entry?, bind, Except.bind]
  | directory entries =>
    cases h : entries.lookup name <;> simp [descend, entry?, h, bind, Except.bind]

theorem descend_append {first : List String} :
    tree.descend (first ++ rest) = tree.descend first >>= fun t => t.descend rest := by
  induction first generalizing tree with
  | nil => rfl
  | cons name first ih =>
    simp only [List.cons_append, descend]
    cases tree.entry? name with
    | error e => rfl
    | ok t => exact ih

/-- **What stands below a tree** is named as well as the tree. -/
theorem WellNamed.of_descend (h : tree.WellNamed) (hrel : tree.descend rel = .ok t) :
    (∀ name ∈ rel, IsEntryName name) ∧ t.WellNamed := by
  induction rel generalizing tree with
  | nil =>
    cases hrel
    exact ⟨by simp, h⟩
  | cons name rest ih =>
    obtain ⟨entries, below, rfl, hlookup, hbelow⟩ := descend_cons_eq_ok_iff.mp hrel
    cases h with
    | directory hnodup hentry hwell =>
      have hmem := (lookup_eq_some_iff_mem hnodup).mp hlookup
      obtain ⟨hnames, ht⟩ := ih (hwell _ hmem) hbelow
      exact ⟨List.forall_mem_cons.mpr ⟨hentry _ hmem, hnames⟩, ht⟩

theorem foundAt_file {bytes : ByteArray} :
    FoundAt name (file bytes) rel ↔ rel = [] ∧ isGrammarName name = true := by
  cases rel with
  | nil => simp [FoundAt, descend]
  | cons n rest => simp [FoundAt, descend_cons_eq_ok_iff]

/-- **What is found below a directory** is found below one of its entries. -/
theorem foundAt_directory (h : (entries.map Prod.fst).Nodup) :
    FoundAt name (directory entries) rel ↔
      ∃ e ∈ entries, ∃ rest, rel = e.1 :: rest ∧ FoundAt e.1 e.2 rest := by
  constructor
  · rintro ⟨⟨bytes, hleads⟩, hname⟩
    cases rel with
    | nil => cases hleads
    | cons n rest =>
      obtain ⟨_, t, heq, hlookup, ht⟩ := descend_cons_eq_ok_iff.mp hleads
      cases heq
      rw [List.getLast?_cons] at hname
      exact ⟨(n, t), (lookup_eq_some_iff_mem h).mp hlookup, rest, rfl, ⟨bytes, ht⟩, hname⟩
  · rintro ⟨⟨n, t⟩, hmem, rest, rfl, ⟨bytes, ht⟩, hname⟩
    refine ⟨⟨bytes, descend_cons_eq_ok_iff.mpr
      ⟨entries, t, rfl, (lookup_eq_some_iff_mem h).mpr hmem, ht⟩⟩, ?_⟩
    rwa [List.getLast?_cons]

/-- The name of a directory itself has no part in what is found below it. -/
theorem foundAt_directory_iff :
    FoundAt name (directory entries) rel ↔ (directory entries).LeadsToGrammarFile rel := by
  cases rel with
  | nil => simp [FoundAt, LeadsToGrammarFile, descend]
  | cons n rest =>
    rw [FoundAt, LeadsToGrammarFile, isGrammarName_iff, List.getLast?_cons]
    simp

/-! ## Sorting the entries -/

section Sorting

variable {α β : Type}

/-- **Sorting by names** is insertion sort. -/
theorem sortNamed_eq_insertionSort (l : List (String × α)) :
    sortNamed l = l.insertionSort (fun a b => a.1 ≤ b.1) := by
  have hinsert : ∀ (new : String × α) (l : List (String × α)),
      insertNamed new l = l.orderedInsert (fun a b => a.1 ≤ b.1) new := by
    intro new l
    induction l with
    | nil => rfl
    | cons next l ih =>
      rw [insertNamed, List.orderedInsert, ih]
      by_cases h : next.1 < new.1
      · rw [if_pos h, if_neg (not_le.mpr h)]
      · rw [if_neg h, if_pos (not_lt.mp h)]
  rw [sortNamed, List.insertionSort]
  exact congrArg (fun f => l.foldr f []) (funext fun new => funext (hinsert new))

theorem perm_sortNamed (l : List (String × α)) : (sortNamed l).Perm l := by
  rw [sortNamed_eq_insertionSort]
  exact List.perm_insertionSort _ l

/-- **Different names are sorted strictly.** -/
theorem pairwise_sortNamed {l : List (String × α)} (h : (l.map Prod.fst).Nodup) :
    (sortNamed l).Pairwise (fun a b => a.1 < b.1) := by
  have hle : (sortNamed l).Pairwise (fun a b => a.1 ≤ b.1) := by
    have : Std.Total (fun a b : String × α => a.1 ≤ b.1) := ⟨fun a b => le_total a.1 b.1⟩
    have : IsTrans (String × α) (fun a b => a.1 ≤ b.1) := ⟨fun _ _ _ => le_trans⟩
    rw [sortNamed_eq_insertionSort]
    exact List.pairwise_insertionSort _ l
  have hne : (sortNamed l).Pairwise (fun a b => a.1 ≠ b.1) :=
    List.pairwise_map.mp (((perm_sortNamed l).map Prod.fst).nodup_iff.mpr h)
  exact (hle.and hne).imp fun ⟨hle, hne⟩ => lt_of_le_of_ne hle hne

/-- Only the names have a part in sorting. -/
theorem sortNamed_map (f : String × α → β) (l : List (String × α)) :
    sortNamed (l.map fun e => (e.1, f e)) = (sortNamed l).map fun e => (e.1, f e) := by
  rw [sortNamed_eq_insertionSort, sortNamed_eq_insertionSort]
  exact (List.map_insertionSort (fun a b : String × α => a.1 ≤ b.1)
    (fun a b : String × β => a.1 ≤ b.1) _ l fun _ _ _ _ => Iff.rfl).symm

end Sorting

theorem grammarFilesOfEntries_eq_map (path : String) (entries : List (String × FileTree)) :
    grammarFilesOfEntries path entries
      = entries.map fun e => (e.1, grammarFilesAt (joinPath path e.1) e.1 e.2) := by
  induction entries with
  | nil => rw [grammarFilesOfEntries, List.map_nil]
  | cons e entries ih => rw [grammarFilesOfEntries, List.map_cons, ih]

/-- **The entries are sorted, and each is searched in its turn.** -/
theorem grammarFilesBelow_eq_flatMap (path : String) (entries : List (String × FileTree)) :
    grammarFilesBelow path entries
      = (sortNamed entries).flatMap fun e => grammarFilesAt (joinPath path e.1) e.1 e.2 := by
  rw [grammarFilesBelow, grammarFilesOfEntries_eq_map, sortNamed_map, List.flatMap_map]

/-! ## The search -/

namespace Lists

theorem congr (h : Lists path Found files) (hiff : ∀ rel, Found rel ↔ Found' rel) :
    Lists path Found' files := by
  obtain ⟨rels, hfiles, hsorted, hmem⟩ := h
  exact ⟨rels, hfiles, hsorted, fun rel => (hmem rel).trans (hiff rel)⟩

/-- **What stands below one entry.** -/
theorem below (h : Lists (joinPath path name) Found files) :
    Lists path (fun rel => ∃ rest, rel = name :: rest ∧ Found rest) files := by
  obtain ⟨rels, rfl, hsorted, hmem⟩ := h
  refine ⟨rels.map (name :: ·), ?_, List.pairwise_map.mpr (hsorted.imp fun hlt => ?_),
    fun rel => ?_⟩
  · rw [List.map_map]
    rfl
  · exact List.cons_lt_cons_iff.mpr (Or.inr ⟨rfl, hlt⟩)
  · simp only [List.mem_map, hmem, eq_comm, and_comm]

/-- **One part after another.** -/
theorem append (h : Lists path Found files) (h' : Lists path Found' files')
    (hlt : ∀ rel rel', Found rel → Found' rel' → rel < rel') :
    Lists path (fun rel => Found rel ∨ Found' rel) (files ++ files') := by
  obtain ⟨rels, rfl, hsorted, hmem⟩ := h
  obtain ⟨rels', rfl, hsorted', hmem'⟩ := h'
  refine ⟨rels ++ rels', List.map_append.symm, List.pairwise_append.mpr
    ⟨hsorted, hsorted', fun rel hrel rel' hrel' => ?_⟩, fun rel => ?_⟩
  · exact hlt rel rel' ((hmem rel).mp hrel) ((hmem' rel').mp hrel')
  · rw [List.mem_append, hmem, hmem']

/-- **Entries in the order of their names**: paths below an earlier one come
first, since the names of the entries decide. -/
theorem flatMap {filesOf : String × FileTree → List String}
    {FoundOf : String × FileTree → List String → Prop}
    (hsorted : entries.Pairwise (fun a b => a.1 < b.1))
    (h : ∀ e ∈ entries, Lists (joinPath path e.1) (FoundOf e) (filesOf e)) :
    Lists path (fun rel => ∃ e ∈ entries, ∃ rest, rel = e.1 :: rest ∧ FoundOf e rest)
      (entries.flatMap filesOf) := by
  induction entries with
  | nil => exact ⟨[], rfl, .nil, by simp⟩
  | cons e entries ih =>
    rw [List.pairwise_cons] at hsorted
    have hfirst := (h e List.mem_cons_self).below
    have hothers := ih hsorted.2 fun e' he' => h e' (List.mem_cons_of_mem e he')
    rw [List.flatMap_cons]
    refine (hfirst.append hothers ?_).congr fun rel => by simp
    rintro _ _ ⟨rest, rfl, -⟩ ⟨e', he', rest', rfl, -⟩
    exact List.cons_lt_cons_iff.mpr (Or.inl (hsorted.1 e' he'))

end Lists

/-- **The search finds what there is to be found**, in order. -/
theorem lists_grammarFilesAt (h : tree.WellNamed) (path name : String) :
    Lists path (FoundAt name tree) (grammarFilesAt path name tree) := by
  induction h generalizing path name with
  | file bytes =>
    rw [grammarFilesAt]
    by_cases hname : isGrammarName name = true
    · refine ⟨[[]], by rw [if_pos hname]; rfl, List.pairwise_singleton .., fun rel => ?_⟩
      rw [foundAt_file, List.mem_singleton, and_iff_left hname]
    · refine ⟨[], by rw [if_neg hname]; rfl, .nil, fun rel => ?_⟩
      rw [foundAt_file]
      simp [hname]
  | @directory entries hnodup _ _ ih =>
    have hsorted := Lists.flatMap (pairwise_sortNamed hnodup) fun e he =>
      ih e ((perm_sortNamed entries).mem_iff.mp he) (joinPath path e.1) e.1
    rw [← grammarFilesBelow_eq_flatMap] at hsorted
    refine hsorted.congr fun rel => ?_
    rw [foundAt_directory hnodup]
    simp only [(perm_sortNamed entries).mem_iff]

end FileTree

/-! ## Where a path leads -/

namespace Workspace

open FileTree

variable {w : Workspace} {path name : String} {tree t : FileTree}
  {entries : List (String × FileTree)} {place before names rel : List String}

/-- **The components of a path**: the text between its slashes. -/
def componentsOf (path : String) : List String :=
  (splitWhere (· == '/') path.toList).map String.ofList

/-- The place that a path starts from: the root if it begins with a slash. -/
def origin (w : Workspace) (path : String) : List String :=
  if path.toList.head? = some '/' then [] else w.current

theorem components_cons (c : Char) (l : List Char) :
    components (c :: l) =
      if c = '/' then ([], String.ofList (components l).1 :: (components l).2)
      else (c :: (components l).1, (components l).2) :=
  rfl

theorem componentsOf_eq : componentsOf path
    = String.ofList (components path.toList).1 :: (components path.toList).2 := by
  unfold componentsOf
  induction path.toList with
  | nil => rfl
  | cons c l ih =>
    rw [components_cons]
    split
    · next hc =>
      rw [splitWhere_cons_of_pos l (by simp [hc]), List.map_cons, ih]
    · next hc =>
      have hnot : (c == '/') = false := beq_eq_false_iff_ne.mpr hc
      obtain ⟨piece, rest, hl, hcl⟩ := @splitWhere_cons_of_neg _ (· == '/') c l hnot
      rw [hl, List.map_cons, List.cons.injEq] at ih
      rw [hcl, List.map_cons, ← ih.2, ← String.ofList_injective ih.1]

theorem follow_append : w.follow place (before ++ names)
    = w.follow place before >>= fun place' => w.follow place' names := by
  induction before generalizing place with
  | nil => rfl
  | cons component before ih =>
    rw [List.cons_append, follow, follow]
    cases w.root.descend place with
    | error e => rfl
    | ok tree =>
      cases tree with
      | file bytes => rfl
      | directory entries =>
        simp only [bind, Except.bind]
        split_ifs
        · exact ih
        · exact ih
        · exact ih
        · rfl

/-- **A path is followed by its components**, from the root or from the
working directory. -/
theorem resolve_eq_follow (hne : path ≠ "") :
    w.resolve path = w.follow (w.origin path) (componentsOf path) := by
  rw [componentsOf_eq, resolve, origin]
  obtain ⟨c, l, hpath⟩ := List.exists_cons_of_ne_nil (mt String.toList_eq_nil_iff.mp hne)
  rw [hpath, components_cons, List.head?_cons]
  by_cases hc : c = '/'
  · rw [if_pos hc, if_pos (congrArg some hc)]
    -- before the first slash is an empty component, which leads nowhere else
    simp only [String.ofList_nil, follow, descend, bind, Except.bind]
    cases w.root <;> simp
  · rw [if_neg hc, if_neg (mt Option.some.inj hc)]

theorem follow_entry (hdir : w.root.descend place = .ok (.directory entries))
    (hname : IsEntryName name) (hlookup : entries.lookup name = some t) :
    w.follow place [name] = .ok (place ++ [name]) := by
  simp [follow, hdir, hname.ne_empty, hname.ne_here, hname.ne_above, hlookup, bind, Except.bind]

/-- An empty component leads nowhere else. -/
theorem of_follow_append_empty (h : w.follow place (before ++ [""]) = .ok names) :
    w.follow place before = .ok names := by
  rw [follow_append] at h
  obtain ⟨place', hplace', h⟩ := bind_eq_ok.mp h
  obtain ⟨tree, -, h⟩ := bind_eq_ok.mp h
  rw [hplace']
  cases tree with
  | file bytes => cases h
  | directory entries => exact h

/-- **The components of the path of an entry.** A slash at the end of the path
of the directory makes an empty component, which is replaced. -/
theorem componentsOf_joinPath (path : String) (hname : '/' ∉ name.toList) :
    ∃ before, (componentsOf path = before ∨ componentsOf path = before ++ [""])
      ∧ componentsOf (joinPath path name) = before ++ [name] := by
  have hsplit : ∀ l m : List Char, '/' ∉ m →
      (splitWhere (· == '/') (l ++ '/' :: m)).map String.ofList
        = (splitWhere (· == '/') l).map String.ofList ++ [String.ofList m] := by
    intro l m hm
    have hfree : ∀ c ∈ m, (c == '/') = false := fun c hc =>
      beq_eq_false_iff_ne.mpr fun heq => hm (heq ▸ hc)
    rw [splitWhere_eq_splitOnP, splitWhere_eq_splitOnP, List.splitOnP_append_cons _ _ (by rfl),
      List.splitOnP_eq_singleton hfree, List.map_append, List.map_singleton]
  unfold joinPath
  split
  · next hlast =>
    obtain ⟨l, hl⟩ := List.getLast?_eq_some_iff.mp hlast
    refine ⟨(splitWhere (· == '/') l).map String.ofList, Or.inr ?_, ?_⟩
    · rw [componentsOf, hl, hsplit l [] (by simp)]
    · rw [componentsOf, String.toList_append, hl, List.append_assoc, List.singleton_append,
        hsplit l _ hname, String.ofList_toList]
  · refine ⟨componentsOf path, Or.inl rfl, ?_⟩
    rw [componentsOf, String.toList_append, String.toList_append, List.append_assoc]
    exact (hsplit path.toList _ hname).trans (by rw [String.ofList_toList]; rfl)

theorem head?_joinPath (hne : path ≠ "") :
    (joinPath path name).toList.head? = path.toList.head? := by
  obtain ⟨c, l, hpath⟩ := List.exists_cons_of_ne_nil (mt String.toList_eq_nil_iff.mp hne)
  unfold joinPath
  split <;> simp [hpath]

/-- **The path of an entry leads to the entry.** -/
theorem resolve_joinPath (hpath : w.resolve path = .ok place)
    (hdir : w.root.descend place = .ok (.directory entries)) (hname : IsEntryName name)
    (hlookup : entries.lookup name = some t) :
    w.resolve (joinPath path name) = .ok (place ++ [name]) := by
  have hne : path ≠ "" := by
    rintro rfl
    cases hpath
  have hhead : (joinPath path name).toList.head? = path.toList.head? := head?_joinPath hne
  have hne' : joinPath path name ≠ "" := by
    intro heq
    rw [heq] at hhead
    exact hne (String.toList_eq_nil_iff.mp (List.head?_eq_none_iff.mp hhead.symm))
  rw [resolve_eq_follow hne] at hpath
  obtain ⟨before, hbefore, hjoin⟩ := componentsOf_joinPath path hname.slash_notMem
  have hfollow : w.follow (w.origin path) before = .ok place := by
    obtain heq | heq := hbefore
    · rwa [heq] at hpath
    · rw [heq] at hpath
      exact of_follow_append_empty hpath
  rw [resolve_eq_follow hne', hjoin, follow_append, origin, hhead, ← origin, hfollow]
  exact follow_entry hdir hname hlookup

/-- **A path joined with a path below it** leads through both. -/
theorem resolve_foldl_joinPath (hpath : w.resolve path = .ok place)
    (htree : w.root.descend place = .ok tree) (hnamed : tree.WellNamed)
    (hrel : tree.descend rel = .ok t) :
    w.resolve (rel.foldl joinPath path) = .ok (place ++ rel) := by
  induction rel generalizing path place tree with
  | nil => rw [List.foldl_nil, List.append_nil, hpath]
  | cons name rest ih =>
    obtain ⟨entries, below, rfl, hlookup, hbelow⟩ := descend_cons_eq_ok_iff.mp hrel
    cases hnamed with
    | directory hnodup hentry hwell =>
      have hmem := (lookup_eq_some_iff_mem hnodup).mp hlookup
      have hstep := resolve_joinPath hpath htree (hentry _ hmem) hlookup
      have hplace : w.root.descend (place ++ [name]) = .ok below := by
        rw [descend_append, htree]
        exact descend_cons_eq_ok_iff.mpr ⟨entries, below, rfl, hlookup, rfl⟩
      rw [List.foldl_cons, ih hstep hplace (hwell _ hmem) hbelow, List.append_assoc,
        List.singleton_append]

theorem joinPath_append (path name more : String) :
    joinPath path (name ++ more) = joinPath path name ++ more := by
  unfold joinPath
  split <;> simp only [String.append_assoc]

/-- The path of an entry does not end with a slash. -/
theorem getLast?_joinPath_ne (hname : IsEntryName name) :
    (joinPath path name).toList.getLast? ≠ some '/' := by
  have hne : name.toList ≠ [] := mt String.toList_eq_nil_iff.mp hname.ne_empty
  intro hlast
  refine hname.slash_notMem (List.mem_of_getLast? ?_)
  unfold joinPath at hlast
  split at hlast
  · rwa [String.toList_append, List.getLast?_append_of_ne_nil _ hne] at hlast
  · rwa [String.toList_append, List.getLast?_append_of_ne_nil _ hne] at hlast

/-- Names are joined one after another, or all at once. -/
theorem foldl_joinPath (hnames : ∀ name ∈ rel, IsEntryName name) (hne : rel ≠ []) :
    rel.foldl joinPath path = joinPath path ("/".intercalate rel) := by
  induction rel generalizing path with
  | nil => exact absurd rfl hne
  | cons name rest ih =>
    cases rest with
    | nil => rw [List.foldl_cons, List.foldl_nil, String.intercalate_singleton]
    | cons next rest =>
      have hname := hnames name List.mem_cons_self
      have hlast : (joinPath path name).toList.getLast? ≠ some '/' := getLast?_joinPath_ne hname
      rw [List.foldl_cons, ih (fun n hn => hnames n (List.mem_cons_of_mem _ hn)) (by simp),
        String.intercalate_cons_cons, String.append_assoc, joinPath_append, joinPath, if_neg hlast,
        String.append_assoc]

/-! ## The files that are found -/

theorem find_eq_ok_iff : w.find path = .ok t ↔
    ∃ place, w.resolve path = .ok place ∧ w.root.descend place = .ok t :=
  bind_eq_ok

/-- **What the search returns.** A path that is no directory is returned as it
is. For a directory the result is the list of all paths from there that lead to
a file at any depth whose name ends in `.grammar` and has something before
that, each joined to the path of the directory and leading to the file. They
are in strictly ascending order, compared name by name by the bytes of the
names, and no path is returned twice. -/
theorem grammarFiles_exact (hroot : w.root.WellNamed) (path : String) :
    (w.isDirectory path = false → w.grammarFiles path = [path])
      ∧ ∀ entries, w.find path = .ok (.directory entries) →
        ∃ rels : List (List String),
          w.grammarFiles path = rels.map (fun rel => joinPath path ("/".intercalate rel))
            ∧ rels.Pairwise (fun rel rel' => rel.map utf8Bytes < rel'.map utf8Bytes)
            ∧ (∀ rel, rel ∈ rels ↔ (FileTree.directory entries).LeadsToGrammarFile rel)
            ∧ (w.grammarFiles path).Nodup
            ∧ ∀ rel ∈ rels, ∃ bytes, (FileTree.directory entries).descend rel = .ok (.file bytes)
              ∧ w.find (joinPath path ("/".intercalate rel)) = .ok (.file bytes) := by
  refine ⟨fun hnot => ?_, fun entries hfind => ?_⟩
  · unfold isDirectory at hnot
    unfold grammarFiles
    split
    · next heq =>
      rw [heq] at hnot
      cases hnot
    · rfl
  obtain ⟨place, hplace, hdir⟩ := find_eq_ok_iff.mp hfind
  have hnamed : (FileTree.directory entries).WellNamed := (hroot.of_descend hdir).2
  obtain ⟨rels, hfiles, hsorted, hmem⟩ :=
    (lists_grammarFilesAt hnamed path "").congr fun rel => foundAt_directory_iff
  have hgrammarFiles : w.grammarFiles path = rels.map (List.foldl joinPath path) := by
    rw [← hfiles, grammarFiles, hfind]
    rfl
  have hresolve : ∀ rel ∈ rels, w.resolve (rel.foldl joinPath path) = .ok (place ++ rel) := by
    intro rel hrel
    obtain ⟨⟨bytes, hleads⟩, -⟩ := (hmem rel).mp hrel
    exact resolve_foldl_joinPath hplace hdir hnamed hleads
  have hjoin : ∀ rel ∈ rels, rel.foldl joinPath path = joinPath path ("/".intercalate rel) := by
    intro rel hrel
    obtain ⟨⟨bytes, hleads⟩, name, hname, -⟩ := (hmem rel).mp hrel
    have hne := List.ne_nil_of_mem (List.mem_of_getLast? hname)
    exact foldl_joinPath (hnamed.of_descend hleads).1 hne
  refine ⟨rels, ?_, hsorted.imp map_utf8Bytes_lt, hmem, ?_, fun rel hrel => ?_⟩
  · rw [hgrammarFiles]
    exact List.map_congr_left hjoin
  · -- different names lead to different places
    rw [hgrammarFiles]
    refine List.Nodup.map_on (fun rel hrel rel' hrel' heq => ?_) (hsorted.imp ne_of_lt)
    have hplace := hresolve rel hrel
    rw [heq, hresolve rel' hrel'] at hplace
    exact List.append_cancel_left (Except.ok.inj hplace).symm
  · obtain ⟨⟨bytes, hleads⟩, -⟩ := (hmem rel).mp hrel
    refine ⟨bytes, hleads, find_eq_ok_iff.mpr ⟨place ++ rel, ?_, ?_⟩⟩
    · rw [← hjoin rel hrel, hresolve rel hrel]
    · rw [descend_append, hdir]
      exact hleads

/-- A directory with the names that the search tells apart. -/
def namesakes : List (String × FileTree) :=
  [("a.grammar", .file .empty), ("x.grammar", .directory [("b.grammar", .file .empty)]),
    (".grammar", .file .empty), ("a", .directory [("b.grammar", .file .empty)])]

theorem wellNamed_namesakes : (FileTree.directory namesakes).WellNamed := by
  have hb : (FileTree.directory [("b.grammar", .file .empty)]).WellNamed := by
    refine .directory (by decide) (fun e he => ?_) fun e he => ?_
    · rw [List.mem_singleton.mp he]
      exact ⟨by decide, by decide, by decide, by decide⟩
    · rw [List.mem_singleton.mp he]
      exact .file _
  refine .directory (by decide) ?_ ?_
  · simp only [namesakes, List.forall_mem_cons]
    refine ⟨?_, ?_, ?_, ?_, nofun⟩ <;> exact ⟨by decide, by decide, by decide, by decide⟩
  · simp only [namesakes, List.forall_mem_cons]
    exact ⟨.file _, hb, .file _, hb, nofun⟩

/-- The directory `x.grammar` is looked into and not returned, and what is below
`a` comes before `a.grammar`. -/
theorem grammarFiles_exact_namesakes :
    let w : Workspace := ⟨.directory namesakes, [], "/"⟩
    w.root.WellNamed ∧ w.grammarFiles "a.grammar" = ["a.grammar"]
      ∧ ∃ rels : List (List String),
        w.grammarFiles "." = rels.map (fun rel => joinPath "." ("/".intercalate rel))
          ∧ rels.Pairwise (fun rel rel' => rel.map utf8Bytes < rel'.map utf8Bytes)
          ∧ ["x.grammar", "b.grammar"] ∈ rels ∧ ["x.grammar"] ∉ rels ∧ [".grammar"] ∉ rels := by
  intro w
  obtain ⟨hfile, -⟩ := grammarFiles_exact (w := w) wellNamed_namesakes "a.grammar"
  obtain ⟨-, hdir⟩ := grammarFiles_exact (w := w) wellNamed_namesakes "."
  obtain ⟨rels, hfiles, hsorted, hmem, -⟩ := hdir namesakes rfl
  refine ⟨wellNamed_namesakes, hfile rfl, rels, hfiles, hsorted, ?_, ?_, ?_⟩
  · exact (hmem _).mpr ⟨⟨.empty, rfl⟩, "b.grammar", rfl, by decide, by decide⟩
  · rw [hmem]
    rintro ⟨⟨bytes, hfound⟩, -⟩
    cases hfound
  · rw [hmem]
    rintro ⟨-, name, hname, -, hne⟩
    exact hne (Option.mem_some.mp hname).symm

example : Workspace.grammarFiles ⟨.directory namesakes, [], "/"⟩ "."
    = ["./a/b.grammar", "./a.grammar", "./x.grammar/b.grammar"] := by decide

end Workspace

end GrammarAnalysis
