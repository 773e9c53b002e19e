import GrammarAnalysis.CommandLine.Libraries
import GrammarAnalysis.Proofs.WellFormed
import Mathlib.Data.List.Basic

/-!
# How arguments are written

An option is written after two dashes by its long name, or after one dash by
its character. Characters of options without a value may be written together.
A value stands behind an equals sign after a long name, directly behind a
character, or in the argument that follows. All that does not begin with a dash
is free, and so is a lone dash, and everything behind `--`.

`IsWritten` says this as a relation between a list of arguments and the options
and free arguments that are written there, without a word about how they are
read. That is what the documentation of a library for options promises to read
(`Libraries.ReadsOptions`), and what `readArguments` reads
(`readArguments_eq_ok_iff`): one lemma takes apart the options of one argument,
or of two if a value follows, and an induction goes through the list.
-/

namespace GrammarAnalysis.CommandLine

variable {o : OptionName} {name value argument : String} {arguments rest written : List String}
  {flags : List OptionName} {occurrences : List Occurrence} {a : Arguments} {cs : List Char}

/-! ## Options and free arguments -/

/-- **The names of an option** after two dashes: its long name, or its
character. -/
def OptionName.IsNamed (o : OptionName) (name : String) : Prop :=
  name = o.long ∨ name = String.ofList [o.short]

/-- **A free argument**: it does not begin with a dash, or there is nothing
behind the dash. -/
def IsFree (argument : String) : Prop :=
  argument.toList.head? ≠ some '-' ∨ argument = "-"

/-- Options without a value as a list of occurrences. -/
def flagged (flags : List OptionName) : List Occurrence :=
  flags.map fun o => ⟨o, none⟩

/-- The characters of options. -/
def characters (flags : List OptionName) : String :=
  String.ofList (flags.map OptionName.short)

/-- **How options are written** in one argument, or in two if a value follows. -/
inductive Writes : List String → List Occurrence → Prop
  | long {o : OptionName} {name : String} (hname : o.IsNamed name) (ho : o.takesValue = false) :
    Writes ["--" ++ name] [⟨o, none⟩]
  | longAssigned {o : OptionName} {name : String} (hname : o.IsNamed name)
      (ho : o.takesValue = true) (value : String) :
    Writes ["--" ++ name ++ "=" ++ value] [⟨o, some value⟩]
  | longFollowed {o : OptionName} {name : String} (hname : o.IsNamed name)
      (ho : o.takesValue = true) (value : String) :
    Writes ["--" ++ name, value] [⟨o, some value⟩]
  | short {flags : List OptionName} (hne : flags ≠ [])
      (hflags : ∀ o ∈ flags, o.takesValue = false) :
    Writes ["-" ++ characters flags] (flagged flags)
  | shortAttached {flags : List OptionName} {o : OptionName} {value : String}
      (hflags : ∀ o ∈ flags, o.takesValue = false) (ho : o.takesValue = true)
      (hvalue : value ≠ "") :
    Writes ["-" ++ characters (flags ++ [o]) ++ value] (flagged flags ++ [⟨o, some value⟩])
  | shortFollowed {flags : List OptionName} {o : OptionName}
      (hflags : ∀ o ∈ flags, o.takesValue = false) (ho : o.takesValue = true) (value : String) :
    Writes ["-" ++ characters (flags ++ [o]), value] (flagged flags ++ [⟨o, some value⟩])

/-- **How arguments are written**: options and free arguments in any order, up
to two dashes, behind which all is free. -/
inductive IsWritten : List String → Arguments → Prop
  | nil : IsWritten [] .empty
  | free {argument : String} {arguments : List String} {a : Arguments} (h : IsFree argument)
      (hrest : IsWritten arguments a) : IsWritten (argument :: arguments) (a.withFree argument)
  | endOfOptions (arguments : List String) : IsWritten ("--" :: arguments) ⟨[], arguments⟩
  | options {written arguments : List String} {occurrences : List Occurrence} {a : Arguments}
      (h : Writes written occurrences) (hrest : IsWritten arguments a) :
    IsWritten (written ++ arguments) (a.withOptions occurrences)

namespace Arguments

/-- **No option is repeated** that may be given only once. -/
def IsUnrepeated (a : Arguments) : Prop :=
  ∀ o, OptionName.isRepeatable o = false → a.count o ≤ 1

/-- **What arguments ask for**, by the options among them. -/
structure Asks (a : Arguments) (request : Request) : Prop where
  help : request.help = true ↔ ∃ value, ⟨.help, value⟩ ∈ a.options
  verbosity : request.verbosity = a.count .verbose
  mode : ∀ name, request.mode = some name ↔ ⟨.mode, some name⟩ ∈ a.options
  input : ∀ text, request.input = some text ↔ ⟨.input, some text⟩ ∈ a.options
  free : request.free = a.free

end Arguments

/-- **Options are read as they are documented**: arguments that are written as
described ask for what the options in them say, and no others can be read. -/
structure Libraries.ReadsOptions (libraries : Libraries) : Prop where
  reads : ∀ {arguments a}, IsWritten arguments a → a.IsUnrepeated →
    ∃ request, libraries.read arguments = .ok request ∧ a.Asks request
  refuses : ∀ {arguments}, (∀ a, IsWritten arguments a → ¬ a.IsUnrepeated) →
    ∃ message, libraries.read arguments = .error message

/-! ## Names of options -/

theorem OptionName.ofSpelling?_short {c : Char} :
    ofSpelling? (.short c) = some o ↔ o.short = c := by
  constructor
  · intro h
    simpa [ofSpelling?] using List.find?_some h
  · rintro rfl
    cases o <;> rfl

theorem OptionName.ofSpelling?_ofName : ofSpelling? (.ofName name) = some o ↔ o.IsNamed name := by
  constructor
  · intro h
    unfold Spelling.ofName at h
    split at h
    · next c hc =>
      split at h
      · rw [ofSpelling?_short] at h
        exact Or.inr (by rw [h, ← hc, String.ofList_toList])
      · exact Or.inl (by simpa [ofSpelling?, eq_comm] using List.find?_some h)
    · exact Or.inl (by simpa [ofSpelling?, eq_comm] using List.find?_some h)
  · rintro (rfl | rfl)
    · cases o <;> decide
    · cases o <;> decide

theorem OptionName.IsNamed.ne_empty (h : o.IsNamed name) : name ≠ "" := by
  obtain rfl | rfl := h
  · cases o <;> decide
  · cases o <;> decide

theorem OptionName.IsNamed.equals_notMem (h : o.IsNamed name) : '=' ∉ name.toList := by
  obtain rfl | rfl := h
  · cases o <;> decide
  · cases o <;> decide

theorem OptionName.short_ne_dash (o : OptionName) : o.short ≠ '-' := by
  cases o <;> decide

/-! ## What one argument is -/

namespace Argument

theorem ofString_of_isFree (h : IsFree argument) : ofString argument = .free := by
  obtain h | rfl := h
  · unfold ofString
    split
    · next heq => exact absurd (by rw [heq]; rfl) h
    · next heq => exact absurd (by rw [heq]; rfl) h
    · next heq => exact absurd (by rw [heq]; rfl) h
    · rfl
  · rfl

/-- A name without an equals sign ends where an equals sign stands. -/
theorem takeWhile_name (hname : '=' ∉ cs) (behind : List Char) :
    (cs ++ behind).takeWhile (· ≠ '=') = cs ++ behind.takeWhile (· ≠ '=') :=
  List.takeWhile_append_of_pos fun _ hc => decide_eq_true fun heq => hname (heq ▸ hc)

theorem dropWhile_name (hname : '=' ∉ cs) (behind : List Char) :
    (cs ++ behind).dropWhile (· ≠ '=') = behind.dropWhile (· ≠ '=') :=
  List.dropWhile_append_of_pos fun _ hc => decide_eq_true fun heq => hname (heq ▸ hc)

theorem ofString_long (hne : name ≠ "") (hname : '=' ∉ name.toList) :
    ofString ("--" ++ name) = .long name none := by
  have hlist : ("--" ++ name).toList = '-' :: '-' :: name.toList := String.toList_append ..
  obtain ⟨c, cs, hcs⟩ := List.exists_cons_of_ne_nil (mt String.toList_eq_nil_iff.mp hne)
  unfold ofString
  rw [hlist, hcs]
  show Argument.long _ _ = _
  rw [← hcs, ← List.append_nil name.toList, takeWhile_name hname, dropWhile_name hname]
  simp

theorem ofString_longAssigned (hname : '=' ∉ name.toList) (value : String) :
    ofString ("--" ++ name ++ "=" ++ value) = .long name (some value) := by
  have hlist : ("--" ++ name ++ "=" ++ value).toList
      = '-' :: '-' :: (name.toList ++ '=' :: value.toList) := by
    simp
  obtain ⟨c, cs, hcs⟩ := List.exists_cons_of_ne_nil
    (by simp : name.toList ++ '=' :: value.toList ≠ [])
  unfold ofString
  rw [hlist, hcs]
  show Argument.long _ _ = _
  rw [← hcs, takeWhile_name hname, dropWhile_name hname]
  simp

theorem ofString_cluster {c : Char} (hc : c ≠ '-') :
    ofString ("-" ++ String.ofList (c :: cs)) = .cluster (c :: cs) := by
  have hlist : ("-" ++ String.ofList (c :: cs)).toList = '-' :: c :: cs := by simp
  unfold ofString
  rw [hlist]
  split
  · next heq => exact absurd (List.cons.inj (List.cons.inj heq).2).1 hc
  · next heq => exact absurd (List.cons.inj (List.cons.inj heq).2).1 hc
  · next heq => rw [(List.cons.inj heq).2]
  · next hcluster => exact absurd rfl (hcluster c cs)

/-- **What an argument can be**, and what it is then taken for. -/
theorem cases (argument : String) :
    (IsFree argument ∧ ofString argument = .free)
      ∨ (argument = "--" ∧ ofString argument = .endOfOptions)
      ∨ (∃ name, argument = "--" ++ name ∧ ofString argument = .long name none)
      ∨ (∃ name value, argument = "--" ++ name ++ "=" ++ value
          ∧ ofString argument = .long name (some value))
      ∨ ∃ cs, cs ≠ [] ∧ argument = "-" ++ String.ofList cs ∧ ofString argument = .cluster cs := by
  by_cases hfree : IsFree argument
  · exact Or.inl ⟨hfree, ofString_of_isFree hfree⟩
  refine Or.inr ?_
  obtain ⟨hhead, hne⟩ := not_or.mp hfree
  obtain ⟨rest, hrest⟩ := List.head?_eq_some_iff.mp (not_not.mp hhead)
  obtain rfl : argument = "-" ++ String.ofList rest := String.toList_injective (by simp [hrest])
  cases rest with
  | nil => exact absurd rfl hne
  | cons c rest =>
    by_cases hc : c = '-'
    · subst hc
      have hdashes : "-" ++ String.ofList ('-' :: rest) = "--" ++ String.ofList rest :=
        String.toList_injective (by simp)
      rw [hdashes]
      by_cases hequals : '=' ∈ rest
      · obtain ⟨name, value, rfl, hname⟩ := List.eq_append_cons_of_mem hequals
        have hassigned : "--" ++ String.ofList (name ++ '=' :: value)
            = "--" ++ String.ofList name ++ "=" ++ String.ofList value :=
          String.toList_injective (by simp)
        rw [hassigned]
        exact Or.inr (Or.inr (Or.inl ⟨_, _, rfl, ofString_longAssigned (by simpa using hname) _⟩))
      · by_cases hnil : rest = []
        · subst hnil
          exact Or.inl ⟨rfl, rfl⟩
        · have hname : String.ofList rest ≠ "" := fun h => hnil (String.ofList_injective h)
          exact Or.inr (Or.inl ⟨_, rfl, ofString_long hname (by simpa using hequals)⟩)
    · exact Or.inr (Or.inr (Or.inr ⟨c :: rest, by simp, rfl, ofString_cluster hc⟩))

theorem isFree_of_ofString (h : ofString argument = .free) : IsFree argument := by
  obtain ⟨hfree, -⟩ | ⟨-, hof⟩ | ⟨_, -, hof⟩ | ⟨_, _, -, hof⟩ | ⟨_, -, -, hof⟩ := cases argument
  · exact hfree
  all_goals cases hof.symm.trans h

theorem eq_of_ofString (h : ofString argument = .endOfOptions) : argument = "--" := by
  obtain ⟨-, hof⟩ | ⟨heq, -⟩ | ⟨_, -, hof⟩ | ⟨_, _, -, hof⟩ | ⟨_, -, -, hof⟩ := cases argument
  · cases hof.symm.trans h
  · exact heq
  all_goals cases hof.symm.trans h

end Argument

/-! ## The options of one argument -/

theorem append_characters (flags : List OptionName) (value : List Char) :
    "-" ++ characters flags ++ String.ofList value
      = "-" ++ String.ofList (flags.map OptionName.short ++ value) := by
  rw [characters, String.append_assoc, String.ofList_append]

theorem ofString_characters_append (hne : flags ≠ []) (value : String) :
    Argument.ofString ("-" ++ characters flags ++ value)
      = .cluster (flags.map OptionName.short ++ value.toList) := by
  obtain ⟨o, flags, rfl⟩ := List.exists_cons_of_ne_nil hne
  have htext := append_characters (o :: flags) value.toList
  rw [String.ofList_toList] at htext
  rw [htext]
  exact Argument.ofString_cluster o.short_ne_dash

theorem ofString_characters (hne : flags ≠ []) :
    Argument.ofString ("-" ++ characters flags) = .cluster (flags.map OptionName.short) := by
  simpa using ofString_characters_append hne ""

/-- **Options written together** are read one after another, up to one with a
value. -/
theorem readCluster_eq_ok_iff {reading : ClusterReading} :
    readCluster cs = .ok reading ↔ ∃ flags, (∀ o ∈ flags, OptionName.takesValue o = false)
      ∧ reading.flags = flagged flags
      ∧ (cs = flags.map OptionName.short ∧ reading.last = none
        ∨ ∃ o value, OptionName.takesValue o = true
          ∧ cs = flags.map OptionName.short ++ o.short :: value
          ∧ reading.last = some (o.short, o,
            if value = [] then none else some (String.ofList value))) := by
  induction cs generalizing reading with
  | nil =>
    obtain ⟨occurrences, last⟩ := reading
    constructor
    · intro h
      cases h
      exact ⟨[], by simp, rfl, Or.inl ⟨rfl, rfl⟩⟩
    · rintro ⟨flags, -, hflags, ⟨hcs, hlast⟩ | ⟨o, value, -, hcs, -⟩⟩
      · obtain rfl := List.map_eq_nil_iff.mp hcs.symm
        obtain rfl : occurrences = [] := hflags
        obtain rfl : last = none := hlast
        rfl
      · simp at hcs
  | cons c cs ih =>
    obtain ⟨occurrences, last⟩ := reading
    constructor
    · intro h
      rw [readCluster] at h
      split at h
      · cases h
      next o ho =>
      obtain rfl := OptionName.ofSpelling?_short.mp ho
      split at h
      · next htakes =>
        cases h
        exact ⟨[], by simp, rfl, Or.inr ⟨o, cs, htakes, rfl, rfl⟩⟩
      · next htakes =>
        obtain ⟨reading, hreading, h⟩ := bind_eq_ok.mp h
        cases h
        obtain ⟨flags, hnone, hflags, hrest⟩ := ih.mp hreading
        refine ⟨o :: flags, List.forall_mem_cons.mpr ⟨by simpa using htakes, hnone⟩, ?_, ?_⟩
        · exact congrArg (⟨o, none⟩ :: ·) hflags
        · simpa using hrest
    · rintro ⟨flags, hnone, hflags, hrest⟩
      cases flags with
      | nil =>
        obtain ⟨hcs, -⟩ | ⟨o, value, htakes, hcs, hlast⟩ := hrest
        · cases hcs
        · obtain ⟨rfl, rfl⟩ := List.cons.inj hcs
          obtain rfl : occurrences = [] := hflags
          obtain rfl : last = _ := hlast
          rw [readCluster, OptionName.ofSpelling?_short.mpr rfl]
          exact if_pos htakes
      | cons o flags =>
        rw [List.forall_mem_cons] at hnone
        obtain rfl : occurrences = ⟨o, none⟩ :: flagged flags := hflags
        have hc : c = o.short := by
          obtain ⟨hcs, -⟩ | ⟨o', value, -, hcs, -⟩ := hrest
          · exact (List.cons.inj hcs).1
          · exact (List.cons.inj hcs).1
        subst hc
        have hreading : readCluster cs = .ok ⟨flagged flags, last⟩ :=
          ih.mpr ⟨flags, hnone.2, rfl, by simpa using hrest⟩
        rw [readCluster, OptionName.ofSpelling?_short.mpr rfl, hreading]
        exact if_neg (by simp [hnone.1])

/-- **Gives a value**: the one at hand, or the next argument. -/
theorem takeValue_eq_ok_iff {value? : Option String} {spelling : String} {occurrence : Occurrence}
    {arguments rest : List String} :
    takeValue o spelling value? arguments = .ok (occurrence, rest) ↔
      ∃ value, occurrence = ⟨o, some value⟩
        ∧ (value? = some value ∧ arguments = rest ∨ value? = none ∧ arguments = value :: rest) := by
  cases value? with
  | some value => simp [takeValue, eq_comm]
  | none => cases arguments <;> simp [takeValue, eq_comm]

theorem exists_writes_of_long
    (h : readOption (.long name none) arguments = .ok (occurrences, rest)) :
    ∃ written, Writes written occurrences ∧ ("--" ++ name) :: arguments = written ++ rest := by
  rw [readOption] at h
  split at h
  · cases h
  next o ho =>
  have hname := OptionName.ofSpelling?_ofName.mp ho
  split at h
  · next htakes =>
    obtain ⟨⟨occurrence, rest'⟩, htake, h⟩ := bind_eq_ok.mp h
    cases h
    obtain ⟨value, rfl, ⟨hvalue, -⟩ | ⟨-, rfl⟩⟩ := takeValue_eq_ok_iff.mp htake
    · cases hvalue
    · exact ⟨_, .longFollowed hname htakes value, rfl⟩
  · next htakes =>
    cases h
    exact ⟨_, .long hname (by simpa using htakes), rfl⟩

theorem exists_writes_of_longAssigned
    (h : readOption (.long name (some value)) arguments = .ok (occurrences, rest)) :
    ∃ written, Writes written occurrences
      ∧ ("--" ++ name ++ "=" ++ value) :: arguments = written ++ rest := by
  rw [readOption] at h
  split at h
  · cases h
  next o ho =>
  have hname := OptionName.ofSpelling?_ofName.mp ho
  split at h
  · next htakes =>
    obtain ⟨⟨occurrence, rest'⟩, htake, h⟩ := bind_eq_ok.mp h
    cases h
    obtain ⟨_, rfl, ⟨hvalue, rfl⟩ | ⟨hvalue, -⟩⟩ := takeValue_eq_ok_iff.mp htake
    · obtain rfl := Option.some.inj hvalue
      exact ⟨_, .longAssigned hname htakes value, rfl⟩
    · cases hvalue
  · cases h

theorem exists_writes_of_cluster (hne : cs ≠ [])
    (h : readOption (.cluster cs) arguments = .ok (occurrences, rest)) :
    ∃ written, Writes written occurrences
      ∧ ("-" ++ String.ofList cs) :: arguments = written ++ rest := by
  rw [readOption] at h
  obtain ⟨⟨occurrences', last⟩, hreading, h⟩ := bind_eq_ok.mp h
  obtain ⟨flags, hflags, rfl, ⟨rfl, rfl⟩ | ⟨o, value, htakes, rfl, rfl⟩⟩ :=
    readCluster_eq_ok_iff.mp hreading
  · cases h
    exact ⟨_, .short (by rintro rfl; exact hne rfl) hflags, rfl⟩
  obtain ⟨⟨occurrence, rest'⟩, htake, h⟩ := bind_eq_ok.mp h
  cases h
  obtain ⟨value', rfl, ⟨hvalue, rfl⟩ | ⟨hvalue, rfl⟩⟩ := takeValue_eq_ok_iff.mp htake
  · split at hvalue
    · cases hvalue
    next hnil =>
    obtain rfl := Option.some.inj hvalue
    refine ⟨_, .shortAttached hflags htakes fun heq => hnil (String.ofList_injective heq), ?_⟩
    rw [append_characters, List.map_append, List.append_assoc]
    rfl
  · split at hvalue
    · next hnil =>
      subst hnil
      refine ⟨_, .shortFollowed hflags htakes value', ?_⟩
      rw [characters, List.map_append]
      rfl
    · cases hvalue

/-- **What the options of one argument are**, they are written there, and a
value that is needed is the argument that follows. -/
theorem exists_writes_of_readOption (hfree : Argument.ofString argument ≠ .free)
    (hends : Argument.ofString argument ≠ .endOfOptions)
    (h : readOption (Argument.ofString argument) arguments = .ok (occurrences, rest)) :
    ∃ written, Writes written occurrences ∧ argument :: arguments = written ++ rest := by
  obtain ⟨-, hof⟩ | ⟨-, hof⟩ | ⟨name, rfl, hof⟩ | ⟨name, value, rfl, hof⟩ | ⟨cs, hne, rfl, hof⟩ :=
    Argument.cases argument
  · exact absurd hof hfree
  · exact absurd hof hends
  · exact exists_writes_of_long (hof ▸ h)
  · exact exists_writes_of_longAssigned (hof ▸ h)
  · exact exists_writes_of_cluster hne (hof ▸ h)

/-- **Options that are written are read**, and the arguments behind them are
left. -/
theorem Writes.readOption (h : Writes written occurrences) : ∃ argument more,
    written = argument :: more ∧ Argument.ofString argument ≠ .free
      ∧ Argument.ofString argument ≠ .endOfOptions
      ∧ ∀ rest,
        readOption (Argument.ofString argument) (more ++ rest) = .ok (occurrences, rest) := by
  cases h with
  | @long o name hname ho =>
    have hof := Argument.ofString_long hname.ne_empty hname.equals_notMem
    refine ⟨_, _, rfl, by simp [hof], by simp [hof], fun rest => ?_⟩
    simp [hof, CommandLine.readOption, OptionName.ofSpelling?_ofName.mpr hname, ho]
  | @longAssigned o name hname ho value =>
    have hof := Argument.ofString_longAssigned hname.equals_notMem value
    refine ⟨_, _, rfl, by simp [hof], by simp [hof], fun rest => ?_⟩
    simp [hof, CommandLine.readOption, OptionName.ofSpelling?_ofName.mpr hname, ho, takeValue,
      bind, Except.bind, pure, Except.pure]
  | @longFollowed o name hname ho value =>
    have hof := Argument.ofString_long hname.ne_empty hname.equals_notMem
    refine ⟨_, _, rfl, by simp [hof], by simp [hof], fun rest => ?_⟩
    simp [hof, CommandLine.readOption, OptionName.ofSpelling?_ofName.mpr hname, ho, takeValue,
      bind, Except.bind, pure, Except.pure]
  | @short flags hne hflags =>
    have hof := ofString_characters hne
    have hreading : readCluster (flags.map OptionName.short) = .ok ⟨flagged flags, none⟩ :=
      readCluster_eq_ok_iff.mpr ⟨flags, hflags, rfl, Or.inl ⟨rfl, rfl⟩⟩
    refine ⟨_, _, rfl, by rw [hof]; nofun, by rw [hof]; nofun, fun rest => ?_⟩
    rw [hof, CommandLine.readOption, hreading]
    rfl
  | @shortAttached flags o value hflags ho hvalue =>
    have hof := ofString_characters_append (by simp : flags ++ [o] ≠ []) value
    have hne : value.toList ≠ [] := mt String.toList_eq_nil_iff.mp hvalue
    have hreading : readCluster ((flags ++ [o]).map OptionName.short ++ value.toList)
        = .ok ⟨flagged flags, some (o.short, o, some value)⟩ :=
      readCluster_eq_ok_iff.mpr ⟨flags, hflags, rfl, Or.inr ⟨o, value.toList, ho, by simp,
        by rw [if_neg hne, String.ofList_toList]⟩⟩
    refine ⟨_, _, rfl, by rw [hof]; nofun, by rw [hof]; nofun, fun rest => ?_⟩
    rw [hof, CommandLine.readOption, hreading]
    rfl
  | @shortFollowed flags o hflags ho value =>
    have hof := ofString_characters (by simp : flags ++ [o] ≠ [])
    have hreading : readCluster ((flags ++ [o]).map OptionName.short)
        = .ok ⟨flagged flags, some (o.short, o, none)⟩ :=
      readCluster_eq_ok_iff.mpr ⟨flags, hflags, rfl, Or.inr ⟨o, [], ho, by simp, rfl⟩⟩
    refine ⟨_, _, rfl, by rw [hof]; nofun, by rw [hof]; nofun, fun rest => ?_⟩
    rw [hof, CommandLine.readOption, hreading]
    rfl

/-! ## All arguments -/

theorem readUpTo_cons (hfree : Argument.ofString argument ≠ .free)
    (hends : Argument.ofString argument ≠ .endOfOptions) (bound : Nat) :
    readUpTo (bound + 1) (argument :: arguments)
      = readOption (Argument.ofString argument) arguments >>= fun (occurrences, rest) =>
        (readUpTo bound rest).map (Arguments.withOptions occurrences) := by
  rw [readUpTo]
  split
  · next h => exact absurd h hfree
  · next h => exact absurd h hends
  · rfl

theorem map_eq_ok {ε α β : Type} {x : Except ε α} {f : α → β} {b : β} :
    x.map f = .ok b ↔ ∃ a, x = .ok a ∧ f a = b := by
  cases x <;> simp [Except.map]

theorem Writes.ne_nil (h : Writes written occurrences) : written ≠ [] := by
  obtain ⟨argument, more, rfl, -⟩ := h.readOption
  exact List.cons_ne_nil argument more

/-- What is read is written. An argument is read alone or with the one that
follows it, so there is no more to be read than the length of the list allows. -/
theorem isWritten_of_readUpTo {bound : Nat} (hbound : arguments.length ≤ bound)
    (h : readUpTo bound arguments = .ok a) : IsWritten arguments a := by
  induction bound generalizing arguments a with
  | zero =>
    obtain rfl := List.length_eq_zero_iff.mp (Nat.le_zero.mp hbound)
    cases h
    exact .nil
  | succ bound ih =>
    cases arguments with
    | nil =>
      cases h
      exact .nil
    | cons argument arguments =>
      rw [List.length_cons, Nat.add_le_add_iff_right] at hbound
      by_cases hfree : Argument.ofString argument = .free
      · rw [readUpTo, hfree] at h
        obtain ⟨a, ha, rfl⟩ := map_eq_ok.mp h
        exact .free (Argument.isFree_of_ofString hfree) (ih hbound ha)
      by_cases hends : Argument.ofString argument = .endOfOptions
      · rw [readUpTo, hends] at h
        cases h
        rw [Argument.eq_of_ofString hends]
        exact .endOfOptions arguments
      rw [readUpTo_cons hfree hends] at h
      obtain ⟨⟨occurrences, rest⟩, hread, h⟩ := bind_eq_ok.mp h
      obtain ⟨a, ha, rfl⟩ := map_eq_ok.mp h
      obtain ⟨written, hwrites, heq⟩ := exists_writes_of_readOption hfree hends hread
      have hlength := congrArg List.length heq
      have hpos := List.length_pos_of_ne_nil hwrites.ne_nil
      rw [List.length_cons, List.length_append] at hlength
      rw [heq]
      exact .options hwrites (ih (by omega) ha)

/-- What is written is read. -/
theorem IsWritten.readUpTo (h : IsWritten arguments a) {bound : Nat}
    (hbound : arguments.length ≤ bound) : CommandLine.readUpTo bound arguments = .ok a := by
  induction h generalizing bound with
  | nil => cases bound <;> rfl
  | @free argument arguments a hfree hrest ih =>
    obtain ⟨bound, rfl⟩ := Nat.exists_eq_add_of_le' (Nat.le_trans (by simp) hbound : 1 ≤ bound)
    rw [List.length_cons, Nat.add_le_add_iff_right] at hbound
    rw [CommandLine.readUpTo, Argument.ofString_of_isFree hfree]
    exact map_eq_ok.mpr ⟨a, ih hbound, rfl⟩
  | endOfOptions arguments =>
    obtain ⟨bound, rfl⟩ := Nat.exists_eq_add_of_le' (Nat.le_trans (by simp) hbound : 1 ≤ bound)
    rfl
  | @options written arguments occurrences a h hrest ih =>
    obtain ⟨argument, more, rfl, hfree, hends, hread⟩ := h.readOption
    obtain ⟨bound, rfl⟩ := Nat.exists_eq_add_of_le' (Nat.le_trans (by simp) hbound : 1 ≤ bound)
    rw [List.cons_append, List.length_cons, List.length_append] at hbound
    rw [List.cons_append, readUpTo_cons hfree hends, hread]
    exact map_eq_ok.mpr ⟨a, ih (by omega), rfl⟩

theorem duplicated?_eq_none_iff : duplicated? a = none ↔ a.IsUnrepeated := by
  have hall : ∀ o, o ∈ OptionName.all := fun o => by cases o <;> decide
  simp [duplicated?, Arguments.IsUnrepeated, List.find?_eq_none, hall]

/-- **Arguments can be read** if and only if they are written as options and free
arguments are, and no option is repeated that may be given only once. -/
theorem readArguments_eq_ok_iff :
    readArguments arguments = .ok a ↔ IsWritten arguments a ∧ a.IsUnrepeated := by
  rw [← duplicated?_eq_none_iff, readArguments, bind_eq_ok]
  constructor
  · rintro ⟨a', hread, h⟩
    split at h
    · cases h
    · next hnone =>
      cases h
      exact ⟨isWritten_of_readUpTo (Nat.le_refl _) hread, hnone⟩
  · rintro ⟨hwritten, hnone⟩
    exact ⟨a, hwritten.readUpTo (Nat.le_refl _), by rw [hnone]; rfl⟩

/-! ## What is asked for -/

namespace Arguments

/-- The value of an option that is given at most once is the one it is given
with. -/
theorem value?_eq_some_iff (h : a.count o ≤ 1) :
    a.value? o = some value ↔ ⟨o, some value⟩ ∈ a.options := by
  rw [value?, Option.bind_eq_some_iff]
  constructor
  · rintro ⟨⟨o', value'⟩, hfind, rfl⟩
    obtain rfl : o' = o := by simpa using List.find?_some hfind
    exact List.mem_of_find?_eq_some hfind
  · intro hmem
    cases hfind : a.options.find? (fun occurrence => occurrence.name = o) with
    | none =>
      have hnot := List.find?_eq_none.mp hfind _ hmem
      simp at hnot
    | some occurrence =>
      obtain ⟨hname, before, after, heq, hbefore⟩ := List.find?_eq_some_iff_append.mp hfind
      rw [heq, List.mem_append, List.mem_cons] at hmem
      refine ⟨occurrence, rfl, ?_⟩
      obtain hmem | rfl | hmem := hmem
      · exact absurd (hbefore _ hmem) (by simp)
      · rfl
      · -- a second occurrence behind the first one
        have hpos : 0 < after.countP (fun occurrence => occurrence.name = o) :=
          List.countP_pos_iff.mpr ⟨_, hmem, by simp⟩
        rw [count, heq, List.countP_append, List.countP_cons, if_pos hname] at h
        omega

/-- **What arguments ask for is in their request**, if no option is repeated. -/
theorem IsUnrepeated.asks_request (h : a.IsUnrepeated) : a.Asks a.request where
  help := by
    simp only [request, decide_eq_true_eq, count, gt_iff_lt, List.countP_pos_iff]
    constructor
    · rintro ⟨⟨o, value⟩, hmem, rfl⟩
      exact ⟨value, hmem⟩
    · rintro ⟨value, hmem⟩
      exact ⟨_, hmem, rfl⟩
  verbosity := rfl
  mode := fun _ => value?_eq_some_iff (h .mode rfl)
  input := fun _ => value?_eq_some_iff (h .input rfl)
  free := rfl

end Arguments

namespace Libraries

/-- **The library of the program reads options as they are documented.** -/
theorem readsOptions_standard : standard.ReadsOptions where
  reads := fun {_ a} hwritten hunrepeated => by
    refine ⟨a.request, ?_, hunrepeated.asks_request⟩
    show ((readArguments _).mapError _).map _ = _
    rw [readArguments_eq_ok_iff.mpr ⟨hwritten, hunrepeated⟩]
    rfl
  refuses := fun {arguments} h => by
    show ∃ message, ((readArguments arguments).mapError _).map _ = _
    cases hread : readArguments arguments with
    | error fault => exact ⟨fault.message, rfl⟩
    | ok a =>
      obtain ⟨hwritten, hunrepeated⟩ := readArguments_eq_ok_iff.mp hread
      exact absurd hunrepeated (h a hwritten)

/-- What is read is written. -/
theorem ReadsOptions.exists_isWritten {libraries : Libraries} {request : Request}
    (h : libraries.ReadsOptions) (hread : libraries.read arguments = .ok request) :
    ∃ a, IsWritten arguments a ∧ a.IsUnrepeated ∧ a.Asks request := by
  by_contra hnone
  have hrefused : ∀ a, IsWritten arguments a → ¬ a.IsUnrepeated := fun a hwritten hunrepeated => by
    obtain ⟨request', hread', hasks⟩ := h.reads hwritten hunrepeated
    obtain rfl := Except.ok.inj (hread'.symm.trans hread)
    exact hnone ⟨a, hwritten, hunrepeated, hasks⟩
  obtain ⟨message, herror⟩ := h.refuses hrefused
  cases herror.symm.trans hread

end Libraries

/-- Characters written together, the last of them with its value, a long name
with a value behind it, and a free argument in between. -/
example : IsWritten ["-vvmop", "a.grammar", "--input=a #"]
    ⟨[⟨.verbose, none⟩, ⟨.verbose, none⟩, ⟨.mode, some "op"⟩, ⟨.input, some "a #"⟩],
      ["a.grammar"]⟩ :=
  (readArguments_eq_ok_iff.mp (by decide)).1

end GrammarAnalysis.CommandLine
