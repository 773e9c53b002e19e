import GrammarAnalysis.CommandLine.Run
import GrammarAnalysis.Proofs.LongestMatch
import GrammarAnalysis.Proofs.WrittenArguments

/-!
# What arguments ask for

A mode is named by its two or three letters, each of them small or capital, and
without a name both analyses are made. The words of an input are what stands
between its blanks. With these, `Arguments.AsksFor` says of the options that are
written which analysis they ask for: it has one path, and an input only with an
LL(1) analysis.

Help comes first. Arguments that ask neither for it nor for an analysis end a
run at once (`taskOf_cases`).
-/

namespace GrammarAnalysis

/-! ## Modes and words -/

theorem toNat_toLower (c : Char) :
    c.toLower.toNat = if 65 ≤ c.toNat ∧ c.toNat ≤ 90 then c.toNat + 32 else c.toNat := by
  have hcapital : (c.val ≥ 'A'.val ∧ c.val ≤ 'Z'.val) ↔ 65 ≤ c.toNat ∧ c.toNat ≤ 90 := Iff.rfl
  unfold Char.toLower
  split
  · next h =>
    have hle : c.toNat ≤ 90 := (hcapital.mp h).2
    rw [if_pos (hcapital.mp h)]
    show (c.val + 32).toNat = c.val.toNat + 32
    rw [UInt32.toNat_add]
    exact Nat.mod_eq_of_lt (by simp; omega)
  · next h => rw [if_neg (mt hcapital.mpr h)]

/-- A small letter stands for itself and its capital. -/
theorem toLower_eq_iff {c small capital : Char} (hcapital : 65 ≤ capital.toNat ∧ capital.toNat ≤ 90)
    (hsmall : small.toNat = capital.toNat + 32) :
    c.toLower = small ↔ c = small ∨ c = capital := by
  rw [← Char.toNat_inj, ← Char.toNat_inj, ← Char.toNat_inj, toNat_toLower]
  split <;> omega

/-- **The words of a text**: what stands between blanks, where it is not
nothing. -/
def AreWords (text : String) (words : List String) : Prop :=
  words.map String.toList = (text.toList.splitOnP isBlank).filter (· ≠ [])

theorem areWords_iff {text : String} {words : List String} :
    AreWords text words ↔ words = wordsOf text := by
  rw [AreWords, wordsOf, ← wordsBy_id_eq_splitOnP]
  constructor
  · intro h
    rw [← h, List.map_map]
    simp [Function.comp_def]
  · rintro rfl
    rw [List.map_map]
    simp [Function.comp_def]

namespace Mode

variable {mode : Mode} {name : String}

/-- The letters of the name of a mode, small and capital. -/
def letters : Mode → List (Char × Char)
  | lookahead => [('l', 'L'), ('l', 'L')]
  | precedence => [('o', 'O'), ('p', 'P')]
  | all => [('a', 'A'), ('l', 'L'), ('l', 'L')]

/-- **A name of a mode**: its letters, each of them small or capital. -/
def IsNamed (mode : Mode) (name : String) : Prop :=
  List.Forall₂ (fun c letter => c = letter.1 ∨ c = letter.2) name.toList mode.letters

theorem isNamed_iff :
    mode.IsNamed name ↔ name.toList.map Char.toLower = mode.letters.map Prod.fst := by
  have hcode : ∀ letter ∈ mode.letters, (65 ≤ letter.2.toNat ∧ letter.2.toNat ≤ 90)
      ∧ letter.1.toNat = letter.2.toNat + 32 := by
    cases mode <;> decide
  unfold IsNamed
  generalize mode.letters = letters at hcode
  generalize name.toList = cs
  induction letters generalizing cs with
  | nil => simp
  | cons letter letters ih =>
    rw [List.forall_mem_cons] at hcode
    cases cs with
    | nil => simp
    | cons c cs =>
      have hrest := ih hcode.2 cs
      rw [List.forall₂_cons, ← toLower_eq_iff hcode.1.1 hcode.1.2, List.map_cons, List.map_cons,
        List.cons.injEq]
      exact and_congr_right fun _ => hrest

theorem ofName?_eq_some_iff : ofName? name = some mode ↔ mode.IsNamed name := by
  rw [isNamed_iff, ofName?]
  generalize name.toList.map Char.toLower = lower
  constructor
  · intro h
    split at h
    · next hlower =>
      cases h
      exact hlower
    split at h
    · next hlower =>
      cases h
      exact hlower
    split at h
    · next hlower =>
      cases h
      exact hlower
    · cases h
  · rintro rfl
    cases mode <;> rfl

/-- **The mode of a request** is the one that is named, or else both analyses. -/
theorem ofRequest_eq_ok_iff {name? : Option String} : ofRequest name? = .ok mode ↔
    (∃ name, name? = some name ∧ mode.IsNamed name) ∨ name? = none ∧ mode = .all := by
  cases name? with
  | none => simp [ofRequest, eq_comm]
  | some name =>
    rw [ofRequest]
    have hnamed : (∃ name', some name = some name' ∧ mode.IsNamed name') ↔ mode.IsNamed name := by
      simp
    rw [hnamed, ← ofName?_eq_some_iff]
    cases ofName? name <;> simp

end Mode

/-! ## Requests -/

namespace CommandLine

variable {config : Config} {path : String} {a : Arguments} {request : Request}

namespace Arguments

/-- **Arguments ask for the usage text.** -/
def AsksForHelp (a : Arguments) : Prop :=
  ∃ value, ⟨.help, value⟩ ∈ a.options

/-- **Arguments ask for an analysis**: the mode is the one that is named, or
both analyses if none is, there is one path, the input are the words of the text
that is given, if any is, and an input has an LL(1) analysis to parse it. -/
structure AsksFor (a : Arguments) (path : String) (config : Config) : Prop where
  mode : (∃ name, ⟨.mode, some name⟩ ∈ a.options ∧ config.mode.IsNamed name)
    ∨ (∀ name, ⟨.mode, some name⟩ ∉ a.options) ∧ config.mode = .all
  free : a.free = [path]
  input : (∃ text words, ⟨.input, some text⟩ ∈ a.options ∧ AreWords text words
      ∧ config.input = some words)
    ∨ (∀ text, ⟨.input, some text⟩ ∉ a.options) ∧ config.input = none
  compatible : config.input = none ∨ config.mode ≠ .precedence

/-- What is asked for in a request. -/
theorem Asks.asksFor_iff (h : a.Asks request) : a.AsksFor path config ↔
    Mode.ofRequest request.mode = .ok config.mode ∧ request.free = [path]
      ∧ config.input = request.input.map wordsOf ∧ config.isValid = true := by
  have hmode : Mode.ofRequest request.mode = .ok config.mode ↔
      (∃ name, ⟨.mode, some name⟩ ∈ a.options ∧ config.mode.IsNamed name)
        ∨ (∀ name, ⟨.mode, some name⟩ ∉ a.options) ∧ config.mode = .all := by
    simp only [Mode.ofRequest_eq_ok_iff, h.mode, Option.eq_none_iff_forall_ne_some, ne_eq]
  have hinput : config.input = request.input.map wordsOf ↔
      (∃ text words, ⟨.input, some text⟩ ∈ a.options ∧ AreWords text words
          ∧ config.input = some words)
        ∨ (∀ text, ⟨.input, some text⟩ ∉ a.options) ∧ config.input = none := by
    simp only [← h.input]
    cases request.input <;> simp [areWords_iff]
  have hvalid : config.isValid = true ↔ config.input = none ∨ config.mode ≠ .precedence := by
    simp [Config.isValid, Mode.includesLookahead]
  rw [hmode, hinput, hvalid, h.free]
  exact ⟨fun ⟨h₁, h₂, h₃, h₄⟩ => ⟨h₁, h₂, h₃, h₄⟩, fun ⟨h₁, h₂, h₃, h₄⟩ => ⟨h₁, h₂, h₃, h₄⟩⟩

end Arguments

/-- **What arguments can set as a task.** -/
theorem taskOf_cases (h : a.Asks request) :
    (a.AsksForHelp ∧ taskOf request = .usage 0)
      ∨ ¬ a.AsksForHelp ∧
        ((∃ path config, a.AsksFor path config
            ∧ taskOf request = .analyze path config (logLevel? request.verbosity))
          ∨ (∀ path config, ¬ a.AsksFor path config)
            ∧ ((∃ message, taskOf request = .complain message) ∨ taskOf request = .usage 1)) := by
  by_cases hhelp : request.help = true
  · exact Or.inl ⟨h.help.mp hhelp, by rw [taskOf, if_pos hhelp]⟩
  refine Or.inr ⟨fun hasks => hhelp (h.help.mpr hasks), ?_⟩
  simp only [h.asksFor_iff]
  rw [taskOf, if_neg hhelp]
  split
  · next name _ hmode =>
    refine Or.inr ⟨fun path config hasks => ?_, Or.inl ⟨_, rfl⟩⟩
    cases hmode.symm.trans hasks.1
  · next mode path hmode hfree =>
    by_cases hvalid : Config.isValid ⟨mode, request.input.map wordsOf⟩ = true
    · refine Or.inl ⟨path, ⟨mode, request.input.map wordsOf⟩, ⟨hmode, hfree, rfl, hvalid⟩, ?_⟩
      simp only [Config.validate, if_pos hvalid]
    · refine Or.inr ⟨fun path' config ⟨hmode', _, hinput, hvalid'⟩ => hvalid ?_,
        Or.inl ⟨RunError.inputWithoutLookahead.message, by
          simp only [Config.validate, if_neg hvalid]⟩⟩
      rwa [Except.ok.inj (hmode.symm.trans hmode'), ← hinput]
  · next hfree =>
    exact Or.inr ⟨fun path config hasks => hfree path hasks.2.1, Or.inr rfl⟩

/-- Arguments ask for one analysis. -/
theorem Arguments.AsksFor.unique (h : a.Asks request) {path' : String} {config' : Config}
    (hasks : a.AsksFor path config) (hasks' : a.AsksFor path' config') :
    path = path' ∧ config = config' := by
  obtain ⟨mode, input⟩ := config
  obtain ⟨mode', input'⟩ := config'
  obtain ⟨hmode, hfree, rfl, -⟩ := h.asksFor_iff.mp hasks
  obtain ⟨hmode', hfree', rfl, -⟩ := h.asksFor_iff.mp hasks'
  obtain rfl : mode = mode' := Except.ok.inj (hmode.symm.trans hmode')
  exact ⟨(List.cons.inj (hfree.symm.trans hfree')).1, rfl⟩

end CommandLine

end GrammarAnalysis
