import GrammarAnalysis.Proofs.FileStatements
import GrammarAnalysis.Proofs.FirstDefect

/-!
# Reading statements

The statements of a file are strings (`statements`), and what a statement
says goes by its text alone: a directive is bad or not (`BadDirective`), it
declares words (`declaredWords`), or the statement is a production line
(`productionLines`).

The reader works on lines of located characters instead, of which those
without a statement are read as nothing. `Reading` relates the two lists, one
statement to one line, by what the statement is read as (`IsRead`). What is
known of one line (`IsRead.map_declares`, `IsRead.badDirective_iff`) is from
there on a statement about whole files, by induction on `Reading`.
-/

namespace GrammarAnalysis

/-! ## Statements -/

/-- Whether a trimmed line is a statement: neither empty nor a comment. -/
def isSaid (line : String) : Bool :=
  line ≠ "" ∧ ¬ ['/', '/'] <+: line.toList

/-- **The statements of a text**: its lines without the blanks around them,
blank lines and comments left out. -/
def statements (text : String) : List String :=
  ((text.toList.splitOn '\n').map fun line => trimmed (String.ofList line)).filter isSaid

/-- The words behind the name of a directive, in all statements that begin
with it. -/
def declaredWords (directive : String) (lines : List String) : List String :=
  lines.flatMap fun line =>
    if (wordsOf line).head? = some directive then (wordsOf line).tail else []

/-- The statements that are no directives. -/
def productionLines (lines : List String) : List String :=
  lines.filter fun line => ¬ ['%'] <+: line.toList

/-- Whether a start line is among some statements. -/
def HasStart (lines : List String) : Prop :=
  ∃ line ∈ lines, (wordsOf line).head? = some "%start"

/-- **What is wrong with a statement** that is a directive, after those
before it. A second start line is one whatever its words are. -/
inductive BadDirective (before : List String) (line : String) : Fault → Prop
  | unknown {name : String} (hdirective : ['%'] <+: line.toList)
    (hname : (wordsOf line).head? = some name)
    (h : name ∉ ["%nonterminals", "%terminals", "%start"]) :
    BadDirective before line (.unknownDirective name)
  | duplicate (hname : (wordsOf line).head? = some "%start") (h : HasStart before) :
    BadDirective before line .duplicateStart
  | missing (hwords : wordsOf line = ["%start"]) (h : ¬ HasStart before) :
    BadDirective before line .missingStart
  | extra {word extra : String} {rest : List String}
    (hwords : wordsOf line = "%start" :: word :: extra :: rest) (h : ¬ HasStart before) :
    BadDirective before line (.extraStartSymbol extra)

namespace BadDirective

variable {before : List String} {line name : String} {words : List String} {fault : Fault}

/-- A bad directive is unknown or a start line. -/
theorem head?_eq (h : BadDirective before line fault) :
    (∃ name, fault = .unknownDirective name ∧ ['%'] <+: line.toList
        ∧ (wordsOf line).head? = some name ∧ name ∉ ["%nonterminals", "%terminals", "%start"])
      ∨ (wordsOf line).head? = some "%start" := by
  cases h with
  | unknown hdirective hname h => exact Or.inl ⟨_, rfl, hdirective, hname, h⟩
  | duplicate hname => exact Or.inr hname
  | missing hwords => exact Or.inr (by rw [hwords, List.head?_cons])
  | extra hwords => exact Or.inr (by rw [hwords, List.head?_cons])

/-- **A start line is bad** if there was one before it, and else unless it has
one word. -/
theorem start_iff (hwords : wordsOf line = "%start" :: words) :
    BadDirective before line fault ↔ (HasStart before ∧ fault = .duplicateStart)
      ∨ (¬ HasStart before ∧ ((words = [] ∧ fault = .missingStart)
        ∨ ∃ word extra rest, words = word :: extra :: rest ∧ fault = .extraStartSymbol extra)) := by
  have hhead : (wordsOf line).head? = some "%start" := by rw [hwords, List.head?_cons]
  constructor
  · intro h
    cases h with
    | unknown _ hname h =>
      obtain rfl := Option.some.inj (hhead.symm.trans hname)
      exact absurd (by decide) h
    | duplicate _ h => exact Or.inl ⟨h, rfl⟩
    | missing heq h =>
      exact Or.inr ⟨h, Or.inl ⟨(List.cons.inj (hwords.symm.trans heq)).2, rfl⟩⟩
    | extra heq h =>
      exact Or.inr ⟨h, Or.inr ⟨_, _, _, (List.cons.inj (hwords.symm.trans heq)).2, rfl⟩⟩
  · rintro (⟨h, rfl⟩ | ⟨h, ⟨rfl, rfl⟩ | ⟨word, extra, rest, rfl, rfl⟩⟩)
    · exact .duplicate hhead h
    · exact .missing hwords h
    · exact .extra hwords h

end BadDirective

namespace DirectiveFile

/-! ## What statements are read as -/

/-- **What a statement is read as**, by its text alone: a production, or what
the directive says that its first word names. -/
inductive IsRead (line : String) : Line → Prop
  | production {d : Declared} (htext : d.text = line) (hdirective : ¬ ['%'] <+: line.toList)
    (hname : ∀ name, (wordsOf line).head? = some name → ¬ ['%'] <+: name.toList) :
    IsRead line (.production d)
  | directive {d name : Declared} {words : List Declared} (hdirective : ['%'] <+: line.toList)
    (hwords : wordsOf line = name.text :: words.map Declared.text) :
    IsRead line (.ofDirective d name words)

/-- **What the statements of a file are read as**, line by line. -/
inductive Reading : List String → List Line → Prop
  | nil : Reading [] []
  | blank {lines : List String} {ls : List Line} (h : Reading lines ls) :
    Reading lines (.blank :: ls)
  | statement {line : String} {l : Line} {lines : List String} {ls : List Line}
    (hline : IsRead line l) (h : Reading lines ls) : Reading (line :: lines) (l :: ls)

theorem speaks_iff (raw : List Located) :
    Says (Located.trim raw) ↔ isSaid (Located.text (Located.trim raw)) = true := by
  unfold isSaid
  rw [decide_eq_true_iff, toList_text]
  refine ⟨fun h => ⟨text_ne_empty h.ne_nil, h.not_comment⟩, fun h => ⟨isTight_trim raw, ?_, h.2⟩⟩
  intro hnil
  rw [hnil] at h
  exact h.1 rfl

theorem ofLocated_eq_blank {raw : List Located} (h : ¬ Says (Located.trim raw)) :
    Line.ofLocated raw = .blank := by
  have hreads := reads_ofLocated raw
  generalize Line.ofLocated raw = l at hreads ⊢
  cases hreads with
  | blank => rfl
  | production hspeaks => exact absurd hspeaks h
  | nonterminals hnamed | terminals hnamed | start hnamed | unknown hnamed =>
    exact absurd hnamed.speaks h

theorem isRead_ofLocated {raw : List Located} (h : Says (Located.trim raw)) :
    IsRead (Located.text (Located.trim raw)) (Line.ofLocated raw) := by
  obtain ⟨name, rest, hnamed⟩ := h.exists_isNamed
  unfold Line.ofLocated
  simp only
  generalize Located.trim raw = line at h hnamed ⊢
  split
  · exact absurd rfl h.ne_nil
  · exact absurd (by simp) h.not_comment
  · next o tail =>
    rw [hnamed.words_eq, List.map_cons]
    refine .directive ?_ ?_
    · rw [toList_text]
      exact ⟨tail.map (·.char), rfl⟩
    · rw [wordsOf_text, hnamed.words_eq, List.map_cons, List.map_map]
      rfl
  · next hdirective =>
    have hpercent : ¬ ['%'] <+: line.map (·.char) := by
      rintro ⟨tail, h⟩
      obtain ⟨⟨o, _⟩, line, rfl, rfl, -⟩ := List.map_eq_cons_iff.mp h.symm
      exact hdirective o line rfl
    refine .production rfl (toList_text line ▸ hpercent) fun first hfirst hbegin => ?_
    -- the line begins with its first word
    obtain rfl := Option.some.inj (hnamed.head?_wordsOf.symm.trans hfirst)
    exact hpercent (toList_text line ▸ hbegin.trans hnamed.begins)

/-- **The lines of a file are read as its statements.** -/
theorem reading_lines (text : String) : Reading (statements text) (lines text) := by
  have hraws : ∀ raws : List (List Located),
      Reading ((raws.map fun raw => Located.text (Located.trim raw)).filter isSaid)
        (raws.map Line.ofLocated) := by
    intro raws
    induction raws with
    | nil => exact .nil
    | cons raw raws ih =>
      rw [List.map_cons, List.map_cons]
      by_cases h : Says (Located.trim raw)
      · rw [List.filter_cons_of_pos ((speaks_iff raw).mp h)]
        exact .statement (isRead_ofLocated h) ih
      · rw [List.filter_cons_of_neg (fun hsaid => h ((speaks_iff raw).mpr hsaid)),
          ofLocated_eq_blank h]
        exact .blank ih
  have hlines : (text.toList.splitOn '\n').map (fun line => trimmed (String.ofList line))
      = (Located.lines (Located.ofString text)).map
          fun raw => Located.text (Located.trim raw) := by
    have hmap : (Located.ofString text).map (·.char) = text.toList :=
      Located.map_char_listFrom 0 text.toList
    rw [← hmap, List.splitOn, ← splitWhere_eq_splitOnP, splitWhere_map, List.map_map]
    refine List.map_congr_left fun raw _ => ?_
    show trimmed (String.ofList (raw.map (·.char))) = _
    rw [trimmed, String.toList_ofList, Located.text, Located.trim, map_trimWhere]
  rw [statements, hlines]
  exact hraws _

/-! ## What the statements declare -/

section Lines

variable {line directive : String} {lines before : List String} {l : Line} {ls : List Line}
  {d name : Declared} {words : List Declared} {started : Bool} {fault : Fault}

/-- **What a directive says** goes by its name. -/
theorem ofDirective_cases (d name : Declared) (words : List Declared) :
    (name.text = "%nonterminals" ∧ Line.ofDirective d name words = .nonterminals words)
      ∨ (name.text = "%terminals" ∧ Line.ofDirective d name words = .terminals words)
      ∨ (name.text = "%start" ∧ Line.ofDirective d name words = .start d words)
      ∨ (name.text ∉ ["%nonterminals", "%terminals", "%start"]
        ∧ Line.ofDirective d name words = .unknown name) := by
  unfold Line.ofDirective
  split
  · next hname => exact Or.inl ⟨hname, rfl⟩
  split
  · next hname => exact Or.inr (Or.inl ⟨hname, rfl⟩)
  split
  · next hname => exact Or.inr (Or.inr (Or.inl ⟨hname, rfl⟩))
  · next hnonterminals hterminals hstart =>
    refine Or.inr (Or.inr (Or.inr ⟨?_, rfl⟩))
    simp only [List.mem_cons, List.not_mem_nil, or_false, not_or]
    exact ⟨hnonterminals, hterminals, hstart⟩

theorem declares_ofDirective (hdirective : directive ∈ ["%nonterminals", "%terminals", "%start"]) :
    declares directive (.ofDirective d name words)
      = if name.text = directive then words else [] := by
  have hcases : directive = "%nonterminals" ∨ directive = "%terminals" ∨ directive = "%start" := by
    simpa using hdirective
  obtain ⟨hname, heq⟩ | ⟨hname, heq⟩ | ⟨hname, heq⟩ | ⟨hname, heq⟩ := ofDirective_cases d name words
  · rw [heq, hname]
    obtain rfl | rfl | rfl := hcases <;> rfl
  · rw [heq, hname]
    obtain rfl | rfl | rfl := hcases <;> rfl
  · rw [heq, hname]
    obtain rfl | rfl | rfl := hcases <;> rfl
  · have hne : name.text ≠ directive := fun h => hname (h ▸ hdirective)
    rw [heq, if_neg hne]
    rfl

theorem production?_ofDirective : (Line.ofDirective d name words).production? = none := by
  obtain ⟨-, heq⟩ | ⟨-, heq⟩ | ⟨-, heq⟩ | ⟨-, heq⟩ := ofDirective_cases d name words
  all_goals
    rw [heq]
    rfl

/-- What a line declares is what its text says. -/
theorem IsRead.map_declares (h : IsRead line l)
    (hdirective : directive ∈ ["%nonterminals", "%terminals", "%start"]) :
    (declares directive l).map Declared.text
      = if (wordsOf line).head? = some directive then (wordsOf line).tail else [] := by
  cases h with
  | production _ _ hname =>
    have hpercent : ∀ directive ∈ ["%nonterminals", "%terminals", "%start"],
        ['%'] <+: directive.toList := by decide
    rw [if_neg fun hhead => hname directive hhead (hpercent directive hdirective)]
    rfl
  | @directive d name words _ hwords =>
    rw [hwords, List.head?_cons, List.tail_cons, declares_ofDirective hdirective]
    simp only [Option.some.injEq]
    split
    · rfl
    · rfl

theorem Reading.map_declares (h : Reading lines ls)
    (hdirective : directive ∈ ["%nonterminals", "%terminals", "%start"]) :
    (ls.flatMap (declares directive)).map Declared.text = declaredWords directive lines := by
  induction h with
  | nil => rfl
  | blank _ ih => exact ih
  | statement hline _ ih =>
    rw [List.flatMap_cons, List.map_append, hline.map_declares hdirective, ih]
    rfl

theorem Reading.map_production? (h : Reading lines ls) :
    (ls.filterMap Line.production?).map Declared.text = productionLines lines := by
  unfold productionLines
  induction h with
  | nil => rfl
  | blank _ ih => exact ih
  | statement hline _ ih =>
    cases hline with
    | production htext hdirective _ =>
      rw [List.filter_cons_of_pos (by simpa using hdirective), ← ih, ← htext]
      rfl
    | directive hdirective _ =>
      rw [List.filter_cons_of_neg (by simpa using hdirective), ← ih,
        List.filterMap_cons_none production?_ofDirective]

/-! ## The first bad directive -/

/-- The fault of a line, where `started` says whether there was a start line
before it. -/
def faultOf? (started : Bool) : Line → Option GrammarError
  | .unknown name => some ⟨.unknownDirective name.text, name.span⟩
  | .start line words =>
    if started then some ⟨.duplicateStart, line.span⟩
    else
      match words with
      | [] => some ⟨.missingStart, line.span⟩
      | [_] => none
      | _ :: extra :: _ => some ⟨.extraStartSymbol extra.text, extra.span⟩
  | _ => none

/-- Whether a line is a start line. -/
def isStart : Line → Bool
  | .start _ _ => true
  | _ => false

theorem firstFault?_cons (started : Bool) (l : Line) (ls : List Line) :
    firstFault? started (l :: ls)
      = (faultOf? started l).or (firstFault? (started || isStart l) ls) := by
  cases l with
  | blank | production | nonterminals | terminals =>
    show _ = Option.or none (firstFault? (started || false) ls)
    rw [Bool.or_false]
    rfl
  | unknown name => rfl
  | start line words =>
    cases started with
    | true => rfl
    | false =>
      match words with
      | [] => rfl
      | [word] => rfl
      | word :: extra :: rest => rfl

theorem IsRead.isStart_iff (h : IsRead line l) :
    isStart l = true ↔ (wordsOf line).head? = some "%start" := by
  cases h with
  | production _ _ hname =>
    exact iff_of_false (by simp [isStart]) fun hhead => hname _ hhead (by decide)
  | @directive d name words _ hwords =>
    rw [hwords, List.head?_cons, Option.some.injEq]
    obtain ⟨hname, heq⟩ | ⟨hname, heq⟩ | ⟨hname, heq⟩ | ⟨hname, heq⟩ :=
      ofDirective_cases d name words
    · simp [heq, hname, isStart]
    · simp [heq, hname, isStart]
    · simp [heq, hname, isStart]
    · rw [heq]
      exact iff_of_false (by simp [isStart]) fun h => hname (by simp [h])

theorem exists_some_eq_iff {e : GrammarError} :
    (∃ span, some e = some ⟨fault, span⟩) ↔ fault = e.fault := by
  constructor
  · rintro ⟨span, h⟩
    obtain rfl := Option.some.inj h
    rfl
  · rintro rfl
    exact ⟨e.span, rfl⟩

/-- **A directive that is bad** is reported. -/
theorem IsRead.badDirective_iff (h : IsRead line l) (hstarted : started = true ↔ HasStart before) :
    BadDirective before line fault ↔ ∃ span, faultOf? started l = some ⟨fault, span⟩ := by
  cases h with
  | production _ hdirective hname =>
    refine iff_of_false (fun h => ?_) (by simp [faultOf?])
    obtain ⟨_, -, hpercent, -⟩ | hhead := h.head?_eq
    · exact hdirective hpercent
    · exact hname _ hhead (by decide)
  | @directive d name words hdirective hwords =>
    have hhead : (wordsOf line).head? = some name.text := by rw [hwords, List.head?_cons]
    -- a directive of symbols is known, and no start line
    have hsymbols : name.text ∈ ["%nonterminals", "%terminals"] →
        ¬ BadDirective before line fault := fun hname h => by
      obtain ⟨other, -, -, hother, hunknown⟩ | hother := h.head?_eq
      · obtain rfl := Option.some.inj (hhead.symm.trans hother)
        exact hunknown (List.mem_append_left ["%start"] hname)
      · rw [Option.some.inj (hhead.symm.trans hother)] at hname
        exact absurd hname (by decide)
    obtain ⟨hname, heq⟩ | ⟨hname, heq⟩ | ⟨hname, heq⟩ | ⟨hname, heq⟩ :=
      ofDirective_cases d name words
    · exact iff_of_false (hsymbols (by simp [hname])) (by simp [heq, faultOf?])
    · exact iff_of_false (hsymbols (by simp [hname])) (by simp [heq, faultOf?])
    · rw [hname] at hwords
      rw [heq, BadDirective.start_iff hwords, ← hstarted]
      cases started with
      | true =>
        refine Iff.trans ?_ exists_some_eq_iff.symm
        simp
      | false =>
        match words with
        | [] =>
          refine Iff.trans ?_ exists_some_eq_iff.symm
          simp
        | [word] => simp [faultOf?]
        | word :: extra :: rest =>
          refine Iff.trans ?_ exists_some_eq_iff.symm
          simp
    · rw [heq]
      constructor
      · intro h
        obtain ⟨other, rfl, -, hother, -⟩ | hother := h.head?_eq
        · obtain rfl := Option.some.inj (hhead.symm.trans hother)
          exact ⟨name.span, rfl⟩
        · rw [Option.some.inj (hhead.symm.trans hother)] at hname
          exact absurd (by decide) hname
      · intro h
        rw [exists_some_eq_iff.mp h]
        exact .unknown hdirective hhead hname

/-- **The reader reports the first bad directive**, and passes files without
one. -/
theorem Reading.firstFault?_of_defects (h : Reading lines ls)
    (hstarted : started = true ↔ HasStart before) :
    (∀ fault, FirstDefect (fun seen => BadDirective (before ++ seen)) lines fault →
        ∃ span, firstFault? started ls = some ⟨fault, span⟩)
      ∧ (Flawless (fun seen => BadDirective (before ++ seen)) lines →
        firstFault? started ls = none) := by
  induction h generalizing before started with
  | nil => exact ⟨fun fault h => absurd h not_firstDefect_nil, fun _ => rfl⟩
  | blank _ ih => exact ih hstarted
  | @statement line l lines ls hline _ ih =>
    have hbad : ∀ fault, BadDirective (before ++ []) line fault
        ↔ ∃ span, faultOf? started l = some ⟨fault, span⟩ := fun fault => by
      rw [List.append_nil]
      exact hline.badDirective_iff hstarted
    have hlater : (fun seen => BadDirective (before ++ line :: seen))
        = fun seen => BadDirective ((before ++ [line]) ++ seen) := by
      funext seen
      rw [List.append_cons]
    simp only [firstDefect_cons, flawless_cons, hbad]
    rw [hlater, firstFault?_cons]
    cases hfault : faultOf? started l with
    | some first =>
      rw [Option.some_or]
      refine ⟨fun fault h => h.elim id fun h => ?_, fun h => ?_⟩
      · exact absurd ⟨first.span, rfl⟩ (h.1 first.fault)
      · exact absurd ⟨first.span, rfl⟩ (h.1 first.fault)
    | none =>
      rw [Option.none_or]
      have hstarted' : (started || isStart l) = true ↔ HasStart (before ++ [line]) := by
        rw [Bool.or_eq_true, hstarted, hline.isStart_iff]
        simp [HasStart, or_and_right, exists_or]
      obtain ⟨herror, hnone⟩ := ih hstarted'
      exact ⟨fun fault h => herror fault (h.resolve_left (by simp)).2, fun h => hnone h.2⟩

/-- Where no directive is bad, the words of start lines are the start symbol. -/
theorem flatMap_declares_start (h : firstFault? started ls = none) :
    ls.flatMap (declares "%start") = (ls.findSome? Line.start?).toList
      ∧ (started = true → ls.findSome? Line.start? = none) := by
  induction ls generalizing started with
  | nil => exact ⟨rfl, fun _ => rfl⟩
  | cons l ls ih =>
    rw [firstFault?_cons, Option.or_eq_none_iff] at h
    obtain ⟨hl, hls⟩ := h
    obtain ⟨hwords, hnone⟩ := ih hls
    cases l with
    | blank | production | nonterminals | terminals =>
      refine ⟨hwords, fun hstarted => hnone ?_⟩
      rw [hstarted, Bool.true_or]
    | unknown => cases hl
    | start line words =>
      cases started with
      | true => cases hl
      | false =>
        have hnone := hnone rfl
        rw [hnone] at hwords
        match words with
        | [] => cases hl
        | [word] =>
          rw [List.flatMap_cons, hwords]
          exact ⟨rfl, fun h => by cases h⟩
        | word :: extra :: rest => cases hl

end Lines

end DirectiveFile

end GrammarAnalysis
