import GrammarAnalysis.Proofs.FileDeclarations
import GrammarAnalysis.Proofs.WritingOrder

/-!
# Lines and paragraphs of what is printed

What is printed is a text of lines (`unlines`), and is read here as lines again
(`linesOf`). The lines are those it was made of because nothing that is put into
them has a line feed in it (`IsLine`): the symbols of a grammar file are *words*,
which are not empty and have no blank in them (`Grammar.isWord_of_ofFile`).

Paragraphs are what stands between blank lines (`paragraphs`). Lists of lines
that are printed with a blank line after each but the last are read as these
lists again exactly when none of them is empty or has a blank line in it
(`isDividedInto_iff`). The lists must end visibly, as blanks at their ends are
removed.
-/

namespace GrammarAnalysis

variable {s t sep name text : String} {parts lines : List String}

/-! ## Lines -/

/-- **A part of a line**: a text without a line feed. -/
def IsLine (s : String) : Prop :=
  '\n' ∉ s.toList

instance (s : String) : Decidable (IsLine s) :=
  inferInstanceAs (Decidable ('\n' ∉ s.toList))

@[simp] theorem isLine_append : IsLine (s ++ t) ↔ IsLine s ∧ IsLine t := by
  rw [IsLine, String.toList_append, List.mem_append, not_or]
  rfl

@[simp] theorem isLine_quoted : IsLine (quoted s) ↔ IsLine s := by
  rw [quoted, isLine_append, isLine_append, and_iff_left (by decide), and_iff_right (by decide)]

theorem isLine_join (h : ∀ s ∈ parts, IsLine s) : IsLine (String.join parts) := by
  rw [IsLine, String.toList_join, List.mem_flatMap]
  rintro ⟨s, hs, hmem⟩
  exact h s hs hmem

theorem isLine_intercalate (hsep : IsLine sep) (h : ∀ s ∈ parts, IsLine s) :
    IsLine (sep.intercalate parts) := by
  induction parts with
  | nil => exact (by decide : IsLine "")
  | cons s rest ih =>
    rw [List.forall_mem_cons] at h
    cases rest with
    | nil => rw [String.intercalate_singleton]; exact h.1
    | cons t rest =>
      rw [String.intercalate_cons_cons, isLine_append, isLine_append]
      exact ⟨⟨h.1, hsep⟩, ih h.2⟩

/-- **The lines of a text** in which each line is ended by a line feed. -/
def linesOf (text : String) : List String :=
  ((text.toList.splitOn '\n').dropLast).map String.ofList

theorem toList_unlines (lines : List String) :
    (unlines lines).toList = lines.flatMap (fun line => line.toList ++ ['\n']) := by
  rw [unlines, String.toList_join, List.flatMap_map]
  simp only [String.toList_append]
  rfl

theorem splitOn_unlines (h : ∀ line ∈ lines, IsLine line) :
    (unlines lines).toList.splitOn '\n' = lines.map String.toList ++ [[]] := by
  rw [toList_unlines]
  induction lines with
  | nil => rfl
  | cons line lines ih =>
    rw [List.forall_mem_cons] at h
    rw [List.flatMap_cons, List.append_assoc, List.singleton_append,
      List.splitOn_append_cons_self_of_not_mem h.1, ih h.2, List.map_cons, List.cons_append]

/-- **A text of lines has these lines**, if there is no line feed in them. -/
theorem linesOf_unlines (h : ∀ line ∈ lines, IsLine line) : linesOf (unlines lines) = lines := by
  rw [linesOf, splitOn_unlines h, List.dropLast_concat, List.map_map]
  simp [Function.comp_def]

theorem unlines_append (lines lines' : List String) :
    unlines (lines ++ lines') = unlines lines ++ unlines lines' := by
  rw [unlines, List.map_append, String.join_append]
  rfl

/-- Lines put together, and a line feed behind the last one. -/
theorem unlines_eq_intercalate (hne : lines ≠ []) :
    unlines lines = "\n".intercalate lines ++ "\n" := by
  induction lines with
  | nil => exact absurd rfl hne
  | cons line rest ih =>
    cases rest with
    | nil => simp [unlines]
    | cons next rest =>
      rw [String.intercalate_cons_cons, String.append_assoc, ← ih (by simp)]
      simp [unlines, String.append_assoc]

/-! ## Blank lines -/

/-- Whether nothing in a line can be seen. -/
def isBlankLine (s : String) : Bool :=
  s.toList.all isBlank

@[simp] theorem isBlankLine_append : isBlankLine (s ++ t) = (isBlankLine s && isBlankLine t) := by
  rw [isBlankLine, String.toList_append, List.all_append]
  rfl

theorem isBlankLine_join (parts : List String) :
    isBlankLine (String.join parts) = parts.all isBlankLine := by
  rw [isBlankLine, String.toList_join, List.all_flatMap]
  rfl

theorem isBlankLine_spaces (n : Nat) :
    isBlankLine (String.ofList (List.replicate n ' ')) = true := by
  rw [isBlankLine, String.toList_ofList, List.all_eq_true]
  intro c hc
  rw [List.eq_of_mem_replicate hc]
  rfl

/-- Trimming leaves what can be seen. -/
theorem isBlankLine_trimmedEnd (s : String) : isBlankLine (trimmedEnd s) = isBlankLine s := by
  have hall : (s.toList.rtakeWhile isBlank).all isBlank = true :=
    List.all_eq_true.mpr fun c hc => List.mem_rtakeWhile_imp hc
  have hs : s.toList = trimEndWhere isBlank s.toList ++ s.toList.rtakeWhile isBlank :=
    List.rdropWhile_append_rtakeWhile.symm
  rw [isBlankLine, isBlankLine]
  conv_rhs => rw [hs, List.all_append, hall, Bool.and_true]
  rw [trimmedEnd, String.toList_ofList]

/-- **A text that ends visibly**: its last character is no blank. -/
def EndsVisibly (s : String) : Prop :=
  ∃ c ∈ s.toList.getLast?, isBlank c = false

instance (s : String) : Decidable (EndsVisibly s) :=
  decidable_of_iff (s.toList.getLast?.any fun c => !isBlank c) (by
    simp [EndsVisibly, Option.any_eq_true])

theorem endsVisibly_of_free (hne : s.toList ≠ []) (h : ∀ c ∈ s.toList, isBlank c = false) :
    EndsVisibly s :=
  ⟨_, List.getLast?_eq_some_getLast hne, h _ (List.getLast_mem hne)⟩

theorem EndsVisibly.isBlankLine_eq (h : EndsVisibly s) : isBlankLine s = false := by
  obtain ⟨c, hc, hvisible⟩ := h
  exact List.all_eq_false.mpr ⟨c, List.mem_of_getLast? hc, by simp [hvisible]⟩

theorem EndsVisibly.getLast?_ne (h : EndsVisibly s) : s.toList.getLast? ≠ some '\n' := by
  obtain ⟨c, hc, hvisible⟩ := h
  intro hlast
  obtain rfl := Option.some.inj (hlast.symm.trans hc)
  exact absurd hvisible (by decide)

/-- The end of a text decides. -/
theorem EndsVisibly.append (h : EndsVisibly t) (s : String) : EndsVisibly (s ++ t) := by
  obtain ⟨c, hc, hvisible⟩ := h
  refine ⟨c, ?_, hvisible⟩
  have hne : t.toList ≠ [] := List.ne_nil_of_mem (List.mem_of_getLast? hc)
  rwa [String.toList_append, List.getLast?_append_of_ne_nil _ hne]

theorem endsVisibly_intercalate (hne : parts ≠ []) (h : ∀ s ∈ parts.getLast?, EndsVisibly s) :
    EndsVisibly (sep.intercalate parts) := by
  induction parts with
  | nil => exact absurd rfl hne
  | cons s rest ih =>
    cases rest with
    | nil => rw [String.intercalate_singleton]; exact h s rfl
    | cons t rest =>
      rw [List.getLast?_cons_cons] at h
      rw [String.intercalate_cons_cons]
      exact (ih (by simp) h).append _

/-- What does not end with a blank is not trimmed. -/
theorem trimEndWhere_append {α : Type} {drop : α → Bool} {l : List α}
    (h : ∀ a ∈ l.getLast?, drop a = false) (rest : List α) :
    trimEndWhere drop (l ++ rest) = l ++ trimEndWhere drop rest := by
  have hl : l.reverse.dropWhile drop = l.reverse := by
    cases hrev : l.reverse with
    | nil => rfl
    | cons a before =>
      have ha : a ∈ l.getLast? := by rw [List.getLast?_eq_head?_reverse, hrev]; rfl
      rw [List.dropWhile_cons_of_neg (by simp [h a ha])]
  unfold trimEndWhere
  rw [List.reverse_append, List.dropWhile_append, hl]
  split
  · next hempty =>
    rw [List.isEmpty_iff.mp hempty, List.reverse_nil, List.append_nil, List.reverse_reverse]
  · rw [List.reverse_append, List.reverse_reverse]

/-- Only the line feed is trimmed from a text that ends visibly before it. -/
theorem EndsVisibly.trimmedEnd_append (h : EndsVisibly s) : trimmedEnd (s ++ "\n") = s := by
  obtain ⟨c, hc, hvisible⟩ := h
  have hlast : ∀ a ∈ s.toList.getLast?, isBlank a = false := by
    intro a ha
    rwa [Option.some.inj (ha.symm.trans hc)]
  rw [trimmedEnd, String.toList_append, trimEndWhere_append hlast]
  show String.ofList (s.toList ++ []) = s
  rw [List.append_nil, String.ofList_toList]

/-- **Lines that end visibly**: the last one does. -/
def LinesEndVisibly (lines : List String) : Prop :=
  ∀ line ∈ lines.getLast?, EndsVisibly line

theorem linesEndVisibly_concat {line : String} (h : EndsVisibly line) (before : List String) :
    LinesEndVisibly (before ++ [line]) := by
  intro last hlast
  rw [List.getLast?_concat] at hlast
  exact Option.some.inj hlast ▸ h

/-- **Lines without what is trimmed from their end**, which is the last line
feed. -/
theorem LinesEndVisibly.trimmedEnd_unlines (h : LinesEndVisibly lines) :
    trimmedEnd (unlines lines) = "\n".intercalate lines := by
  by_cases hne : lines = []
  · subst hne
    rfl
  · rw [unlines_eq_intercalate hne, (endsVisibly_intercalate hne h).trimmedEnd_append]

/-! ## Paragraphs -/

variable {sections : List (List String)}

/-- **The paragraphs of a text**: the lines between blank lines. -/
def paragraphs (text : String) : List (List String) :=
  splitWhere isBlankLine ((text.toList.splitOn '\n').map String.ofList)

/-- **The lines of a paragraph**: at least one, and none of them blank. -/
structure IsParagraph (lines : List String) : Prop where
  ne_nil : lines ≠ []
  visible : ∀ line ∈ lines, isBlankLine line = false

/-- **A text that is divided into sections** by blank lines: it ends with one
line feed, and what stands before that has the sections as paragraphs, of which
none is empty and none has a blank line. -/
def IsDividedInto (text : String) (sections : List (List String)) : Prop :=
  ∃ body, text = body ++ "\n" ∧ body.toList.getLast? ≠ some '\n' ∧ paragraphs body = sections
    ∧ ∀ lines ∈ sections, IsParagraph lines

/-- The lines of a text are those before the line feed at its end. -/
theorem linesOf_append_newline (text : String) :
    linesOf (text ++ "\n") = (text.toList.splitOn '\n').map String.ofList := by
  have hsplit : (text.toList ++ ['\n']).splitOn '\n' = text.toList.splitOn '\n' ++ [[]] := by
    rw [List.splitOn, List.splitOnP_append_cons _ _ (by rfl)]
    rfl
  rw [linesOf, String.toList_append]
  show ((text.toList ++ ['\n']).splitOn '\n').dropLast.map String.ofList = _
  rw [hsplit, List.dropLast_concat]

/-- Sections with a blank line between them are lines with an empty line
between them. -/
theorem unlines_intercalate (hne : sections ≠ []) (h : ∀ lines ∈ sections, lines ≠ []) :
    unlines ([""].intercalate sections)
      = "\n\n".intercalate (sections.map ("\n".intercalate ·)) ++ "\n" := by
  induction sections with
  | nil => exact absurd rfl hne
  | cons lines rest ih =>
    rw [List.forall_mem_cons] at h
    cases rest with
    | nil =>
      rw [List.intercalate_singleton, List.map_singleton, String.intercalate_singleton,
        unlines_eq_intercalate h.1]
    | cons next rest =>
      have hblank : unlines lines ++ unlines [""] = "\n".intercalate lines ++ "\n\n" := by
        rw [unlines_eq_intercalate h.1, String.append_assoc]
        rfl
      rw [List.intercalate_cons_cons, unlines_append, unlines_append, ih (by simp) h.2, hblank,
        ← String.append_assoc]
      simp only [List.map_cons, String.intercalate_cons_cons]

/-- **Lines with empty lines between them are cut** where they were put
together, if no line is blank. -/
theorem splitWhere_intercalate (hne : sections ≠ [])
    (h : ∀ lines ∈ sections, ∀ line ∈ lines, isBlankLine line = false) :
    splitWhere isBlankLine ([""].intercalate sections) = sections := by
  rw [splitWhere_eq_splitOnP]
  induction sections with
  | nil => exact absurd rfl hne
  | cons lines rest ih =>
    rw [List.forall_mem_cons] at h
    cases rest with
    | nil => rw [List.intercalate_singleton, List.splitOnP_eq_singleton h.1]
    | cons next rest =>
      rw [List.intercalate_cons_cons, List.append_assoc, List.singleton_append,
        List.splitOnP_append_cons_of_forall_mem h.1 _ (by rfl), ih (by simp) h.2]

/-- The lines with empty lines between them are lines. -/
theorem isLine_of_mem_intercalate (h : ∀ lines ∈ sections, ∀ line ∈ lines, IsLine line) :
    ∀ line ∈ [""].intercalate sections, IsLine line := by
  induction sections with
  | nil => nofun
  | cons lines rest ih =>
    rw [List.forall_mem_cons] at h
    cases rest with
    | nil => rw [List.intercalate_singleton]; exact h.1
    | cons next rest =>
      rw [List.intercalate_cons_cons, List.forall_mem_append, List.forall_mem_append,
        List.forall_mem_singleton]
      exact ⟨⟨h.1, by decide⟩, ih h.2⟩

/-- **When sections with a blank line between them can be told apart**: when
none is empty and none has a blank line. -/
theorem isDividedInto_iff (hne : sections ≠ [])
    (hlines : ∀ lines ∈ sections, ∀ line ∈ lines, IsLine line)
    (hend : ∀ lines ∈ sections, LinesEndVisibly lines) :
    IsDividedInto ("\n\n".intercalate (sections.map ("\n".intercalate ·)) ++ "\n") sections
      ↔ ∀ lines ∈ sections, IsParagraph lines := by
  refine ⟨fun ⟨_, _, _, _, h⟩ => h, fun h => ⟨_, rfl, ?_, ?_, h⟩⟩
  · refine (endsVisibly_intercalate (by simpa using hne) fun s hs => ?_).getLast?_ne
    obtain ⟨lines, hmem, rfl⟩ := List.mem_map.mp (List.mem_of_getLast? hs)
    exact endsVisibly_intercalate (h lines hmem).ne_nil (hend lines hmem)
  · rw [paragraphs, ← linesOf_append_newline,
      ← unlines_intercalate hne (fun lines hlines => (h lines hlines).ne_nil),
      linesOf_unlines (isLine_of_mem_intercalate hlines),
      splitWhere_intercalate hne (fun lines hlines => (h lines hlines).visible)]

/-! ## Words -/

/-- **A word**: a text that is not empty and has no blank in it. -/
structure IsWord (name : String) : Prop where
  ne_empty : name ≠ ""
  free : ∀ c ∈ name.toList, isBlank c = false

theorem free_of_all (h : name.toList.all (fun c => !isBlank c) = true) :
    ∀ c ∈ name.toList, isBlank c = false := by
  simpa using h

theorem IsWord.toList_ne_nil (h : IsWord name) : name.toList ≠ [] :=
  mt String.toList_eq_nil_iff.mp h.ne_empty

theorem IsWord.isBlankLine_eq (h : IsWord name) : isBlankLine name = false :=
  (endsVisibly_of_free h.toList_ne_nil h.free).isBlankLine_eq

theorem IsWord.isLine (h : IsWord name) : IsLine name :=
  fun hmem => absurd (h.free _ hmem) (by decide)

theorem isWord_of_mem_wordsOf (h : name ∈ wordsOf text) : IsWord name := by
  obtain ⟨word, hword, rfl⟩ := List.mem_map.mp h
  obtain ⟨hne, before, after, -, hbetween⟩ := mem_wordsBy_iff.mp hword
  refine ⟨fun hempty => hne (String.ofList_injective hempty), ?_⟩
  rw [String.toList_ofList]
  exact hbetween.free

theorem isWord_of_mem_declaredWords {directive : String}
    (h : name ∈ declaredWords directive lines) : IsWord name := by
  obtain ⟨line, -, hword⟩ := List.mem_flatMap.mp h
  split at hword
  · exact isWord_of_mem_wordsOf (List.mem_of_mem_tail hword)
  · cases hword

namespace Grammar

variable {g : Grammar}

/-- **The names in a grammar file are words.** -/
theorem isWord_of_ofFile (h : ofFile text = .ok g) :
    (∀ name ∈ g.nonterminals, IsWord name) ∧ ∀ name ∈ g.terminals, IsWord name := by
  have hfirst : DirectiveFile.firstFault? false (DirectiveFile.lines text) = none := by
    cases hfault : DirectiveFile.firstFault? false (DirectiveFile.lines text) with
    | none => rfl
    | some e => cases (DirectiveFile.ofFile_of_firstFault? hfault).symm.trans h
  rw [DirectiveFile.ofFile_eq_toGrammar hfirst] at h
  obtain ⟨hnonterminals, hterminals, -⟩ := Declarations.names_of_toGrammar h
  rw [DirectiveFile.texts_declared hfirst] at hnonterminals hterminals
  rw [hnonterminals, hterminals]
  refine ⟨fun name hname => isWord_of_mem_declaredWords hname, fun name hname => ?_⟩
  obtain hname | rfl := Declarations.mem_withEpsilon.mp hname
  · exact isWord_of_mem_declaredWords hname
  · exact ⟨by decide, free_of_all rfl⟩

theorem isWord_terminalName (h : ofFile text = .ok g) {t : Terminal}
    (ht : t.index ≤ g.terminals.length) : IsWord (g.terminalName t) := by
  unfold terminalName
  split
  · exact ⟨by decide, free_of_all rfl⟩
  · next hne =>
    have hlt : t.index < g.terminals.length :=
      lt_of_le_of_ne ht fun heq => hne (congrArg Terminal.mk heq)
    rw [List.getElem?_eq_getElem hlt, Option.getD_some]
    exact (isWord_of_ofFile h).2 _ (List.getElem_mem hlt)

end Grammar

end GrammarAnalysis
