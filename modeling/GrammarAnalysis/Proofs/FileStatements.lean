import GrammarAnalysis.Grammar.DirectiveFile
import GrammarAnalysis.Proofs.LocatedText

/-!
# Statements of a grammar file

A grammar file consists of *statements*: its lines without the blanks around
them, blank lines and comments left out (`IsStatement`). A directive is a
statement that begins with its name, and the words behind the name are
*declared* by it (`IsDeclaredBy`); a statement that is no directive is a
production line. These notions are about the characters of the text, and
say of each piece at which bytes it stands. A piece of a statement is an
excerpt of the text (`IsExcerpt`): it is not empty, within one line and
without blanks at its ends, with a character boundary at either end of its
span.

The reader works on located characters instead. What it makes of a line is
described by `Reads`; a line that says something is a statement at its
span, and every statement is such a line. The words of directives are cut
from the text one after another (`Listed`), so their spans are in the order
in which the words are declared.
-/

namespace GrammarAnalysis

open String (utf8Len)

/-! ## Excerpts of a text -/

/-- **The bytes of a piece** that stands behind `before`, where `before`
begins at a given byte. -/
def Span.behind (start : Nat) (before piece : List Char) : Span :=
  ⟨start + utf8Len before, start + utf8Len before + utf8Len piece⟩

/-- **A statement of a grammar file**: a line, which ends at line feeds or
at the ends of the text, without the blanks around it. It is neither empty
nor a comment. The span is that of its bytes. -/
structure IsStatement (text line : String) (span : Span) : Prop where
  exists_line : ∃ before left right after : List Char,
    text.toList = before ++ (left ++ line.toList ++ right) ++ after
      ∧ IsBetween (· == '\n') before (left ++ line.toList ++ right) after
      ∧ (∀ c ∈ left, isBlank c = true) ∧ (∀ c ∈ right, isBlank c = true)
      ∧ span = Span.behind 0 (before ++ left) line.toList
  tight : IsTight isBlank line.toList
  ne_empty : line ≠ ""
  not_comment : ¬ ['/', '/'] <+: line.toList

/-- **An excerpt of a grammar file**: a piece that is not empty, in one line
that is no comment, without blanks at its ends. Its span has character
boundaries as its ends and the piece between them. -/
structure IsExcerpt (text piece : String) (span : Span) : Prop where
  start_lt_stop : span.start < span.stop
  stop_le : span.stop ≤ text.utf8ByteSize
  isValid_start : String.Pos.Raw.IsValid text ⟨span.start⟩
  isValid_stop : String.Pos.Raw.IsValid text ⟨span.stop⟩
  extract_eq : String.Pos.Raw.extract text ⟨span.start⟩ ⟨span.stop⟩ = piece
  newline_notMem : '\n' ∉ piece.toList
  tight : IsTight isBlank piece.toList
  exists_statement : ∃ line lineSpan, IsStatement text line lineSpan
    ∧ lineSpan.start ≤ span.start ∧ span.stop ≤ lineSpan.stop

/-- **A piece that is cut out of a text** stands at its bytes, and has
character boundaries as its ends. -/
theorem extract_behind {text : String} {before piece after : List Char}
    (h : text.toList = before ++ piece ++ after) :
    let span := Span.behind 0 before piece
    String.Pos.Raw.IsValid text ⟨span.start⟩ ∧ String.Pos.Raw.IsValid text ⟨span.stop⟩
      ∧ String.Pos.Raw.extract text ⟨span.start⟩ ⟨span.stop⟩ = String.ofList piece
      ∧ span.stop ≤ text.utf8ByteSize := by
  obtain rfl : text = String.ofList (before ++ piece ++ after) := by
    rw [← h, String.ofList_toList]
  simp only [Span.behind, Nat.zero_add, String.Pos.Raw.isValid_iff_exists_append]
  refine ⟨⟨String.ofList before, String.ofList (piece ++ after), ?_, ?_⟩,
    ⟨String.ofList (before ++ piece), String.ofList after, ?_, ?_⟩,
    String.extract_of_valid before piece after, ?_⟩
  · rw [← String.ofList_append, List.append_assoc]
  · rw [String.rawEndPos_ofList]
  · rw [← String.ofList_append]
  · rw [String.rawEndPos_ofList, String.utf8Len_append]
  · rw [String.utf8ByteSize_ofList, String.utf8Len_append, String.utf8Len_append]
    exact Nat.le_add_right _ _

theorem utf8Len_pos {s : String} (h : s ≠ "") : 0 < utf8Len s.toList := by
  rw [Nat.pos_iff_ne_zero, Ne, String.utf8Len_eq_zero]
  exact fun hnil => h (String.toList_eq_nil_iff.mp hnil)

namespace IsStatement

variable {text line piece : String} {lineSpan : Span} {before after : List Char}

/-- **Pieces of statements are excerpts.** -/
theorem isExcerpt_of_eq (h : IsStatement text line lineSpan)
    (hline : line.toList = before ++ piece.toList ++ after) (hne : piece ≠ "")
    (htight : IsTight isBlank piece.toList) :
    IsExcerpt text piece (Span.behind lineSpan.start before piece.toList) := by
  obtain ⟨before₀, left, right, after₀, htext, hbetween, -, -, rfl⟩ := h.exists_line
  have hcut : text.toList = (before₀ ++ left ++ before) ++ piece.toList
      ++ (after ++ right ++ after₀) := by
    rw [htext, hline]
    simp only [List.append_assoc]
  have hspan : Span.behind (Span.behind 0 (before₀ ++ left) line.toList).start before piece.toList
      = Span.behind 0 (before₀ ++ left ++ before) piece.toList := by
    simp only [Span.behind, String.utf8Len_append, Nat.add_assoc]
  have hlen : utf8Len line.toList = utf8Len before + utf8Len piece.toList + utf8Len after := by
    rw [hline, String.utf8Len_append, String.utf8Len_append]
  obtain ⟨hstart, hstop, hextract, hle⟩ := extract_behind hcut
  rw [← hspan] at hstart hstop hextract hle
  refine ⟨?_, hle, hstart, hstop, ?_, fun hnewline => ?_, htight, line, _, h, ?_, ?_⟩
  · exact Nat.lt_add_of_pos_right (utf8Len_pos hne)
  · rw [hextract, String.ofList_toList]
  · have hfree := hbetween.free '\n' (by simp [hline, hnewline])
    exact absurd hfree (by decide)
  · exact Nat.le_add_right _ _
  · simp only [Span.behind]
    omega

/-- A statement is an excerpt itself. -/
theorem isExcerpt (h : IsStatement text line lineSpan) : IsExcerpt text line lineSpan := by
  have heq : line.toList = [] ++ line.toList ++ [] := by simp
  have hexcerpt := h.isExcerpt_of_eq heq h.ne_empty h.tight
  obtain ⟨before, left, right, after, -, -, -, -, rfl⟩ := h.exists_line
  exact hexcerpt

end IsStatement

/-! ## Words of a directive -/

/-- **A word that a directive declares**: it stands between blanks in a
statement whose first word is the name of the directive, and is not that
word. -/
structure IsDeclaredBy (text directive word : String) (span : Span) : Prop where
  exists_statement : ∃ line lineSpan before after, IsStatement text line lineSpan
    ∧ (wordsOf line).head? = some directive
    ∧ line.toList = before ++ word.toList ++ after
    ∧ IsBetween isBlank before word.toList after ∧ before ≠ []
    ∧ span = Span.behind lineSpan.start before word.toList
  ne_empty : word ≠ ""

theorem IsDeclaredBy.isExcerpt {text directive word : String} {span : Span}
    (h : IsDeclaredBy text directive word span) : IsExcerpt text word span := by
  obtain ⟨line, lineSpan, before, after, hline, -, heq, hbetween, -, rfl⟩ := h.exists_statement
  exact hline.isExcerpt_of_eq heq h.ne_empty (isTight_of_forall hbetween.free)

/-- **The production lines of a file**: the statements that are no
directives. -/
def IsProductionLine (text line : String) (span : Span) : Prop :=
  IsStatement text line span ∧ ¬ ['%'] <+: line.toList

/-! ## Reading a line -/

namespace DirectiveFile

variable {text : String} {raw line word name rest before after : List Located}

/-- **A line that says something**, without the blanks around it. -/
structure Says (line : List Located) : Prop where
  tight : IsTight (fun c => isBlank c.char) line
  ne_nil : line ≠ []
  not_comment : ¬ ['/', '/'] <+: line.map (·.char)

/-- **The first word of a line** that says something, and the rest of the
line, which holds the other words. -/
structure IsNamed (line name rest : List Located) : Prop where
  speaks : Says line
  eq_append : line = name ++ rest
  ne_nil : name ≠ []
  isBetween : IsBetween (fun c => isBlank c.char) [] name rest
  words_eq : Located.words line = name :: Located.words rest

theorem Says.exists_isNamed (h : Says line) : ∃ name rest, IsNamed line name rest := by
  obtain ⟨name, rest, hline, hne, hbetween, hwords⟩ :=
    exists_wordsBy_eq_cons h.ne_nil h.tight.head
  exact ⟨name, rest, h, hline, hne, hbetween, hwords⟩

/-- **What a trimmed line is read as.** -/
inductive Reads (line : List Located) : Line → Prop
  | blank (h : ¬ Says line) : Reads line .blank
  | production (h : Says line) (hdirective : ¬ ['%'] <+: line.map (·.char)) :
    Reads line (.production (Declared.ofLocated line))
  | nonterminals {name rest : List Located} (h : IsNamed line name rest)
    (hname : Located.text name = "%nonterminals") :
    Reads line (.nonterminals ((Located.words rest).map Declared.ofLocated))
  | terminals {name rest : List Located} (h : IsNamed line name rest)
    (hname : Located.text name = "%terminals") :
    Reads line (.terminals ((Located.words rest).map Declared.ofLocated))
  | start {name rest : List Located} (h : IsNamed line name rest)
    (hname : Located.text name = "%start") :
    Reads line (.start (Declared.ofLocated line) ((Located.words rest).map Declared.ofLocated))
  | unknown {name rest : List Located} (h : IsNamed line name rest)
    (hname : Located.text name ∉ ["%nonterminals", "%terminals", "%start"]) :
    Reads line (.unknown (Declared.ofLocated name))

/-- A directive says what its name says. -/
theorem reads_ofDirective {name rest : List Located} (h : IsNamed line name rest) :
    Reads line (Line.ofDirective (Declared.ofLocated line) (Declared.ofLocated name)
      ((Located.words rest).map Declared.ofLocated)) := by
  unfold Line.ofDirective
  split
  · next hname => exact .nonterminals h hname
  split
  · next hname => exact .terminals h hname
  split
  · next hname => exact .start h hname
  · next hnonterminals hterminals hstart =>
    refine .unknown h (fun hmem => ?_)
    simp only [List.mem_cons, List.not_mem_nil, or_false] at hmem
    obtain hname | hname | hname := hmem
    · exact hnonterminals hname
    · exact hterminals hname
    · exact hstart hname

theorem isTight_trim (raw : List Located) :
    IsTight (fun c => isBlank c.char) (Located.trim raw) :=
  isTight_trimWhere _ raw

/-- **The reading of a line.** -/
theorem reads_ofLocated (raw : List Located) : Reads (Located.trim raw) (Line.ofLocated raw) := by
  have htight := isTight_trim raw
  unfold Line.ofLocated
  simp only
  generalize Located.trim raw = line at htight ⊢
  split
  · exact .blank (fun h => h.ne_nil rfl)
  · exact .blank (fun h => h.not_comment (by simp))
  · next o rest =>
    have hspeaks : Says (⟨o, '%'⟩ :: rest) := ⟨htight, by simp, by simp⟩
    obtain ⟨name, tail, hnamed⟩ := hspeaks.exists_isNamed
    rw [hnamed.words_eq, List.map_cons]
    exact reads_ofDirective hnamed
  · next hnil hcomment hdirective =>
    refine .production ⟨htight, hnil, ?_⟩ ?_
    · rintro ⟨tail, h⟩
      obtain ⟨⟨o, _⟩, line, rfl, rfl, htail⟩ := List.map_eq_cons_iff.mp h.symm
      obtain ⟨⟨o', _⟩, line, rfl, rfl, -⟩ := List.map_eq_cons_iff.mp htail
      exact hcomment o o' line rfl
    · rintro ⟨tail, h⟩
      obtain ⟨⟨o, _⟩, line, rfl, rfl, -⟩ := List.map_eq_cons_iff.mp h.symm
      exact hdirective o line rfl

/-! ## Statements are lines that say something -/

theorem wordsOf_text (l : List Located) :
    wordsOf (Located.text l) = (Located.words l).map Located.text := by
  have hwords : wordsBy id (l.map (·.char)) = (Located.words l).map (List.map (·.char)) :=
    wordsBy_map (·.char) l
  rw [wordsOf, Located.text, String.toList_ofList, hwords, List.map_map]
  rfl

theorem toList_text (l : List Located) : (Located.text l).toList = l.map (·.char) :=
  String.toList_ofList

theorem text_ne_empty {l : List Located} (h : l ≠ []) : Located.text l ≠ "" := by
  intro htext
  have hnil := toList_text l
  rw [htext] at hnil
  exact h (List.map_eq_nil_iff.mp hnil.symm)

/-- **Where a line of a file stands.** -/
theorem exists_of_mem_lines (h : raw ∈ Located.lines (Located.ofString text)) :
    ∃ before left right after,
      Located.ofString text = before ++ (left ++ Located.trim raw ++ right) ++ after
        ∧ IsBetween (fun c => c.char == '\n') before (left ++ Located.trim raw ++ right) after
        ∧ (∀ c ∈ left, isBlank c.char = true) ∧ ∀ c ∈ right, isBlank c.char = true := by
  obtain ⟨before, after, htext, hbetween⟩ := mem_splitWhere_iff.mp h
  obtain ⟨left, right, hraw, hleft, hright, -⟩ :=
    exists_trimWhere (fun c : Located => isBlank c.char) raw
  refine ⟨before, left, right, after, ?_, ?_, hleft, hright⟩
  · rw [htext]
    exact congrArg (before ++ · ++ after) hraw
  · rw [hraw] at hbetween
    exact hbetween

/-- **A line that says something is a statement.** -/
theorem isStatement_of_mem_lines (h : raw ∈ Located.lines (Located.ofString text))
    (hspeaks : Says (Located.trim raw)) :
    IsStatement text (Located.text (Located.trim raw)) (Located.span (Located.trim raw)) := by
  obtain ⟨before, left, right, after, htext, hbetween, hleft, hright⟩ := exists_of_mem_lines h
  generalize Located.trim raw = line at *
  have hcut : Located.ofString text = (before ++ left) ++ line ++ (right ++ after) := by
    rw [htext]
    simp only [List.append_assoc]
  refine ⟨⟨before.map (·.char), left.map (·.char), right.map (·.char), after.map (·.char),
    ?_, ?_, ?_, ?_, ?_⟩, ?_, text_ne_empty hspeaks.ne_nil, ?_⟩
  · rw [Located.toList_eq_of_ofString_eq htext, toList_text, List.map_append, List.map_append]
  · rw [toList_text, ← List.map_append, ← List.map_append]
    exact isBetween_map_iff.mpr hbetween
  · exact List.forall_mem_map.mpr hleft
  · exact List.forall_mem_map.mpr hright
  · rw [Located.span_of_ofString_eq hcut hspeaks.ne_nil, toList_text, List.map_append]
    simp only [Span.behind, Nat.zero_add]
  · rw [toList_text]
    exact isTight_map_iff.mpr hspeaks.tight
  · rw [toList_text]
    exact hspeaks.not_comment

/-- **A statement is a line that says something.** -/
theorem exists_mem_lines_of_isStatement {line : String} {span : Span}
    (h : IsStatement text line span) :
    ∃ raw ∈ Located.lines (Located.ofString text), Says (Located.trim raw)
      ∧ Located.text (Located.trim raw) = line := by
  obtain ⟨before, left, right, after, htext, hbetween, hleft, hright, -⟩ := h.exists_line
  have hmap : (Located.ofString text).map (·.char) = text.toList :=
    Located.map_char_listFrom 0 text.toList
  rw [htext] at hmap
  obtain ⟨l, after, hl, hfront, rfl⟩ := List.map_eq_append_iff.mp hmap
  obtain ⟨before, raw, rfl, rfl, hraw⟩ := List.map_eq_append_iff.mp hfront
  rw [← hraw] at hbetween
  have hline : (Located.trim raw).map (·.char) = line.toList := by
    rw [Located.trim, map_trimWhere, hraw]
    exact trimWhere_append hleft hright h.tight
  refine ⟨raw, mem_splitWhere_iff.mpr ⟨before, after, hl, isBetween_map_iff.mp hbetween⟩,
    ⟨isTight_trim raw, fun hnil => h.ne_empty ?_, hline ▸ h.not_comment⟩, ?_⟩
  · rw [hnil] at hline
    exact String.toList_eq_nil_iff.mp hline.symm
  · rw [Located.text, hline, String.ofList_toList]

/-! ## Words in the order of the file -/

/-- The span of a part of a statement. -/
theorem span_of_trim_eq (h : raw ∈ Located.lines (Located.ofString text))
    (hline : Located.trim raw = before ++ word ++ after) (hne : word ≠ []) :
    Located.span word = Span.behind (Located.span (Located.trim raw)).start
      (before.map (·.char)) (word.map (·.char)) := by
  obtain ⟨before₀, left, right, after₀, htext, -, -, -⟩ := exists_of_mem_lines h
  have hcut : Located.ofString text
      = (before₀ ++ left) ++ Located.trim raw ++ (right ++ after₀) := by
    rw [htext]
    simp only [List.append_assoc]
  have hcut' : Located.ofString text
      = (before₀ ++ left ++ before) ++ word ++ (after ++ right ++ after₀) := by
    rw [htext, hline]
    simp only [List.append_assoc]
  rw [Located.span_of_ofString_eq hcut' hne,
    Located.span_of_ofString_eq hcut (by simp [hline, hne])]
  simp only [Span.behind, List.map_append, String.utf8Len_append]

/-- **Declared texts in the order of a located text**: words that are cut
from it one after another, all declared by one directive. -/
def Listed (text directive : String) (l : List Located) (ds : List Declared) : Prop :=
  ∃ words : List (List Located), ds = words.map Declared.ofLocated ∧ words.flatten.Sublist l
    ∧ ∀ word ∈ words, word ≠ []
      ∧ IsDeclaredBy text directive (Located.text word) (Located.span word)

namespace Listed

variable {directive : String} {l l' : List Located} {ds ds' : List Declared}

theorem nil (text directive : String) (l : List Located) : Listed text directive l [] :=
  ⟨[], rfl, List.nil_sublist l, by simp⟩

theorem append (h : Listed text directive l ds) (h' : Listed text directive l' ds') :
    Listed text directive (l ++ l') (ds ++ ds') := by
  obtain ⟨words, rfl, hsub, hwords⟩ := h
  obtain ⟨words', rfl, hsub', hwords'⟩ := h'
  refine ⟨words ++ words', List.map_append.symm, ?_, fun word hword => ?_⟩
  · rw [List.flatten_append]
    exact hsub.append hsub'
  · exact (List.mem_append.mp hword).elim (hwords word) (hwords' word)

theorem mono (h : Listed text directive l ds) (hl : l.Sublist l') :
    Listed text directive l' ds := by
  obtain ⟨words, hds, hsub, hwords⟩ := h
  exact ⟨words, hds, hsub.trans hl, hwords⟩

/-- Each of the texts is declared. -/
theorem exists_isDeclaredBy (h : Listed text directive l ds) {d : Declared} (hd : d ∈ ds) :
    ∃ span, d.span = some span ∧ IsDeclaredBy text directive d.text span := by
  obtain ⟨words, rfl, -, hwords⟩ := h
  obtain ⟨word, hword, rfl⟩ := List.mem_map.mp hd
  exact ⟨_, rfl, (hwords word hword).2⟩

/-- **The texts have their spans in order.** -/
theorem pairwise_span (h : Listed text directive (Located.ofString text) ds) :
    ds.Pairwise (fun c d => ∀ s ∈ c.span, ∀ s' ∈ d.span, s.stop ≤ s'.start) := by
  obtain ⟨words, rfl, hsub, hwords⟩ := h
  have hpairwise := Located.pairwise_span hsub (fun word hword => (hwords word hword).1)
  refine List.pairwise_map.mpr (hpairwise.imp fun hle s hs s' hs' => ?_)
  obtain rfl := Option.some.inj hs
  obtain rfl := Option.some.inj hs'
  exact hle

end Listed

/-- A line begins with its first word. -/
theorem IsNamed.begins (h : IsNamed line name rest) :
    (Located.text name).toList <+: (Located.text line).toList := by
  rw [toList_text, toList_text, h.eq_append, List.map_append]
  exact List.prefix_append _ _

/-- The first word of a line, in its text. -/
theorem IsNamed.head?_wordsOf (h : IsNamed line name rest) :
    (wordsOf (Located.text line)).head? = some (Located.text name) := by
  rw [wordsOf_text, h.words_eq, List.map_cons, List.head?_cons]

/-- **The words behind the name of a directive** are declared by it. -/
theorem IsNamed.listed_words (h : IsNamed (Located.trim raw) name rest)
    (hraw : raw ∈ Located.lines (Located.ofString text)) :
    Listed text (Located.text name) raw ((Located.words rest).map Declared.ofLocated) := by
  refine ⟨Located.words rest, rfl, ?_, fun word hword => ?_⟩
  · have hrest : rest.Sublist (Located.trim raw) := by
      rw [h.eq_append]
      exact List.sublist_append_right name rest
    exact (flatten_wordsBy_sublist _ rest).trans (hrest.trans (trimWhere_sublist _ raw))
  · obtain ⟨hne, before, after, hrest, hbetween⟩ := mem_wordsBy_iff.mp hword
    have hbefore := h.isBetween.before_ne_nil hrest hbetween hne
    have hcut : Located.trim raw = (name ++ before) ++ word ++ after := by
      rw [h.eq_append, hrest]
      simp only [List.append_assoc]
    refine ⟨hne, ⟨_, _, (name ++ before).map (·.char), after.map (·.char),
      isStatement_of_mem_lines hraw h.speaks, h.head?_wordsOf, ?_, ?_, ?_, ?_⟩, text_ne_empty hne⟩
    · rw [toList_text, toList_text, hcut]
      simp only [List.map_append]
    · rw [toList_text]
      exact isBetween_map_iff.mpr (hbetween.append_left hbefore name)
    · simp [hbefore]
    · rw [toList_text]
      exact span_of_trim_eq hraw hcut hne

/-! ## What the lines of a file are -/

/-- What a line declares by a directive. -/
def declares (directive : String) : Line → List Declared
  | .nonterminals words => if directive = "%nonterminals" then words else []
  | .terminals words => if directive = "%terminals" then words else []
  | .start _ words => if directive = "%start" then words else []
  | _ => []

theorem nonterminalWords_eq_declares :
    Line.nonterminalWords = declares "%nonterminals" := by
  funext l
  cases l <;> rfl

theorem terminalWords_eq_declares : Line.terminalWords = declares "%terminals" := by
  funext l
  cases l <;> rfl

variable {directive : String}

/-- **What a line declares is listed in it.** -/
theorem listed_declares (h : raw ∈ Located.lines (Located.ofString text)) :
    Listed text directive raw (declares directive (Line.ofLocated raw)) := by
  have hreads := reads_ofLocated raw
  generalize Line.ofLocated raw = l at hreads ⊢
  have hnamed : ∀ {name rest : List Located} {known : String},
      IsNamed (Located.trim raw) name rest → Located.text name = known →
        Listed text directive raw
          (if directive = known then (Located.words rest).map Declared.ofLocated else []) := by
    intro name rest known hnamed hname
    split
    · next heq =>
      rw [heq, ← hname]
      exact hnamed.listed_words h
    · exact Listed.nil text directive raw
  cases hreads with
  | blank | production | unknown => exact Listed.nil text directive raw
  | nonterminals hline hname => exact hnamed hline hname
  | terminals hline hname => exact hnamed hline hname
  | start hline hname => exact hnamed hline hname

/-- **What the lines of a file declare** is listed in the file. -/
theorem listed_flatMap_declares (text directive : String) :
    Listed text directive (Located.ofString text) ((lines text).flatMap (declares directive)) := by
  have hraws : ∀ raws : List (List Located),
      (∀ raw ∈ raws, Listed text directive raw (declares directive (Line.ofLocated raw))) →
        Listed text directive raws.flatten
          ((raws.map Line.ofLocated).flatMap (declares directive)) := by
    intro raws hraws
    induction raws with
    | nil => exact Listed.nil text directive []
    | cons raw raws ih =>
      rw [List.map_cons, List.flatMap_cons, List.flatten_cons]
      exact (hraws raw List.mem_cons_self).append
        (ih fun raw' h => hraws raw' (List.mem_cons_of_mem raw h))
  exact (hraws _ fun _ h => listed_declares h).mono (flatten_splitWhere_sublist _ _)

/-- **Start lines are statements**, and their words are declared. -/
theorem of_start_mem_lines {line : Declared} {words : List Declared}
    (h : Line.start line words ∈ lines text) :
    (∃ span, line.span = some span ∧ IsStatement text line.text span
        ∧ (wordsOf line.text).head? = some "%start")
      ∧ ∀ word ∈ words, ∃ span, word.span = some span
        ∧ IsDeclaredBy text "%start" word.text span := by
  obtain ⟨raw, hraw, heq⟩ := List.mem_map.mp h
  have hreads := reads_ofLocated raw
  rw [heq] at hreads
  cases hreads with
  | start hnamed hname =>
    refine ⟨⟨_, rfl, isStatement_of_mem_lines hraw hnamed.speaks, ?_⟩, fun word hword => ?_⟩
    · rw [← hname]
      exact hnamed.head?_wordsOf
    · rw [← hname]
      exact (hnamed.listed_words hraw).exists_isDeclaredBy hword

/-- Production lines are what is read as productions. -/
theorem of_production_mem_lines {d : Declared} (h : Line.production d ∈ lines text) :
    ∃ span, d.span = some span ∧ IsProductionLine text d.text span := by
  obtain ⟨raw, hraw, heq⟩ := List.mem_map.mp h
  have hreads := reads_ofLocated raw
  rw [heq] at hreads
  cases hreads with
  | production hspeaks hdirective =>
    refine ⟨_, rfl, isStatement_of_mem_lines hraw hspeaks, ?_⟩
    show ¬ ['%'] <+: (Located.text (Located.trim raw)).toList
    rwa [toList_text]

/-- **Unknown directives** have their name at the beginning of a
statement. -/
theorem of_unknown_mem_lines {d : Declared} (h : Line.unknown d ∈ lines text) :
    d.text ∉ ["%nonterminals", "%terminals", "%start"]
      ∧ ∃ line lineSpan, IsStatement text line lineSpan
        ∧ (wordsOf line).head? = some d.text ∧ d.text.toList <+: line.toList
        ∧ d.span = some (Span.behind lineSpan.start [] d.text.toList) := by
  obtain ⟨raw, hraw, heq⟩ := List.mem_map.mp h
  have hreads := reads_ofLocated raw
  rw [heq] at hreads
  cases hreads with
  | @unknown name rest hnamed hname =>
    refine ⟨hname, _, _, isStatement_of_mem_lines hraw hnamed.speaks, hnamed.head?_wordsOf, ?_, ?_⟩
    · exact hnamed.begins
    · show some (Located.span name) = some (Span.behind _ [] (Located.text name).toList)
      have hcut : Located.trim raw = [] ++ name ++ rest := hnamed.eq_append
      rw [toList_text, span_of_trim_eq hraw hcut hnamed.ne_nil, List.map_nil]

/-- **A statement that begins with the name of the start directive** is
read as a start line. -/
theorem exists_start_mem_lines {line : String} {span : Span} (h : IsStatement text line span)
    (hstart : (wordsOf line).head? = some "%start") :
    ∃ d words, Line.start d words ∈ lines text := by
  obtain ⟨raw, hraw, hspeaks, rfl⟩ := exists_mem_lines_of_isStatement h
  have hmem : Line.ofLocated raw ∈ lines text := List.mem_map_of_mem hraw
  have hreads := reads_ofLocated raw
  generalize Line.ofLocated raw = l at hmem hreads
  have hname : ∀ {name rest : List Located}, IsNamed (Located.trim raw) name rest →
      Located.text name = "%start" := fun hnamed =>
    Option.some.inj (hnamed.head?_wordsOf.symm.trans hstart)
  cases hreads with
  | blank hnot => exact absurd hspeaks hnot
  | production _ hdirective =>
    -- the name of a directive begins with a percent sign
    obtain ⟨name, rest, hnamed⟩ := hspeaks.exists_isNamed
    have hbegins := hnamed.begins
    rw [hname hnamed, toList_text] at hbegins
    exact absurd (List.IsPrefix.trans (by decide) hbegins) hdirective
  | nonterminals hnamed hother => exact absurd ((hname hnamed).symm.trans hother) (by decide)
  | terminals hnamed hother => exact absurd ((hname hnamed).symm.trans hother) (by decide)
  | start => exact ⟨_, _, hmem⟩
  | unknown hnamed hother => exact absurd (by simp [hname hnamed]) hother

end DirectiveFile

end GrammarAnalysis
