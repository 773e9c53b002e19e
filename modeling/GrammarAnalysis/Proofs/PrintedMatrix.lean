import GrammarAnalysis.Precedence.Report
import GrammarAnalysis.Proofs.AssertionOrder
import GrammarAnalysis.Proofs.PrintedLines
import Mathlib.Data.List.TakeDrop

/-!
# The printed precedence matrix

The grid that prints a precedence matrix has a head for every row and columns
of one width. The width is counted in bytes and the padding in characters; a
name has at most as many characters as bytes, so it fits its column
(`Fits`), and all columns of all lines begin at the same places.

What stands in a column is a *field* of a line (`field`). Blanks at the end of a
line are removed, so positions past the end count as spaces: removing changes
no field, because all blanks of the grid are spaces (`field_trimmedEnd`). Each
field is then one block of the line before it was trimmed (`field_gridLine`).

Names are words and signs are no blanks, so what a field holds is found by
dropping its spaces. `readGrid` reads names and relations from the text alone,
and recovers all of them.
-/

namespace GrammarAnalysis

variable {s line head cell : String} {cells : List String} {width start count j n : Nat}

/-! ## Fields of a line -/

/-- **The characters of a line from a place on.** Positions past the end of the
line are spaces. -/
def field (line : String) (start count : Nat) : String :=
  String.ofList ((line.toList.drop start).takeD count ' ')

theorem takeD_append_replicate {α : Type} (l : List α) (a : α) :
    (l ++ List.replicate n a).takeD count a = l.takeD count a := by
  induction count generalizing l n with
  | zero => rfl
  | succ count ih =>
    cases l with
    | nil =>
      cases n with
      | zero => rfl
      | succ n => exact congrArg (List.cons a) (ih [])
    | cons b l => exact congrArg (List.cons b) (ih l)

/-- **What trimming removes** from the end of a line whose blanks are spaces. -/
theorem exists_trimEndWhere_append {l : List Char} (h : ∀ c ∈ l, isBlank c = true → c = ' ') :
    ∃ n, l = trimEndWhere isBlank l ++ List.replicate n ' ' := by
  have hspaces : l.rtakeWhile isBlank = List.replicate (l.rtakeWhile isBlank).length ' ' :=
    List.eq_replicate_of_mem fun c hc =>
      h c ((List.rtakeWhile_suffix _ _).subset hc) (List.mem_rtakeWhile_imp hc)
  refine ⟨(l.rtakeWhile isBlank).length, ?_⟩
  rw [← hspaces]
  exact List.rdropWhile_append_rtakeWhile.symm

/-- **Trimming changes no field.** -/
theorem field_trimmedEnd (h : ∀ c ∈ line.toList, isBlank c = true → c = ' ') :
    field (trimmedEnd line) start count = field line start count := by
  obtain ⟨n, hline⟩ := exists_trimEndWhere_append h
  unfold field
  conv_rhs => rw [hline, List.drop_append, List.drop_replicate, takeD_append_replicate]
  rw [trimmedEnd, String.toList_ofList]

/-- Blocks of one length are dropped one by one. -/
theorem drop_flatMap {α β : Type} {f : α → List β} {l : List α} (h : ∀ a ∈ l, (f a).length = n)
    (j : Nat) : (l.flatMap f).drop (j * n) = (l.drop j).flatMap f := by
  induction l generalizing j with
  | nil => rw [List.flatMap_nil, List.drop_nil, List.drop_nil, List.flatMap_nil]
  | cons a l ih =>
    rw [List.forall_mem_cons] at h
    cases j with
    | zero => rw [Nat.zero_mul, List.drop_zero, List.drop_zero]
    | succ j =>
      rw [Nat.succ_mul, Nat.add_comm, ← List.drop_drop, List.flatMap_cons, List.drop_left' h.1,
        ih h.2, List.drop_succ_cons]

/-! ## Texts that fit a column -/

/-- **A text fits a column**: it is not wider, and has no blank in it. -/
structure Fits (width : Nat) (s : String) : Prop where
  length_le : s.length ≤ width
  free : ∀ c ∈ s.toList, isBlank c = false

theorem fits_empty : Fits width "" :=
  ⟨Nat.zero_le _, nofun⟩

/-- A text without the blanks before it. -/
def unaligned (s : String) : String :=
  String.ofList (s.toList.dropWhile isBlank)

theorem toList_alignRight (width : Nat) (s : String) :
    (alignRight width s).toList = List.replicate (width - s.length) ' ' ++ s.toList := by
  rw [alignRight, String.toList_append, String.toList_ofList]

/-- **A text that is aligned is found again.** -/
theorem unaligned_alignRight (h : ∀ c ∈ s.toList, isBlank c = false) :
    unaligned (alignRight width s) = s := by
  have hspaces : ∀ c ∈ List.replicate (width - s.length) ' ', isBlank c = true := by
    intro c hc
    rw [List.eq_of_mem_replicate hc]
    rfl
  have hs : s.toList.dropWhile isBlank = s.toList := by
    rw [List.dropWhile_eq_self_iff]
    exact fun hpos => by simp [h _ (List.getElem_mem hpos)]
  rw [unaligned, toList_alignRight, List.dropWhile_append_of_pos hspaces, hs, String.ofList_toList]

namespace PrecedenceMatrix

/-- The characters of a cell with the space before it. -/
def block (width : Nat) (cell : String) : List Char :=
  (alignRight (width + 1) cell).toList

/-- A line of the grid before it is trimmed. -/
def fullLine (width : Nat) (head : String) (cells : List String) : List Char :=
  ("  " ++ head).toList ++ (List.replicate (width - head.length) ' ' ++ cells.flatMap (block width))

theorem length_block (h : cell.length ≤ width) : (block width cell).length = width + 1 := by
  rw [block, toList_alignRight, List.length_append, List.length_replicate, String.length_toList]
  omega

/-- **A line of the grid is a full line, trimmed.** -/
theorem gridLine_eq (hcells : ∀ cell ∈ cells, cell.length ≤ width) :
    gridLine width head cells = trimmedEnd (String.ofList (fullLine width head cells)) := by
  have hcell : ∀ cell ∈ cells, (" " ++ alignRight width cell).toList = block width cell := by
    intro cell hcell
    rw [block, String.toList_append, toList_alignRight, toList_alignRight,
      Nat.succ_sub (hcells cell hcell), List.replicate_succ]
    rfl
  unfold gridLine
  congr 1
  rw [← String.toList_inj, String.toList_append, String.toList_append, String.toList_join,
    String.toList_ofList, fullLine, List.flatMap_map, List.flatMap_congr hcell, alignLeft,
    String.toList_append, String.toList_append, String.toList_ofList]
  simp only [String.toList_ofList, List.append_assoc]
  rfl

section Line

variable (hcells : ∀ cell ∈ cells, Fits width cell)

include hcells

/-- What follows a row head begins with a space. -/
theorem eq_space_of_mem_head? {k : Nat} {c : Char}
    (hc : c ∈ (List.replicate k ' ' ++ cells.flatMap (block width)).head?) : c = ' ' := by
  cases k with
  | succ k => exact (Option.mem_some.mp hc).symm
  | zero =>
    cases cells with
    | nil => cases hc
    | cons cell cells =>
      have hle := (hcells cell List.mem_cons_self).length_le
      rw [List.flatMap_cons, block, toList_alignRight, Nat.succ_sub hle] at hc
      exact (Option.mem_some.mp hc).symm

/-- **A line begins with its head**, and a blank behind it. -/
theorem exists_gridLine_eq (hword : IsWord head) :
    ∃ rest, (gridLine width head cells).toList = ("  " ++ head).toList ++ rest
      ∧ ∀ c ∈ rest.head?, isBlank c = true := by
  have hlast : ∀ c ∈ ("  " ++ head).toList.getLast?, isBlank c = false := by
    intro c hc
    rw [String.toList_append, List.getLast?_append_of_ne_nil _ hword.toList_ne_nil] at hc
    exact hword.free c (List.mem_of_getLast? hc)
  rw [gridLine_eq fun cell hcell => (hcells cell hcell).length_le, trimmedEnd,
    String.toList_ofList, String.toList_ofList, fullLine, trimEndWhere_append hlast]
  refine ⟨_, rfl, fun c hc => ?_⟩
  obtain ⟨trailing, hfull⟩ := List.rdropWhile_prefix isBlank
    (List.replicate (width - head.length) ' ' ++ cells.flatMap (block width))
  have hspace := eq_space_of_mem_head? hcells (hfull ▸ List.mem_head?_append_of_mem_head? hc)
  rw [hspace]
  rfl

variable (hhead : Fits width head)

include hhead

/-- All blanks of a line are spaces. -/
theorem eq_space_of_mem_fullLine {c : Char} (hc : c ∈ fullLine width head cells)
    (hblank : isBlank c = true) : c = ' ' := by
  simp only [fullLine, block, List.mem_append, List.mem_flatMap, String.toList_append,
    toList_alignRight, List.mem_replicate] at hc
  obtain (hc | hc) | ⟨-, rfl⟩ | ⟨cell, hcell, ⟨-, rfl⟩ | hc⟩ := hc
  · simpa using hc
  · exact absurd hblank (by simp [hhead.free c hc])
  · rfl
  · rfl
  · exact absurd hblank (by simp [(hcells cell hcell).free c hc])

theorem isLine_gridLine : IsLine (gridLine width head cells) := by
  rw [IsLine, gridLine_eq fun cell hcell => (hcells cell hcell).length_le, trimmedEnd,
    String.toList_ofList, String.toList_ofList]
  intro hmem
  have hfull := (List.rdropWhile_prefix isBlank _).subset hmem
  exact absurd (eq_space_of_mem_fullLine hcells hhead hfull (by decide)) (by decide)

/-- **A field of a line** is the cell of its column, at the right of it. -/
theorem field_gridLine (hj : cells[j]? = some cell) :
    field (gridLine width head cells) (2 + width + j * (width + 1)) (width + 1)
      = alignRight (width + 1) cell := by
  have hlength : ∀ cell ∈ cells, (block width cell).length = width + 1 := fun cell hcell =>
    length_block (hcells cell hcell).length_le
  rw [gridLine_eq fun cell hcell => (hcells cell hcell).length_le, field_trimmedEnd (by
    rw [String.toList_ofList]
    exact fun c hc => eq_space_of_mem_fullLine hcells hhead hc)]
  have hlead : (("  " ++ head).toList ++ List.replicate (width - head.length) ' ').length
      = 2 + width := by
    have hspaces : "  ".length = 2 := rfl
    have hle := hhead.length_le
    rw [List.length_append, List.length_replicate, String.length_toList, String.length_append]
    omega
  have hdrop : cells.drop j = cell :: cells.drop (j + 1) := by
    obtain ⟨hlt, rfl⟩ := List.getElem?_eq_some_iff.mp hj
    exact List.drop_eq_getElem_cons hlt
  rw [field, String.toList_ofList, fullLine, ← List.append_assoc, ← List.drop_drop,
    List.drop_left' hlead, drop_flatMap hlength, hdrop, List.flatMap_cons,
    List.takeD_left' (hlength _ (List.mem_of_getElem? hj)), block, String.ofList_toList]

end Line

end PrecedenceMatrix

/-! ## Reading a grid -/

/-- The relation with a given sign. -/
def Relation.ofSign? (sign : String) : Option Relation :=
  [less, equal, greater].find? (·.sign = sign)

/-- The head of a row: the name behind two spaces. -/
def rowHead (row : String) : String :=
  String.ofList ((row.toList.drop 2).takeWhile (fun c => !isBlank c))

/-- **What a printed grid says**: the names of its rows, and the relation in
each cell of each row. It is read from the text alone. -/
def readGrid (printed : String) : List String × List (List (Option Relation)) :=
  let rows := (linesOf printed).tail
  let names := rows.map rowHead
  let width := ((names.map String.utf8ByteSize).max?).getD 1
  (names, rows.map fun row => (List.range names.length).map fun j =>
    Relation.ofSign? (unaligned (field row (2 + width + j * (width + 1)) (width + 1))))

theorem length_le_utf8ByteSize (s : String) : s.length ≤ s.utf8ByteSize := by
  rw [← String.length_toList, ← String.utf8Len_toList]
  induction s.toList with
  | nil => exact Nat.le_refl _
  | cons c l ih =>
    have hpos := c.utf8Size_pos
    rw [List.length_cons, String.utf8Len_cons]
    omega

namespace PrecedenceMatrix

variable {text : String} {g : Grammar} {m : PrecedenceMatrix}

theorem ofSign?_cellText (m : PrecedenceMatrix) (l r : Terminal) :
    Relation.ofSign? (m.cellText l r) = m.get? l r := by
  unfold cellText
  cases m.get? l r with
  | none => rfl
  | some relation => cases relation <;> rfl

theorem rowHead_gridLine (hcells : ∀ cell ∈ cells, Fits width cell) (hword : IsWord head) :
    rowHead (gridLine width head cells) = head := by
  obtain ⟨rest, hline, hrest⟩ := exists_gridLine_eq hcells hword
  have hnil : rest.takeWhile (fun c => !isBlank c) = [] := by
    cases rest with
    | nil => rfl
    | cons c rest => exact List.takeWhile_cons_of_neg (by simp [hrest c rfl])
  have hfree : ∀ c ∈ head.toList, (!isBlank c) = true := fun c hc => by rw [hword.free c hc]; rfl
  rw [rowHead, hline, String.toList_append, List.append_assoc, List.drop_left' (by rfl),
    List.takeWhile_append_of_pos hfree, hnil, List.append_nil, String.ofList_toList]

end PrecedenceMatrix

namespace PrecedenceMatrix

variable {text : String} {g : Grammar} {m : PrecedenceMatrix} {l : Terminal}

/-- The width of a column is the greatest number of bytes of a name. -/
theorem isGreatest_columnWidth (g : Grammar) (hne : m.terminals ≠ []) :
    IsGreatest {n | ∃ t ∈ m.terminals, (g.terminalName t).utf8ByteSize = n} (m.columnWidth g) := by
  obtain ⟨w, hw⟩ : ∃ w, (m.terminals.map fun t => (g.terminalName t).utf8ByteSize).max? = some w :=
    Option.ne_none_iff_exists'.mp (by simpa using hne)
  have hwidth : m.columnWidth g = w := by rw [columnWidth, hw, Option.getD_some]
  obtain ⟨hmem, hle⟩ := List.max?_eq_some_iff.mp hw
  rw [hwidth]
  refine ⟨List.mem_map.mp hmem, ?_⟩
  rintro _ ⟨t, ht, rfl⟩
  exact hle _ (List.mem_map_of_mem ht)

/-- A sign fits a column that is not empty. -/
theorem fits_cellText (hwidth : 0 < width) (l r : Terminal) : Fits width (m.cellText l r) := by
  unfold cellText
  cases m.get? l r with
  | none => exact fits_empty
  | some relation => cases relation <;> exact ⟨hwidth, free_of_all rfl⟩

/-- A cell is empty but for a sign at its right. -/
theorem alignRight_cellText (width : Nat) (l r : Terminal) :
    alignRight (width + 1) (m.cellText l r) = String.ofList (List.replicate width ' ')
      ++ ((m.get? l r).map Relation.sign).getD " " := by
  rw [← String.toList_inj, toList_alignRight, String.toList_append, String.toList_ofList, cellText]
  cases m.get? l r with
  | none =>
    show List.replicate (width + 1) ' ' ++ [] = List.replicate width ' ' ++ [' ']
    rw [List.append_nil, List.replicate_succ']
  | some relation => cases relation <;> rfl

/-- **A row is read** as the relations of its terminal. -/
theorem map_ofSign?_gridLine {head : String} (hhead : Fits width head)
    (hcells : ∀ cell ∈ m.terminals.map (m.cellText l), Fits width cell) :
    (List.range m.terminals.length).map (fun j => Relation.ofSign? (unaligned
        (field (gridLine width head (m.terminals.map (m.cellText l)))
          (2 + width + j * (width + 1)) (width + 1))))
      = m.terminals.map fun r => m.get? l r := by
  refine List.ext_getElem (by simp) fun j hj hj' => ?_
  rw [List.length_map] at hj'
  have hcell : (m.terminals.map (m.cellText l))[j]? = some (m.cellText l m.terminals[j]) := by
    rw [List.getElem?_map, List.getElem?_eq_getElem hj', Option.map_some]
  have hfree := (hcells _ (List.mem_of_getElem? hcell)).free
  rw [List.getElem_map, List.getElem_map, List.getElem_range, field_gridLine hcells hhead hcell,
    unaligned_alignRight hfree, ofSign?_cellText]

section OfFile

variable (hg : Grammar.ofFile text = .ok g)
  (hm : (PrecedenceAnalysis.ofGrammar g).matrix? = some m)

include hg hm

theorem isWord_of_mem_terminals {t : Terminal} (ht : t ∈ m.terminals) :
    IsWord (g.terminalName t) := by
  obtain ⟨hdeclared, -⟩ :=
    (PrecedenceAnalysis.covers_iff_of_matrix? hm).mp (mem_terminals_iff.mp ht)
  exact Grammar.isWord_terminalName hg (Nat.le_of_lt hdeclared)

/-- **Every name fits its column**: it has no more characters than bytes. -/
theorem fits_terminalName {t : Terminal} (ht : t ∈ m.terminals) :
    Fits (m.columnWidth g) (g.terminalName t) := by
  have hgreatest := isGreatest_columnWidth g (List.ne_nil_of_mem ht)
  exact ⟨(length_le_utf8ByteSize _).trans (hgreatest.2 ⟨t, ht, rfl⟩),
    (isWord_of_mem_terminals hg hm ht).free⟩

theorem fits_of_mem_header : ∀ cell ∈ m.terminals.map g.terminalName, Fits (m.columnWidth g) cell :=
  List.forall_mem_map.mpr fun _ => fits_terminalName hg hm

theorem fits_of_mem_row (l : Terminal) :
    ∀ cell ∈ m.terminals.map (m.cellText l), Fits (m.columnWidth g) cell := by
  refine List.forall_mem_map.mpr fun r hr => fits_cellText ?_ l r
  have hpos := List.length_pos_iff.mpr (isWord_of_mem_terminals hg hm hr).toList_ne_nil
  rw [String.length_toList] at hpos
  exact Nat.lt_of_lt_of_le hpos (fits_terminalName hg hm hr).length_le

theorem isLine_of_mem_gridLines : ∀ line ∈ m.gridLines g, IsLine line := by
  refine List.forall_mem_cons.mpr ⟨?_, List.forall_mem_map.mpr fun l hl => ?_⟩
  · exact isLine_gridLine (fits_of_mem_header hg hm) fits_empty
  · exact isLine_gridLine (fits_of_mem_row hg hm l) (fits_terminalName hg hm hl)

/-- **The lines of a printed matrix** are those of its grid. -/
theorem linesOf_gridLines : linesOf (unlines (m.gridLines g)) = m.gridLines g :=
  linesOf_unlines (isLine_of_mem_gridLines hg hm)

/-- **What is read from a printed matrix** are all its names and relations. -/
theorem readGrid_gridLines : readGrid (unlines (m.gridLines g))
    = (m.terminals.map g.terminalName, m.terminals.map fun l => m.terminals.map fun r =>
      m.get? l r) := by
  have hheads : (m.gridLines g).tail.map rowHead = m.terminals.map g.terminalName := by
    rw [gridLines, List.tail_cons, List.map_map]
    exact List.map_congr_left fun l hl =>
      rowHead_gridLine (fits_of_mem_row hg hm l) (isWord_of_mem_terminals hg hm hl)
  have hwidth : (((m.terminals.map g.terminalName).map String.utf8ByteSize).max?).getD 1
      = m.columnWidth g := by
    rw [columnWidth, List.map_map]
    rfl
  simp only [readGrid, linesOf_gridLines hg hm, hheads, hwidth, List.length_map]
  rw [gridLines, List.tail_cons, List.map_map]
  exact Prod.ext rfl (List.map_congr_left fun l hl =>
    map_ofSign?_gridLine (fits_terminalName hg hm hl) (fits_of_mem_row hg hm l))

end OfFile

/-- **The printed matrix is aligned, and determines the matrix.** Of a matrix
with at least one row, one line is printed for the heads of the columns and one
for every row. A row begins with two spaces and its name. Columns are one
character wider than the longest name has bytes; in its column stands the name
of a terminal, at the right, and in the column of a cell nothing but the sign of
its relation, if it has one, at the right. What is read from the text alone are
all names and all relations. -/
theorem grid_exact (hg : Grammar.ofFile text = .ok g)
    (hm : (PrecedenceAnalysis.ofGrammar g).matrix? = some m) (hne : m.terminals ≠ []) :
    ∃ w, IsGreatest {n | ∃ t ∈ m.terminals, (g.terminalName t).utf8ByteSize = n} w
      ∧ ∃ header rows, linesOf (unlines (m.gridLines g)) = header :: rows
        ∧ rows.length = m.terminals.length
        ∧ (∀ (j : Nat) t, m.terminals[j]? = some t →
          field header (2 + w + j * (w + 1)) (w + 1)
            = String.ofList (List.replicate (w + 1 - (g.terminalName t).length) ' ')
              ++ g.terminalName t)
        ∧ (∀ (i : Nat) l row, m.terminals[i]? = some l → rows[i]? = some row →
          ("  " ++ g.terminalName l).toList <+: row.toList
            ∧ ∀ (j : Nat) r, m.terminals[j]? = some r → field row (2 + w + j * (w + 1)) (w + 1)
              = String.ofList (List.replicate w ' ') ++ ((m.get? l r).map Relation.sign).getD " ")
        ∧ readGrid (unlines (m.gridLines g)) = (m.terminals.map g.terminalName,
          m.terminals.map fun l => m.terminals.map fun r => m.get? l r) := by
  refine ⟨m.columnWidth g, isGreatest_columnWidth g hne, _, _, linesOf_gridLines hg hm,
    List.length_map .., fun j t hj => ?_, fun i l row hi hrow => ?_, readGrid_gridLines hg hm⟩
  · exact field_gridLine (fits_of_mem_header hg hm) fits_empty
      (by rw [List.getElem?_map, hj, Option.map_some])
  · rw [List.getElem?_map, hi, Option.map_some] at hrow
    obtain rfl := Option.some.inj hrow
    have hl := List.mem_of_getElem? hi
    have hcells := fits_of_mem_row hg hm l
    obtain ⟨rest, hrest, -⟩ := exists_gridLine_eq hcells (isWord_of_mem_terminals hg hm hl)
    refine ⟨⟨rest, hrest.symm⟩, fun j r hj => ?_⟩
    rw [← alignRight_cellText]
    exact field_gridLine hcells (fits_terminalName hg hm hl)
      (by rw [List.getElem?_map, hj, Option.map_some])

/-- Terminals with names of one, two and four characters, the second of which
has three bytes. -/
def accented : Grammar where
  nonterminals := ["S"]
  terminals := ["+", "é'", "long", "NULL"]
  start := ⟨0⟩
  rules := [⟨⟨0⟩, [[.nonterminal ⟨0⟩, .terminal ⟨0⟩, .terminal ⟨1⟩], [.terminal ⟨1⟩]]⟩]

theorem ofFile_accented :
    Grammar.ofFile "%nonterminals S\n%terminals + é' long\n%start S\nS->S+é'|é'\n"
      = .ok accented :=
  have h : (Grammar.ofFile "%nonterminals S\n%terminals + é' long\n%start S\nS->S+é'|é'\n").toOption
      = some accented := by decide +kernel
  eq_ok_of_toOption h

/-- Every column is five characters wide. -/
theorem grid_exact_accented :
    ∃ m, (PrecedenceAnalysis.ofGrammar accented).matrix? = some m ∧ m.terminals ≠ []
      ∧ unlines (m.gridLines accented)
        = "          +   é' long\n  +            =\n  é'      >\n  long\n"
      ∧ readGrid (unlines (m.gridLines accented)) = (["+", "é'", "long"],
        [[none, some .equal, none], [some .greater, none, none], [none, none, none]]) := by
  obtain ⟨m, hm⟩ : ∃ m, (PrecedenceAnalysis.ofGrammar accented).matrix? = some m :=
    Option.isSome_iff_exists.mp (by decide +kernel)
  have hgrid : (PrecedenceAnalysis.ofGrammar accented).matrix?.map
      (fun m => (m.terminals, unlines (m.gridLines accented)))
      = some ([⟨0⟩, ⟨1⟩, ⟨2⟩],
        "          +   é' long\n  +            =\n  é'      >\n  long\n") := by
    decide +kernel
  have hcells : (PrecedenceAnalysis.ofGrammar accented).matrix?.map
      (fun m => m.terminals.map fun l => m.terminals.map fun r => m.get? l r)
      = some [[none, some .equal, none], [some .greater, none, none], [none, none, none]] := by
    decide +kernel
  rw [hm, Option.map_some, Option.some.injEq] at hgrid hcells
  obtain ⟨hterminals, hprinted⟩ := Prod.mk.inj hgrid
  have hnames : m.terminals.map accented.terminalName = ["+", "é'", "long"] := by
    rw [hterminals]
    decide +kernel
  have hne : m.terminals ≠ [] := by simp [hterminals]
  obtain ⟨-, -, -, -, -, -, -, -, hread⟩ := grid_exact ofFile_accented hm hne
  rw [hnames, hcells] at hread
  exact ⟨m, hm, hne, hprinted, hread⟩

end PrecedenceMatrix

end GrammarAnalysis
