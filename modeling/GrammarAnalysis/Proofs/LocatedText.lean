import GrammarAnalysis.Proofs.ProductionText
import GrammarAnalysis.Text.Located
import Mathlib.Data.List.DropRight
import Mathlib.Data.List.Flatten
import Mathlib.Data.String.Basic

/-!
# Pieces of a located text

Cutting and trimming leave pieces of a list in place: a piece of
`splitWhere` stands between separators or the ends of the list
(`mem_splitWhere_iff`), what `trimWhere` leaves stands between elements
that are dropped, and both are determined by that. So what is cut out of a
located text is a part of it, with known characters before it.

The offset of a located character is the number of bytes before it, as the
offsets of `listFrom` add up. The span of a part that is not empty is
therefore given by the characters before it and its own
(`span_of_ofString_eq`), wherever it was cut out. And parts of which one
stands before the other in the text have their spans in this order
(`pairwise_span`).
-/

namespace GrammarAnalysis

section Pieces

variable {α β : Type} {isSeparator drop : α → Bool} {before piece after l : List α}

/-! ## Between separators -/

/-- **A piece between separators**: there is none in it, and it cannot be
made longer. -/
structure IsBetween (isSeparator : α → Bool) (before piece after : List α) : Prop where
  free : ∀ a ∈ piece, isSeparator a = false
  before : ∀ a ∈ before.getLast?, isSeparator a = true
  after : ∀ a ∈ after.head?, isSeparator a = true

theorem forall_mem_map_iff (p : α → Bool) (f : β → α) (q : Bool) (o : Option β) :
    (∀ a ∈ o.map f, p a = q) ↔ ∀ b ∈ o, p (f b) = q := by
  cases o <;> simp

theorem isBetween_map_iff {f : β → α} {before piece after : List β} :
    IsBetween isSeparator (before.map f) (piece.map f) (after.map f) ↔
      IsBetween (fun b => isSeparator (f b)) before piece after := by
  have hbefore := forall_mem_map_iff isSeparator f true before.getLast?
  have hafter := forall_mem_map_iff isSeparator f true after.head?
  rw [← List.getLast?_map] at hbefore
  rw [← List.head?_map] at hafter
  exact ⟨fun h => ⟨fun b hb => h.free _ (List.mem_map_of_mem hb), hbefore.mp h.before,
      hafter.mp h.after⟩,
    fun h => ⟨List.forall_mem_map.mpr h.free, hbefore.mpr h.before, hafter.mpr h.after⟩⟩

/-- **The first separator**: there is none, or the list is cut in two at
it. -/
theorem splitWhere_cases (isSeparator : α → Bool) (l : List α) :
    ((∀ a ∈ l, isSeparator a = false) ∧ splitWhere isSeparator l = [l])
      ∨ ∃ piece s rest, l = piece ++ s :: rest ∧ (∀ a ∈ piece, isSeparator a = false)
        ∧ isSeparator s = true
        ∧ splitWhere isSeparator l = piece :: splitWhere isSeparator rest := by
  simp only [splitWhere_eq_splitOnP]
  cases hrest : l.dropWhile (fun a => !isSeparator a) with
  | nil =>
    have hfree : ∀ a ∈ l, isSeparator a = false := by simpa using hrest
    exact Or.inl ⟨hfree, List.splitOnP_eq_singleton hfree⟩
  | cons s rest =>
    have hl : l.takeWhile (fun a => !isSeparator a) ++ s :: rest = l :=
      hrest ▸ List.takeWhile_append_dropWhile
    have hfree : ∀ a ∈ l.takeWhile (fun a => !isSeparator a), isSeparator a = false :=
      fun a ha => by simpa using List.mem_takeWhile_imp ha
    have hs : isSeparator s = true := by
      simpa [hrest] using List.head?_dropWhile_not (fun a => !isSeparator a) l
    refine Or.inr ⟨_, s, rest, hl.symm, hfree, hs, ?_⟩
    conv_lhs => rw [← hl]
    exact List.splitOnP_append_cons_of_forall_mem hfree s hs rest

/-- **The pieces of a list are what stands between separators.** -/
theorem mem_splitWhere_iff :
    piece ∈ splitWhere isSeparator l ↔
      ∃ before after, l = before ++ piece ++ after ∧ IsBetween isSeparator before piece after := by
  constructor
  · intro h
    induction hn : l.length using Nat.strong_induction_on generalizing l with
    | _ n ih =>
      obtain ⟨hfree, hl⟩ | ⟨first, s, rest, rfl, hfree, hs, hl⟩ := splitWhere_cases isSeparator l
      · obtain rfl := List.mem_singleton.mp (hl ▸ h)
        exact ⟨[], [], by simp, hfree, by simp, by simp⟩
      rw [hl] at h
      obtain rfl | h := List.mem_cons.mp h
      · exact ⟨[], s :: rest, rfl, hfree, by simp, by simpa using hs⟩
      · have hlt : rest.length < n := by
          rw [← hn, List.length_append, List.length_cons]
          omega
        obtain ⟨before, after, rfl, hbetween⟩ := ih _ hlt h rfl
        refine ⟨first ++ s :: before, after, by simp, hbetween.free, fun a ha => ?_,
          hbetween.after⟩
        cases before with
        | nil => simp_all
        | cons b before => exact hbetween.before a (by simpa using ha)
  · rintro ⟨before, after, rfl, hbetween⟩
    -- the separators before and behind the piece are those at which it is cut out
    have hafter : piece ∈ splitWhere isSeparator (piece ++ after) := by
      rw [splitWhere_eq_splitOnP]
      cases after with
      | nil => simp [List.splitOnP_eq_singleton hbetween.free]
      | cons s after =>
        rw [List.splitOnP_append_cons_of_forall_mem hbetween.free s (hbetween.after s rfl)]
        exact List.mem_cons_self
    rw [List.append_assoc]
    obtain rfl | ⟨before, s, rfl⟩ := List.eq_nil_or_concat' before
    · exact hafter
    · rw [splitWhere_eq_splitOnP, List.append_assoc, List.singleton_append,
        List.splitOnP_append_cons _ _ (hbetween.before s (by simp)), ← splitWhere_eq_splitOnP,
        ← splitWhere_eq_splitOnP]
      exact List.mem_append_right _ hafter

/-- Cutting at what an image shows is cutting before taking the image. -/
theorem splitWhere_map (f : β → α) (l : List β) :
    splitWhere isSeparator (l.map f) =
      (splitWhere (isSeparator ∘ f) l).map (List.map f) := by
  induction l with
  | nil => rfl
  | cons b l ih =>
    rw [List.map_cons]
    cases hb : isSeparator (f b) with
    | true =>
      have hb' : (isSeparator ∘ f) b = true := hb
      rw [splitWhere_cons_of_pos _ hb, splitWhere_cons_of_pos _ hb', ih, List.map_cons,
        List.map_nil]
    | false =>
      have hb' : (isSeparator ∘ f) b = false := hb
      obtain ⟨piece, rest, hl, hbl⟩ := splitWhere_cons_of_neg l hb'
      obtain ⟨piece', rest', hl', hbl'⟩ := splitWhere_cons_of_neg (l.map f) hb
      rw [ih, hl, List.map_cons] at hl'
      obtain ⟨rfl, rfl⟩ := List.cons.inj hl'
      rw [hbl, hbl', List.map_cons, List.map_cons]

/-! ## Trimming -/

/-- **Nothing to drop** at either end of a list. -/
structure IsTight (drop : α → Bool) (l : List α) : Prop where
  head : ∀ a ∈ l.head?, drop a = false
  last : ∀ a ∈ l.getLast?, drop a = false

/-- Trimming is dropping from the left, then from the right. -/
theorem trimWhere_eq_rdropWhile (drop : α → Bool) (l : List α) :
    trimWhere drop l = (l.dropWhile drop).rdropWhile drop :=
  rfl

/-- **Trimming drops the ends.** -/
theorem exists_trimWhere (drop : α → Bool) (l : List α) :
    ∃ left right, l = left ++ trimWhere drop l ++ right ∧ (∀ a ∈ left, drop a = true)
      ∧ (∀ a ∈ right, drop a = true) ∧ IsTight drop (trimWhere drop l) := by
  rw [trimWhere_eq_rdropWhile]
  refine ⟨l.takeWhile drop, (l.dropWhile drop).rtakeWhile drop, ?_,
    fun a ha => List.mem_takeWhile_imp ha, fun a ha => List.mem_rtakeWhile_imp ha,
    fun a ha => ?_, fun a ha => ?_⟩
  · rw [List.append_assoc, List.rdropWhile_append_rtakeWhile, List.takeWhile_append_dropWhile]
  · -- what is dropped from the right leaves the first element
    obtain ⟨rest, hrest⟩ := List.head?_eq_some_iff.mp ha
    obtain ⟨right, hright⟩ := List.rdropWhile_prefix drop (l.dropWhile drop)
    rw [hrest, List.cons_append] at hright
    simpa [← hright] using List.head?_dropWhile_not drop l
  · obtain ⟨hne, rfl⟩ := List.mem_getLast?_eq_getLast ha
    simpa using List.rdropWhile_last_not drop _ hne

theorem isTight_trimWhere (drop : α → Bool) (l : List α) : IsTight drop (trimWhere drop l) := by
  obtain ⟨_, _, -, -, -, h⟩ := exists_trimWhere drop l
  exact h

theorem isInfix_trimWhere (drop : α → Bool) (l : List α) : trimWhere drop l <:+: l := by
  obtain ⟨left, right, hl, -⟩ := exists_trimWhere drop l
  exact ⟨left, right, hl.symm⟩

/-- A list is what is left when all around it is dropped. -/
theorem trimWhere_append {left right : List α} (hleft : ∀ a ∈ left, drop a = true)
    (hright : ∀ a ∈ right, drop a = true) (h : IsTight drop l) :
    trimWhere drop (left ++ l ++ right) = l := by
  have hself : ∀ m : List α, (∀ a ∈ m.head?, drop a = false) → m.dropWhile drop = m := by
    intro m hm
    cases m with
    | nil => rfl
    | cons a m => exact List.dropWhile_cons_of_neg (by simp [hm a rfl])
  rw [trimWhere, List.append_assoc, List.dropWhile_append_of_pos hleft]
  cases l with
  | nil =>
    rw [List.nil_append, List.dropWhile_eq_nil_iff.mpr hright]
    rfl
  | cons a l =>
    rw [hself (a :: l ++ right) (by simpa using h.head), List.reverse_append,
      List.dropWhile_append_of_pos (by simpa using hright),
      hself _ (by simpa only [List.head?_reverse] using h.last), List.reverse_reverse]

/-- Where nothing is to be dropped, nothing is at the ends. -/
theorem isTight_of_forall (h : ∀ a ∈ l, drop a = false) : IsTight drop l :=
  ⟨fun a ha => h a (List.mem_of_mem_head? ha), fun a ha => h a (List.mem_of_mem_getLast? ha)⟩

/-- A text without blanks at its ends is what is left when it is trimmed with
blanks around it. -/
theorem trimmed_append {text : String} (left right : List Char)
    (hleft : ∀ c ∈ left, isBlank c = true) (hright : ∀ c ∈ right, isBlank c = true)
    (h : IsTight isBlank text.toList) :
    trimmed (String.ofList (left ++ text.toList ++ right)) = text := by
  rw [trimmed, String.toList_ofList, trimWhere_append hleft hright h, String.ofList_toList]

theorem trimmed_eq_self {text : String} (h : IsTight isBlank text.toList) :
    trimmed text = text := by
  have htrimmed := trimmed_append [] [] (by simp) (by simp) h
  rwa [List.nil_append, List.append_nil, String.ofList_toList] at htrimmed

theorem isTight_map_iff {f : β → α} {l : List β} :
    IsTight drop (l.map f) ↔ IsTight (fun b => drop (f b)) l := by
  have hhead := forall_mem_map_iff drop f false l.head?
  have hlast := forall_mem_map_iff drop f false l.getLast?
  rw [← List.head?_map] at hhead
  rw [← List.getLast?_map] at hlast
  exact ⟨fun h => ⟨hhead.mp h.head, hlast.mp h.last⟩, fun h => ⟨hhead.mpr h.head, hlast.mpr h.last⟩⟩

/-- Trimming before taking the image is trimming the image. -/
theorem map_trimWhere (f : β → α) (l : List β) :
    (trimWhere (fun b => drop (f b)) l).map f = trimWhere drop (l.map f) := by
  obtain ⟨left, right, hl, hleft, hright, htight⟩ := exists_trimWhere (fun b => drop (f b)) l
  conv_rhs => rw [hl, List.map_append, List.map_append]
  exact (trimWhere_append (List.forall_mem_map.mpr hleft) (List.forall_mem_map.mpr hright)
    (isTight_map_iff.mpr htight)).symm

/-! ## Words -/

variable {charOf : α → Char} {word : List α}

/-- **The words of a list are what stands between blanks**, unless it is
empty. -/
theorem mem_wordsBy_iff : word ∈ wordsBy charOf l ↔ word ≠ [] ∧
    ∃ before after, l = before ++ word ++ after
      ∧ IsBetween (fun a => isBlank (charOf a)) before word after := by
  rw [wordsBy, List.mem_filter, mem_splitWhere_iff, and_comm]
  simp

theorem wordsBy_map (f : β → α) (l : List β) :
    wordsBy charOf (l.map f) = (wordsBy (charOf ∘ f) l).map (List.map f) := by
  unfold wordsBy
  rw [splitWhere_map, List.filter_map]
  congr 1
  refine List.filter_congr (fun piece _ => ?_)
  simp

/-- **The first word** of a list without a blank at its beginning; the
other words are those of the rest. -/
theorem exists_wordsBy_eq_cons (hl : l ≠ []) (hhead : ∀ a ∈ l.head?, isBlank (charOf a) = false) :
    ∃ name rest, l = name ++ rest ∧ name ≠ []
      ∧ IsBetween (fun a => isBlank (charOf a)) [] name rest
      ∧ wordsBy charOf l = name :: wordsBy charOf rest := by
  obtain ⟨hfree, hsplit⟩ | ⟨name, s, rest, rfl, hfree, hs, hsplit⟩ :=
    splitWhere_cases (fun a => isBlank (charOf a)) l
  · refine ⟨l, [], (List.append_nil l).symm, hl, ⟨hfree, by simp, by simp⟩, ?_⟩
    simp [wordsBy, hsplit, hl]
  · have hname : name ≠ [] := by
      rintro rfl
      exact absurd hs (by simpa using hhead)
    refine ⟨name, s :: rest, rfl, hname, ⟨hfree, by simp, by simpa using hs⟩, ?_⟩
    have hrest : splitWhere (fun a => isBlank (charOf a)) (s :: rest)
        = [] :: splitWhere (fun a => isBlank (charOf a)) rest := splitWhere_cons_of_pos rest hs
    simp [wordsBy, hsplit, hname, hrest]

/-- A word of what stands behind the first one does not stand at the
beginning. -/
theorem IsBetween.before_ne_nil {name : List α} {rest : List α}
    (hname : IsBetween isSeparator [] name rest) (hrest : rest = before ++ word ++ after)
    (hword : IsBetween isSeparator before word after) (hne : word ≠ []) : before ≠ [] := by
  rintro rfl
  obtain ⟨a, word, rfl⟩ := List.exists_cons_of_ne_nil hne
  exact absurd (hname.after a (by rw [hrest]; rfl)) (by simp [hword.free a])

/-- A piece of the end of a list is a piece of the list. -/
theorem IsBetween.append_left (h : IsBetween isSeparator before piece after) (hne : before ≠ [])
    (l : List α) : IsBetween isSeparator (l ++ before) piece after := by
  refine ⟨h.free, fun a ha => h.before a ?_, h.after⟩
  rwa [List.getLast?_append_of_ne_nil l hne] at ha

/-! ## Parts in order -/

theorem trimWhere_sublist (drop : α → Bool) (l : List α) : (trimWhere drop l).Sublist l :=
  (List.rdropWhile_prefix drop _).sublist.trans (List.dropWhile_sublist drop)

theorem flatten_splitWhere_sublist (isSeparator : α → Bool) (l : List α) :
    (splitWhere isSeparator l).flatten.Sublist l := by
  rw [flatten_splitWhere]
  exact List.filter_sublist

theorem flatten_wordsBy_sublist (charOf : α → Char) (l : List α) :
    (wordsBy charOf l).flatten.Sublist l :=
  (List.Sublist.flatten List.filter_sublist).trans (flatten_splitWhere_sublist _ l)

end Pieces

/-! ## Offsets -/

namespace Located

variable {text : String} {before piece after l m u v : List Located} {o : Nat} {cs ds : List Char}

theorem listFrom_append (o : Nat) (cs ds : List Char) :
    listFrom o (cs ++ ds) = listFrom o cs ++ listFrom (o + String.utf8Len cs) ds := by
  induction cs generalizing o with
  | nil => rfl
  | cons c cs ih =>
    rw [List.cons_append, listFrom, listFrom, ih, List.cons_append, String.utf8Len_cons,
      Nat.add_comm (String.utf8Len cs), Nat.add_assoc]

/-- **What is cut from a located text** has the offsets of the text. -/
theorem eq_listFrom_of_append (h : listFrom o cs = u ++ v) :
    u = listFrom o (u.map (·.char)) ∧
      v = listFrom (o + String.utf8Len (u.map (·.char))) (v.map (·.char)) := by
  have hlen : ∀ (o : Nat) (cs : List Char), (listFrom o cs).length = cs.length := fun o cs => by
    simpa using congrArg List.length (map_char_listFrom o cs)
  have hcs : cs = u.map (·.char) ++ v.map (·.char) := by
    rw [← List.map_append, ← h, map_char_listFrom]
  rw [hcs, listFrom_append] at h
  obtain ⟨hu, hv⟩ := List.append_inj h (by rw [hlen, List.length_map])
  exact ⟨hu.symm, hv.symm⟩

theorem span_listFrom (o : Nat) (hcs : cs ≠ []) :
    span (listFrom o cs) = ⟨o, o + String.utf8Len cs⟩ := by
  have hstart : ((listFrom o cs).head?.map (·.offset)).getD 0 = o := by
    cases cs with
    | nil => exact absurd rfl hcs
    | cons c cs => rfl
  have hstop : ((listFrom o cs).getLast?.map (fun c => c.offset + c.char.utf8Size)).getD 0
      = o + String.utf8Len cs := by
    obtain rfl | ⟨ds, c, rfl⟩ := List.eq_nil_or_concat' cs
    · exact absurd rfl hcs
    · rw [listFrom_append, List.getLast?_append, String.utf8Len_append]
      simp [listFrom, Nat.add_assoc]
  rw [span, hstart, hstop]

/-- The characters of a text that is cut. -/
theorem toList_eq_of_ofString_eq (h : ofString text = before ++ piece ++ after) :
    text.toList = before.map (·.char) ++ piece.map (·.char) ++ after.map (·.char) := by
  rw [← List.map_append, ← List.map_append, ← h, ofString, map_char_listFrom]

/-- **The span of a piece** begins behind the bytes of what stands before
it and has the length of the piece in bytes. -/
theorem span_of_ofString_eq (h : ofString text = before ++ piece ++ after) (hne : piece ≠ []) :
    span piece = ⟨String.utf8Len (before.map (·.char)),
      String.utf8Len (before.map (·.char)) + String.utf8Len (piece.map (·.char))⟩ := by
  rw [List.append_assoc] at h
  obtain ⟨-, hrest⟩ := eq_listFrom_of_append h
  obtain ⟨hpiece, -⟩ := eq_listFrom_of_append hrest.symm
  rw [Nat.zero_add] at hpiece
  conv_lhs => rw [hpiece]
  exact span_listFrom _ (by simpa using hne)

/-! ## Order -/

theorem le_offset_of_mem {c : Located} (h : c ∈ listFrom o cs) : o ≤ c.offset := by
  induction cs generalizing o with
  | nil => cases h
  | cons d cs ih =>
    obtain rfl | h := List.mem_cons.mp h
    · exact Nat.le_refl o
    · exact Nat.le_trans (Nat.le_add_right o _) (ih h)

/-- Characters stand behind the bytes of those before them. -/
theorem pairwise_listFrom (o : Nat) (cs : List Char) :
    (listFrom o cs).Pairwise (fun c d => c.offset + c.char.utf8Size ≤ d.offset) := by
  induction cs generalizing o with
  | nil => exact .nil
  | cons c cs ih => exact .cons (fun d hd => le_offset_of_mem hd) (ih _)

/-- A piece ends before a piece begins of which all characters stand
behind its own. -/
theorem stop_le_start (hl : l ≠ []) (hm : m ≠ [])
    (h : ∀ c ∈ l, ∀ d ∈ m, c.offset + c.char.utf8Size ≤ d.offset) :
    (span l).stop ≤ (span m).start := by
  obtain ⟨l, c, rfl⟩ := (List.eq_nil_or_concat' l).resolve_left hl
  obtain ⟨d, m, rfl⟩ := List.exists_cons_of_ne_nil hm
  have hcd := h c (by simp) d (by simp)
  simpa [span] using hcd

/-- **Pieces that are cut out in order** have their spans in order. -/
theorem pairwise_span {pieces : List (List Located)}
    (h : pieces.flatten.Sublist (ofString text)) (hne : ∀ piece ∈ pieces, piece ≠ []) :
    pieces.Pairwise (fun l m => (span l).stop ≤ (span m).start) := by
  have hpairwise := List.pairwise_flatten.mp ((pairwise_listFrom 0 text.toList).sublist h)
  exact hpairwise.2.imp_of_mem (fun hl hm => stop_le_start (hne _ hl) (hne _ hm))

end Located

end GrammarAnalysis
