import GrammarAnalysis.Grammar.Printer
import GrammarAnalysis.Proofs.LongestMatch
import GrammarAnalysis.Proofs.WritingOrder

/-!
# When printed productions are read back

A production is printed without the blanks that may have separated its symbols
where it was written. The text is still a production text: the left-hand side
of a grammar has no arrow in it, and no symbol has a bar or a blank in it. But
reading puts the symbols of the right-hand side together again by what they
look like, and may put them together in another way. `IsLegible` says of which
right-hand sides this is not true: no symbol of one character stands before one
that begins with a prime, and the symbols do not spell the reserved name of the
empty string.

These are the only exceptions (`isSegmentation_flatMap_iff`), because the
symbols of a production are pieces of a segmentation themselves, and the
segmentation of a word is the only one by longest matches. So legible
right-hand sides are determined by their texts.
-/

namespace GrammarAnalysis

variable {l : List Char} {text lhs name : String} {alternatives names : List String}

/-! ## Parts of a production text -/

/-- **A left-hand side has no arrow in it** and no blanks around it. -/
theorem IsProductionText.lhs_spec (h : IsProductionText text lhs alternatives) :
    ¬ arrow <:+: lhs.toList ∧ IsTight isBlank lhs.toList := by
  obtain ⟨before, after, -, hfirst, rfl, -⟩ := h
  rw [trimmed, String.toList_ofList, String.toList_ofList]
  exact ⟨fun hin => hfirst (hin.trans (isInfix_trimWhere isBlank before)),
    isTight_trimWhere isBlank before⟩

/-- An alternative has no bar in it. -/
theorem IsProductionText.bar_notMem (h : IsProductionText text lhs alternatives)
    {alternative : String} (hmem : alternative ∈ alternatives) : '|' ∉ alternative.toList := by
  obtain ⟨before, after, -, -, -, rfl⟩ := h
  obtain ⟨piece, hpiece, rfl⟩ := List.mem_map.mp hmem
  rw [List.splitOn, ← splitWhere_eq_splitOnP] at hpiece
  rw [trimmed, String.toList_ofList, String.toList_ofList]
  intro hbar
  have hfree := not_isSeparator_of_mem_splitWhere hpiece ((trimWhere_sublist _ _).mem hbar)
  exact absurd hfree (by decide)

/-- An arrow that is in a list with a blank behind it is in the list. -/
theorem arrow_infix_concat_blank : arrow <:+: l ++ [' '] ↔ arrow <:+: l := by
  rw [List.infix_concat_iff, or_iff_right]
  intro hsuffix
  obtain h | ⟨t, ht, -⟩ := List.suffix_concat_iff.mp hsuffix
  · cases h
  · have hlast := congrArg List.getLast? ht
    rw [List.getLast?_concat] at hlast
    exact absurd hlast (by decide)

/-- **A printed production is a production text** with one alternative. -/
theorem isProductionText_printed {rhs : String} (harrow : ¬ arrow <:+: lhs.toList)
    (hlhs : IsTight isBlank lhs.toList) (hfree : ∀ c ∈ rhs.toList, isBlank c = false)
    (hbar : '|' ∉ rhs.toList) : IsProductionText (lhs ++ " -> " ++ rhs) lhs [rhs] := by
  refine ⟨lhs.toList ++ [' '], ' ' :: rhs.toList, ?_, ?_, ?_, ?_⟩
  · simp [arrow]
  · rwa [arrow_infix_concat_blank]
  · exact (trimmed_append [] [' '] (by simp) (by simp [isBlank]) hlhs).symm
  · have hall : ∀ c ∈ ' ' :: rhs.toList, (c == '|') = false := by
      intro c hc
      obtain rfl | hc := List.mem_cons.mp hc
      · rfl
      · exact beq_eq_false_iff_ne.mpr fun h => hbar (h ▸ hc)
    have hrhs := trimmed_append [' '] [] (by simp [isBlank]) (by simp) (isTight_of_forall hfree)
    rw [List.append_nil] at hrhs
    rw [List.splitOn, List.splitOnP_eq_singleton hall, List.map_singleton]
    exact congrArg (fun s => [s]) hrhs.symm

/-! ## Symbols put together -/

theorem IsPiece.length_le (h : IsPiece name) : name.length ≤ 2 := by
  obtain ⟨c, rfl | rfl⟩ := h <;> simp

/-- The names of the symbols that spell the reserved name of the empty string. -/
def reservedLetters : List String := ["N", "U", "L", "L"]

/-- **Legible names** are told apart when they are put together: no name of one
character stands before one that begins with a prime, and the names do not
spell the reserved name. -/
structure IsLegible (names : List String) : Prop where
  detached : names.IsChain Detached
  ne_letters : names ≠ reservedLetters

instance : DecidableRel Detached :=
  fun _ _ => inferInstanceAs (Decidable (_ → _))

instance (names : List String) : Decidable (IsLegible names) :=
  decidable_of_iff (names.IsChain Detached ∧ names ≠ reservedLetters)
    ⟨fun h => ⟨h.1, h.2⟩, fun h => ⟨h.detached, h.ne_letters⟩⟩

/-- Pieces that spell the reserved name are its letters, as there is no prime
in it. -/
theorem eq_reservedLetters (hpieces : ∀ name ∈ names, IsPiece name)
    (h : names.flatMap String.toList = epsilonName.toList) : names = reservedLetters := by
  have hprime : ∀ name ∈ names, name.toList.head? ≠ some primeMark := by
    intro name hname hhead
    have hmem : primeMark ∈ names.flatMap String.toList :=
      List.mem_flatMap.mpr ⟨name, hname, List.mem_of_mem_head? hhead⟩
    rw [h] at hmem
    exact absurd hmem (by decide)
  have hchain : names.IsChain Detached := by
    refine List.Pairwise.isChain (List.pairwise_of_forall_mem_list ?_)
    intro s _ t ht _
    exact hprime t ht
  exact isLongestMatch_iff.mp ⟨hpieces, h, hchain⟩

/-- **Pieces are found again** in the word they make up exactly when they are
legible. -/
theorem isSegmentation_flatMap_iff (hpieces : ∀ name ∈ names, IsPiece name) :
    IsSegmentation (names.flatMap String.toList) names ↔ IsLegible names := by
  constructor
  · intro h
    generalize hword : names.flatMap String.toList = word at h
    cases h with
    | reserved => exact absurd (hpieces epsilonName List.mem_cons_self).length_le (by decide)
    | pieces hne hmatch =>
      refine ⟨hmatch.detached, ?_⟩
      rintro rfl
      exact hne (hword.symm.trans rfl)
  · rintro ⟨hdetached, hne⟩
    exact .pieces (fun h => hne (eq_reservedLetters hpieces h)) ⟨hpieces, rfl, hdetached⟩

/-! ## Productions of a grammar -/

namespace Grammar

variable {g : Grammar} {p q : Production} {n : Nat}

/-- **The text of a production** in which it was written. -/
theorem Constructed.exists_isProductionText (h : g.Constructed) (hp : p ∈ g.productions) :
    ∃ text alternatives, IsProductionText text (g.nonterminalName p.lhs) alternatives
      ∧ g.nonterminalName p.lhs ≠ ""
      ∧ ∃ alternative ∈ alternatives, segment alternative = p.rhs.map g.symbolName := by
  obtain ⟨d, hd⟩ := h.exists_toGrammar
  have hmem : g.named p ∈ g.productions.map g.named := List.mem_map_of_mem hp
  rw [Declarations.map_named_productions hd] at hmem
  obtain ⟨text, -, hmem⟩ := List.mem_flatMap.mp hmem
  unfold productionNames at hmem
  split at hmem
  · next lhs alternatives hsplit =>
    obtain ⟨alternative, halt, heq⟩ := List.mem_map.mp hmem
    obtain ⟨rfl, hnames⟩ := Prod.mk.inj heq
    obtain ⟨hcut, hne⟩ := splitProduction_eq_ok.mp hsplit
    exact ⟨text, alternatives, hcut, hne, alternative, halt, hnames⟩
  · cases hmem

theorem toList_symbolsText (rhs : List Symbol) :
    (g.symbolsText rhs).toList = (rhs.map g.symbolName).flatMap String.toList := by
  rw [symbolsText, String.toList_join]

/-- **The symbols of a production, printed**, have no blank and no bar in
them, and are not nothing. -/
theorem Constructed.symbolsText_spec (h : g.Constructed) (hp : p ∈ g.productions) :
    (∀ c ∈ (g.symbolsText p.rhs).toList, isBlank c = false)
      ∧ '|' ∉ (g.symbolsText p.rhs).toList ∧ (g.symbolsText p.rhs).toList ≠ [] := by
  obtain ⟨text, alternatives, hcut, -, alternative, halt, hnames⟩ := h.exists_isProductionText hp
  have htext : (g.symbolsText p.rhs).toList
      = alternative.toList.filter (fun c => !isBlank c) := by
    rw [symbolsText, ← hnames, join_segment, String.toList_ofList]
  have hne : segment alternative ≠ [] := by
    rw [hnames]
    simpa using (h.wellFormed.isRhs_of_mem hp).ne_nil
  rw [htext]
  refine ⟨fun c hc => by simpa using (List.mem_filter.mp hc).2,
    fun hbar => hcut.bar_notMem halt (List.mem_filter.mp hbar).1, fun hnil => ?_⟩
  refine hne (segment_eq_nil_iff.mpr fun c hc => ?_)
  simpa using List.filter_eq_nil_iff.mp hnil c hc

theorem WellFormed.symbolName_epsilon (hg : g.WellFormed) :
    g.symbolName (.terminal g.epsilon) = epsilonName :=
  (hg.terminal?_eq_some_iff.mp hg.terminal?_epsilonName).2

/-- Declared symbols of one name are one symbol. -/
theorem WellFormed.eq_of_symbolName_eq (hg : g.WellFormed) {s t : Symbol} (hs : g.IsDeclared s)
    (ht : g.IsDeclared t) (h : g.symbolName s = g.symbolName t) : s = t :=
  Option.some.inj <| (hg.symbol?_eq_some_iff.mpr ⟨hs, rfl⟩).symm.trans
    (hg.symbol?_eq_some_iff.mpr ⟨ht, h.symm⟩)

/-- The symbols of a production that is not empty are pieces of words. -/
theorem Constructed.isPiece_symbolName (h : g.Constructed) (hp : p ∈ g.productions)
    (hne : p.rhs ≠ [.terminal g.epsilon]) {name : String} (hname : name ∈ p.rhs.map g.symbolName) :
    IsPiece name := by
  obtain ⟨_, _, -, -, alternative, -, hnames⟩ := h.exists_isProductionText hp
  have hmem := hname
  rw [← hnames] at hmem
  obtain ⟨l, hl, rfl⟩ := List.mem_map.mp hmem
  obtain ⟨word, -, hl⟩ := List.mem_flatMap.mp hl
  refine (eq_epsilonName_or_isPiece hl).resolve_left ?_
  rintro rfl
  -- only the epsilon terminal has the reserved name, and it stands alone
  have hg := h.wellFormed
  obtain ⟨s, hs, hsname⟩ := List.mem_map.mp hname
  have hdeclared := (hg.isRhs_of_mem hp).declared s hs
  rw [String.ofList_toList, ← hg.symbolName_epsilon] at hsname
  have hε : g.IsDeclared (.terminal g.epsilon) := hg.epsilon_lt
  obtain rfl := hg.eq_of_symbolName_eq hdeclared hε hsname
  exact hne ((hg.isRhs_of_mem hp).epsilon_alone hs)

/-- **A right-hand side is found again in its text** exactly when it is
legible. -/
theorem Constructed.segment_symbolsText_iff (h : g.Constructed) (hp : p ∈ g.productions) :
    segment (g.symbolsText p.rhs) = p.rhs.map g.symbolName
      ↔ IsLegible (p.rhs.map g.symbolName) := by
  obtain ⟨hfree, -, hne⟩ := h.symbolsText_spec hp
  rw [segment_eq_iff_isSegmentation hne hfree, toList_symbolsText]
  by_cases he : p.rhs = [.terminal g.epsilon]
  · rw [he, List.map_singleton, h.wellFormed.symbolName_epsilon]
    exact iff_of_true .reserved ⟨.singleton _, by decide⟩
  · exact isSegmentation_flatMap_iff fun name => h.isPiece_symbolName hp he

/-- **When printed productions are read back.** The text of a production is cut
into its left-hand side and one alternative. The symbols of the alternative are
those of the production exactly when their names are legible, and always when
the production is the one of the empty string. Two legible right-hand sides have
the same text only if they are the same. -/
theorem printed_exact (h : g.Constructed) (hp : g.productions[n]? = some p) :
    splitProduction (g.productionTextAt n)
        = .ok (g.nonterminalName p.lhs, [g.symbolsText p.rhs])
      ∧ (segment (g.symbolsText p.rhs) = p.rhs.map g.symbolName
        ↔ IsLegible (p.rhs.map g.symbolName))
      ∧ (p.rhs = [.terminal g.epsilon] → segment (g.symbolsText p.rhs) = [epsilonName])
      ∧ ∀ q ∈ g.productions, IsLegible (p.rhs.map g.symbolName) →
        IsLegible (q.rhs.map g.symbolName) → g.symbolsText q.rhs = g.symbolsText p.rhs →
          q.rhs = p.rhs := by
  have hmem := List.mem_of_getElem? hp
  obtain ⟨text, alternatives, hcut, hlhs, -⟩ := h.exists_isProductionText hmem
  obtain ⟨hfree, hbar, -⟩ := h.symbolsText_spec hmem
  obtain ⟨harrow, htight⟩ := hcut.lhs_spec
  refine ⟨?_, h.segment_symbolsText_iff hmem, fun he => ?_, fun q hq hlegible hlegible' htext => ?_⟩
  · rw [productionTextAt, hp, Option.map_some, Option.getD_some, productionText]
    exact splitProduction_eq_ok.mpr ⟨isProductionText_printed harrow htight hfree hbar, hlhs⟩
  · have hnames : p.rhs.map g.symbolName = [epsilonName] := by
      rw [he, List.map_singleton, h.wellFormed.symbolName_epsilon]
    rw [← hnames, h.segment_symbolsText_iff hmem, hnames]
    exact ⟨.singleton _, by decide⟩
  · have hnames : q.rhs.map g.symbolName = p.rhs.map g.symbolName := by
      rw [← (h.segment_symbolsText_iff hq).mpr hlegible', htext,
        (h.segment_symbolsText_iff hmem).mpr hlegible]
    refine List.map_injective_iff.mpr (Option.some_injective _) ?_
    rw [← (h.wellFormed.read_named hq).2, ← (h.wellFormed.read_named hmem).2]
    exact congrArg (List.map g.symbol?) hnames

/-! ## A grammar of confusable right-hand sides -/

/-- A grammar whose first two right-hand sides are printed alike, and whose
third one spells the reserved name: `S->a 'a|a'a|N U L L|NULL`. -/
def confusable : Grammar where
  nonterminals := ["S"]
  terminals := ["a", "'", "a'", "N", "U", "L", "NULL"]
  start := ⟨0⟩
  rules :=
    [⟨⟨0⟩, [[.terminal ⟨0⟩, .terminal ⟨1⟩, .terminal ⟨0⟩], [.terminal ⟨2⟩, .terminal ⟨0⟩],
      [.terminal ⟨3⟩, .terminal ⟨4⟩, .terminal ⟨5⟩, .terminal ⟨5⟩], [.terminal ⟨6⟩]]⟩]

theorem constructed_confusable : confusable.Constructed :=
  have h : (ofLists ["S"] ["a", "'", "a'", "N", "U", "L"] ["S->a 'a|a'a|N U L L|NULL"] "S").toOption
      = some confusable := by decide +kernel
  Constructed.ofLists (eq_ok_of_toOption h)

/-- Of the right-hand sides that are printed alike only the second one is read
back, and of those that are printed as the reserved name only the empty
string. -/
theorem printed_exact_confusable :
    confusable.Constructed
      ∧ splitProduction (confusable.productionTextAt 0) = .ok ("S", ["a'a"])
      ∧ splitProduction (confusable.productionTextAt 1) = .ok ("S", ["a'a"])
      ∧ segment "a'a" ≠ ["a", "'", "a"] ∧ segment "a'a" = ["a'", "a"]
      ∧ splitProduction (confusable.productionTextAt 2) = .ok ("S", ["NULL"])
      ∧ segment "NULL" ≠ ["N", "U", "L", "L"] ∧ segment "NULL" = [epsilonName] := by
  have h := constructed_confusable
  obtain ⟨hcut, hread, -, -⟩ := printed_exact (n := 0) h rfl
  obtain ⟨hcut', hread', -, -⟩ := printed_exact (n := 1) h rfl
  obtain ⟨hcut'', hread'', -, -⟩ := printed_exact (n := 2) h rfl
  obtain ⟨-, -, hε, -⟩ := printed_exact (n := 3) h rfl
  exact ⟨h, hcut, hcut', hread.not.mpr (by decide +kernel), hread'.mpr (by decide +kernel), hcut'',
    hread''.not.mpr (by decide +kernel), hε rfl⟩

end Grammar

end GrammarAnalysis
