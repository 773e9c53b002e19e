import GrammarAnalysis.Proofs.SelectSets

/-!
# What the LL(1) verdict means

A predictive parser that is to replace a nonterminal sees one symbol of
the input. That symbol is *viable* for a production of the nonterminal
when choosing the production can be right: in some sentential form the
nonterminal, replaced by the production, begins a string that begins
with the symbol, or the end-marker is seen and nothing is left to be
derived. `Grammar.Viable` says this with derivations alone. What is
derived may still hold nonterminals, also such as derive no string of
terminals.

SELECT is put together from FIRST and FOLLOW by cases on whether the
production may vanish. The two agree (`WellFormed.selects_iff_viable`):
what a production and the symbols after its nonterminal derive together
begins within the production, or the production has vanished and the
symbols after it show the lookahead. The verdict is therefore about
derivations as well: the grammar is LL(1) exactly when no lookahead
leaves two alternatives viable.
-/

namespace GrammarAnalysis

namespace Grammar

variable {g : Grammar} {p : Production} {t : Terminal} {x : Nonterminal}

/-- **A lookahead is viable for a production**: in a sentential form of a
declared nonterminal, the production and the symbols behind its left-hand
side derive a string that begins with the lookahead; or the lookahead is
the end-marker, and in a form of the start symbol they derive the empty
string. -/
def Viable (g : Grammar) (p : Production) (t : Terminal) : Prop :=
  (∃ y : Nonterminal, y.index < g.nonterminals.length ∧ ∃ before after,
      g.Derives [.nonterminal y] (before ++ .nonterminal p.lhs :: after)
        ∧ ∃ rest, g.Derives (g.expansion p.rhs ++ after) (.terminal t :: rest))
    ∨ (t = g.endMarker ∧ ∃ before after,
      g.Derives [.nonterminal g.start] (before ++ .nonterminal p.lhs :: after)
        ∧ g.Derives (g.expansion p.rhs ++ after) [])

/-- In a sentential form, the left-hand side of a production and the
symbols behind it derive what the production derives with them. -/
theorem derives_of_form (hp : p ∈ g.productions) {u before after v : List Symbol}
    (hform : g.Derives u (before ++ .nonterminal p.lhs :: after))
    (h : g.Derives (g.expansion p.rhs ++ after) v) : g.Derives u (before ++ v) :=
  hform.trans ((((Derives.of_mem hp).append_right after).trans h).append_left before)

namespace WellFormed

/-- Only terminals of sentential forms and the end-marker are viable. -/
theorem isLookahead_of_viable (hg : g.WellFormed) (hp : p ∈ g.productions) (h : g.Viable p t) :
    t ≠ g.epsilon ∧ (t.index < g.terminals.length ∨ t = g.endMarker) := by
  obtain ⟨y, hy, before, after, hform, rest, h⟩ | ⟨rfl, -⟩ := h
  · have hproper := hg.isProper_of_derives (derives_of_form hp hform h)
      (isProper_nonterminal hy) (.terminal t) (by simp)
    exact ⟨fun he => hproper.2 (by rw [he]), Or.inl hproper.1⟩
  · exact ⟨(ne_endMarker hg.epsilon_lt).symm, Or.inr rfl⟩

/-- What selects a production is viable for it. -/
theorem viable_of_selects (hg : g.WellFormed) (hp : p ∈ g.productions) (h : g.Selects p t) :
    g.Viable p t := by
  obtain ⟨hne, hbegins⟩ | ⟨hvanish, hfollows⟩ := h
  · -- the left-hand side alone is a form in which the production begins with `t`
    obtain ⟨rest, hrest⟩ := (begins_of_ne hne).mp hbegins
    exact Or.inl ⟨p.lhs, hg.lhs_lt_of_mem hp, [], [], Derives.refl g _, rest,
      by rwa [List.append_nil]⟩
  · obtain ⟨-, y, hy, before, after, h⟩ | ⟨rfl, before, h⟩ := hfollows
    · exact Or.inl ⟨y, hy, before, .terminal t :: after, h, after, hvanish.append_right _⟩
    · exact Or.inr ⟨rfl, before, [], h, by rwa [List.append_nil]⟩

/-- What is viable for a production selects it. -/
theorem selects_of_viable (hg : g.WellFormed) (hp : p ∈ g.productions) (h : g.Viable p t) :
    g.Selects p t := by
  have hne := (hg.isLookahead_of_viable hp h).1
  obtain ⟨y, hy, before, after, hform, rest, h⟩ | ⟨rfl, before, after, hform, h⟩ := h
  · have hproper := hg.isProper_of_derives (derives_of_form hp hform h)
      (isProper_nonterminal hy) (.terminal t) (by simp)
    obtain ⟨u, v, huv, hu, hv⟩ := derives_append_iff.mp h
    cases u with
    | nil =>
      -- the production vanishes, and the lookahead comes from behind it
      refine Or.inr ⟨hu, Or.inl ⟨ne_endMarker hproper.1, y, hy, before, rest, hform.trans ?_⟩⟩
      rw [List.nil_append] at huv
      exact ((huv ▸ hv).append_left [.nonterminal p.lhs]).append_left before
    | cons s u =>
      obtain ⟨rfl, -⟩ := List.cons.inj huv
      exact Or.inl ⟨hne, (begins_of_ne hne).mpr ⟨u, hu⟩⟩
  · obtain ⟨u, v, huv, hu, hv⟩ := derives_append_iff.mp h
    obtain ⟨rfl, rfl⟩ := List.append_eq_nil_iff.mp huv.symm
    refine Or.inr ⟨hu, Or.inr ⟨rfl, before, hform.trans ?_⟩⟩
    exact (hv.append_left [.nonterminal p.lhs]).append_left before

/-- **Selection is viability.** -/
theorem selects_iff_viable (hg : g.WellFormed) (hp : p ∈ g.productions) :
    g.Selects p t ↔ g.Viable p t :=
  ⟨hg.viable_of_selects hp, hg.selects_of_viable hp⟩

/-- SELECT of a production holds what is viable for it. -/
theorem mem_select_iff_viable (hg : g.WellFormed) (hp : p ∈ g.productions) :
    t ∈ g.select p ↔ g.Viable p t :=
  (hg.mem_select_iff hp).trans (hg.selects_iff_viable hp)

/-- **No lookahead is in two SELECT sets exactly when none leaves two
alternatives viable.** -/
theorem isDeterministic_select_iff (hg : g.WellFormed) :
    g.IsDeterministic g.select ↔ ∀ (m n : Nat) (p q : Production), g.productions[m]? = some p →
      g.productions[n]? = some q → p.lhs = q.lhs → ∀ t, g.Viable p t → g.Viable q t → m = n := by
  unfold IsDeterministic
  refine forall₄_congr (fun m n p q => forall₃_congr (fun hp hq _ => ?_))
  refine forall_congr' (fun t => ?_)
  rw [hg.mem_select_iff_viable (List.mem_of_getElem? hp),
    hg.mem_select_iff_viable (List.mem_of_getElem? hq)]

end WellFormed

end Grammar

namespace LookaheadAnalysis

variable {g : Grammar}

/-- A predictive parser is refused exactly when the verdict is no. -/
theorem exists_ofAnalysis_eq_error_iff (a : LookaheadAnalysis) :
    (∃ e, PredictiveParser.ofAnalysis a = .error e) ↔ a.isLL1 = false := by
  unfold PredictiveParser.ofAnalysis isLL1
  cases a.conflict? <;> simp

/-- **The LL(1) verdict is exact.** In every constructed grammar SELECT of
a production holds the lookaheads that are viable for it: terminals other
than epsilon, and the end-marker. The verdict is yes if and only if no
lookahead is viable for two productions of one nonterminal, and there is
no predictive parser if and only if the verdict is no. -/
theorem verdict_exact (hg : g.Constructed) :
    let a := LookaheadAnalysis.ofGrammar g
    (∀ (n : Nat) (p : Production), g.productions[n]? = some p → ∃ s, a.select[n]? = some s
        ∧ (∀ t, t ∈ s ↔ g.Viable p t)
        ∧ ∀ t ∈ s, t ≠ g.epsilon ∧ (t.index < g.terminals.length ∨ t = g.endMarker))
      ∧ (a.isLL1 = true ↔ ∀ (m n : Nat) (p q : Production), g.productions[m]? = some p →
        g.productions[n]? = some q → p.lhs = q.lhs → ∀ t, g.Viable p t → g.Viable q t → m = n)
      ∧ ((∃ e, PredictiveParser.ofAnalysis a = .error e) ↔ a.isLL1 = false) := by
  intro a
  have hwf := hg.wellFormed
  refine ⟨fun n p hp => ⟨g.select p, ?_, fun t => ?_, fun t ht => ?_⟩, ?_,
    exists_ofAnalysis_eq_error_iff a⟩
  · show (g.productions.map g.select)[n]? = some (g.select p)
    rw [List.getElem?_map, hp, Option.map_some]
  · exact hwf.mem_select_iff_viable (List.mem_of_getElem? hp)
  · have hmem := List.mem_of_getElem? hp
    exact hwf.isLookahead_of_viable hmem ((hwf.mem_select_iff_viable hmem).mp ht)
  · rw [isLL1_iff_conflicts_eq_nil, ← hwf.isDeterministic_select_iff]
    exact hwf.conflicts_eq_nil_iff

/-- In the grammar of brackets the empty alternative of `S` is viable
before `)` and at the end, the alternative `L` before nothing, and what is
viable for the empty alternative is not viable for `(S)S`. -/
theorem verdict_exact_brackets :
    Grammar.brackets.Constructed
      ∧ Grammar.brackets.Viable ⟨⟨0⟩, [.terminal ⟨2⟩]⟩ ⟨1⟩
      ∧ Grammar.brackets.Viable ⟨⟨0⟩, [.terminal ⟨2⟩]⟩ Grammar.brackets.endMarker
      ∧ (∀ t, ¬ Grammar.brackets.Viable ⟨⟨0⟩, [.nonterminal ⟨1⟩]⟩ t)
      ∧ ∀ t, Grammar.brackets.Viable ⟨⟨0⟩, [.terminal ⟨2⟩]⟩ t →
        ¬ Grammar.brackets.Viable ⟨⟨0⟩, [.terminal ⟨0⟩, .nonterminal ⟨0⟩, .terminal ⟨1⟩,
          .nonterminal ⟨0⟩]⟩ t := by
  obtain ⟨hselect, hverdict, -⟩ := verdict_exact Grammar.constructed_brackets
  obtain ⟨s, hs, hempty, -⟩ := hselect 1 ⟨⟨0⟩, [.terminal ⟨2⟩]⟩ rfl
  obtain ⟨s', hs', hloop, -⟩ := hselect 2 ⟨⟨0⟩, [.nonterminal ⟨1⟩]⟩ rfl
  have hsets : (LookaheadAnalysis.ofGrammar Grammar.brackets).select[1]? = some ⟨10⟩
      ∧ (LookaheadAnalysis.ofGrammar Grammar.brackets).select[2]? = some ⟨0⟩ := by
    decide +kernel
  obtain rfl := Option.some.inj (hs.symm.trans hsets.1)
  obtain rfl := Option.some.inj (hs'.symm.trans hsets.2)
  refine ⟨Grammar.constructed_brackets, (hempty ⟨1⟩).mp (by decide),
    (hempty Grammar.brackets.endMarker).mp (by decide),
    fun t ht => TerminalSet.not_mem_empty t ((hloop t).mpr ht), fun t hempty hrec => ?_⟩
  have hll : (LookaheadAnalysis.ofGrammar Grammar.brackets).isLL1 = true := by decide +kernel
  exact absurd (hverdict.mp hll 0 1 _ _ rfl rfl rfl t hrec hempty) (by decide)

end LookaheadAnalysis

end GrammarAnalysis
