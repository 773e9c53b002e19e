import GrammarAnalysis.Proofs.ParsedLanguage

/-!
# Where the parser finds an error

The parser of an LL(1) grammar reports an error at the earliest symbol
that can be blamed for it. There are three ways to fail (`Failure`). The
next symbol cannot be read: the input is at its end, or the symbol names
no terminal. The top of the stack does not go with the symbol that was
read (`Blocks`). Or there is more input after the end-marker that
completes a sentence. In each of them the symbols before the position of
the error have been matched, and what is left of the stack behind them is
a sentential form, so these symbols are the beginning of one.

That no sentence begins with the symbols up to and including the one at
the position of the error is an argument about two inputs. The parser
looks at no symbol behind that position, so any other input that agrees so
far fails in the same way (`parse_eq_of_take_eq`), and a sentence does not
fail. Only an input that ends too early says nothing about longer ones.
-/

namespace GrammarAnalysis

namespace PredictiveParser

variable {p : PredictiveParser} {g : Grammar} {c c' : Configuration} {t : Terminal}
  {steps : List ParseStep} {input rest : List String} {position : Nat} {e : ParseError}

/-! ## Inputs that begin alike -/

theorem exists_cons_of_take_eq {α : Type} {a : α} {l l' : List α} {k : Nat}
    (h : l'.take (k + 1) = (a :: l).take (k + 1)) :
    ∃ tail, l' = a :: tail ∧ tail.take k = l.take k := by
  cases l' with
  | nil => cases h
  | cons b tail =>
    rw [List.take_succ_cons, List.take_succ_cons] at h
    obtain ⟨rfl, htail⟩ := List.cons.inj h
    exact ⟨tail, rfl, htail⟩

/-- Behind a descent, no symbol behind the error matters, if that holds of
the run that goes on there. -/
theorem conclude_eq_of_take_eq {position : Nat} {d : Descent}
    (hrun : ∀ left, (p.runFrom (position + 1) left rest).error? = some e →
      ∃ k, e.position = position + 1 + k ∧ ∀ rest', rest'.take (k + 1) = rest.take (k + 1) →
        p.runFrom (position + 1) left rest' = p.runFrom (position + 1) left rest)
    (he : (p.conclude position t rest d).error? = some e) :
    ∃ k, e.position = position + k ∧ ∀ rest', rest'.take k = rest.take k →
      p.conclude position t rest' d = p.conclude position t rest d := by
  have hhere : ∀ fault, ParseRun.error? (.failed fault position) = some e → e.position = position :=
    fun fault he => by rw [← Option.some.inj he]
  cases d with
  | vanished =>
    simp only [conclude] at he ⊢
    split_ifs at he ⊢ with ht
    · cases rest with
      | nil => cases he
      | cons extra rest =>
        refine ⟨1, by rw [← Option.some.inj he], fun rest' h => ?_⟩
        obtain ⟨tail, rfl, -⟩ := exists_cons_of_take_eq h
        rfl
    · exact ⟨0, hhere _ he, fun _ _ => rfl⟩
  | reached u left =>
    simp only [conclude] at he ⊢
    split_ifs at he ⊢ with hu
    · obtain ⟨k, hk, hsame⟩ := hrun left he
      exact ⟨k + 1, by omega, fun rest' h => by rw [hsame rest' h]⟩
    · exact ⟨0, hhere _ he, fun _ _ => rfl⟩
  | blocked x => exact ⟨0, hhere _ he, fun _ _ => rfl⟩
  | endless x => exact ⟨0, hhere _ he, fun _ _ => rfl⟩

/-- **A run looks at no symbol behind its error.** -/
theorem runFrom_eq_of_take_eq {s : List Symbol} (he : (p.runFrom position s input).error? = some e)
    (hend : e.fault ≠ .unexpectedEnd) :
    ∃ k, e.position = position + k ∧ ∀ input', input'.take (k + 1) = input.take (k + 1) →
      p.runFrom position s input' = p.runFrom position s input := by
  induction input generalizing position s with
  | nil =>
    rw [runFrom_of_read_error (e := ⟨.unexpectedEnd, position⟩) rfl, Option.some.injEq] at he
    rw [← he] at hend
    exact absurd rfl hend
  | cons name rest ih =>
    cases hname : p.lookahead? name with
    | none =>
      have hread : ∀ rest, p.read position (name :: rest)
          = .error ⟨.unknownSymbol name, position⟩ :=
        fun rest => by rw [read, hname]
      rw [runFrom_of_read_error (hread rest), Option.some.injEq] at he
      refine ⟨0, by rw [← he, Nat.add_zero], fun input' h => ?_⟩
      obtain ⟨tail, rfl, -⟩ := exists_cons_of_take_eq h
      rw [runFrom_of_read_error (hread tail), runFrom_of_read_error (hread rest)]
    | some t =>
      have hread : ∀ rest, p.read position (name :: rest) = .ok (t, rest) :=
        fun rest => by rw [read, hname]
      rw [runFrom_of_read_ok (hread rest)] at he
      obtain ⟨k, hk, hsame⟩ :=
        conclude_eq_of_take_eq (fun left he => ih he) he
      refine ⟨k, hk, fun input' h => ?_⟩
      obtain ⟨tail, rfl, htail⟩ := exists_cons_of_take_eq h
      rw [runFrom_of_read_ok (hread tail), runFrom_of_read_ok (hread rest), hsame tail htail]

/-- **Inputs that agree up to an error have the same error.** -/
theorem parse_eq_of_take_eq (h : p.parse input = .error e) (hend : e.fault ≠ .unexpectedEnd)
    {input' : List String} (htake : input'.take (e.position + 1) = input.take (e.position + 1)) :
    p.parse input' = .error e := by
  obtain ⟨k, hk, hsame⟩ := runFrom_eq_of_take_eq (result_eq_error.mp h) hend
  rw [hk, Nat.zero_add] at htake
  rw [parse, run, hsame input' htake]
  exact h

/-! ## Three ways to fail -/

/-- **The top of the stack does not go with the lookahead**: it is another
terminal, or a nonterminal without a production for it. -/
inductive Blocks (p : PredictiveParser) (c : Configuration) : ParseFault → Prop
  | mismatch {t : Terminal} {below : List Symbol} (hstack : c.stack = .terminal t :: below)
    (hne : t ≠ c.lookahead) : Blocks p c
      (.mismatch (p.grammar.terminalName t) (p.grammar.terminalName c.lookahead))
  | noProduction {x : Nonterminal} {below : List Symbol}
    (hstack : c.stack = .nonterminal x :: below) (hget : p.table.get? x c.lookahead = none) :
    Blocks p c
      (.noProduction (p.grammar.nonterminalName x) (p.grammar.terminalName c.lookahead))

/-- Why a symbol cannot be read. -/
theorem read_error_cases (h : p.read position input = .error e) :
    (input = [] ∧ e = ⟨.unexpectedEnd, position⟩)
      ∨ ∃ name rest, input = name :: rest ∧ p.lookahead? name = none
        ∧ e = ⟨.unknownSymbol name, position⟩ := by
  cases input with
  | nil =>
    cases h
    exact Or.inl ⟨rfl, rfl⟩
  | cons name rest =>
    rw [read] at h
    split at h
    · next hname =>
      cases h
      exact Or.inr ⟨name, rest, rfl, hname, rfl⟩
    · cases h

/-- **How a turn fails.** -/
theorem turn_error_cases {taken : List ParseStep} (h : p.turn c = .returns ⟨taken, some e⟩) :
    (∃ t below, c.stack = .terminal t :: below ∧ t = c.lookahead ∧ t ≠ p.grammar.endMarker
        ∧ taken = [.matched t] ∧ p.read (c.position + 1) c.rest = .error e)
      ∨ (p.Blocks c e.fault ∧ e.position = c.position ∧ taken = [])
      ∨ ∃ below extra rest, c.stack = .terminal p.grammar.endMarker :: below
        ∧ c.lookahead = p.grammar.endMarker ∧ c.rest = extra :: rest ∧ taken = []
        ∧ e = ⟨.trailingInput extra, c.position + 1⟩ := by
  unfold turn at h
  split at h
  · cases h
  · next t below hstack =>
    split_ifs at h with ht hend
    · unfold finish at h
      split at h
      · cases h
      · next extra rest hrest =>
        cases h
        exact Or.inr (Or.inr ⟨below, extra, rest, by rw [hstack, hend], by rw [← ht, hend], hrest,
          rfl, rfl⟩)
    · split at h
      · next e' hread =>
        cases h
        exact Or.inl ⟨t, below, hstack, ht, hend, rfl, hread⟩
      · cases h
    · cases h
      exact Or.inr (Or.inl ⟨.mismatch hstack ht, rfl, rfl⟩)
  · next x below hstack =>
    split at h
    · next hget =>
      cases h
      exact Or.inr (Or.inl ⟨.noProduction hstack hget, rfl, rfl⟩)
    · cases h

/-- The position counts the terminals that were matched. -/
theorem position_of_reaches (h : p.Reaches c steps c') :
    c'.position = c.position + (matched steps).length := by
  induction h with
  | refl c => rfl
  | step hturn _ ih =>
    obtain ⟨t, below, -, -, -, rfl, l, rest, -, rfl⟩ | ⟨x, n, below, -, -, rfl, rfl⟩ :=
      goesOn_cases hturn
    · rw [ih, matched_matched, List.length_cons, Nat.add_assoc, Nat.add_comm 1]
    · exact ih

/-- **How a run fails**, with the steps it has taken and the error. -/
inductive Failure (p : PredictiveParser) (g : Grammar) (input : List String) :
    List ParseStep → ParseError → Prop
  /-- The symbol behind those that were matched cannot be read. -/
  | reading {steps : List ParseStep} {rest : List String} {e : ParseError}
    (hinput : input = (matched steps).map g.terminalName ++ rest)
    (hread : p.read (matched steps).length rest = .error e) : Failure p g input steps e
  /-- The symbol behind those that were matched does not go with the top of
  the stack. -/
  | blocked {steps : List ParseStep} {c₀ c : Configuration} {above : List Symbol} {e : ParseError}
    (hc₀ : p.initial input = .ok c₀) (hreaches : p.Reaches c₀ steps c)
    (hexplains : Explains g input steps c above) (hposition : c.position = (matched steps).length)
    (hblocks : p.Blocks c e.fault) (he : e.position = c.position) : Failure p g input steps e
  /-- What was matched is a sentence, and more than the end-marker stands
  behind it. -/
  | trailing {steps : List ParseStep} {extra : String} {rest : List String}
    (hinput : input = g.inputOf (matched steps) ++ extra :: rest)
    (hderives : g.Derives [.nonterminal g.start] ((matched steps).map .terminal)) :
    Failure p g input steps ⟨.trailingInput extra, (matched steps).length + 1⟩

namespace IsFor

/-- **Every error comes about in one of these ways.** -/
theorem failure_of_parse (hp : p.IsFor g) (h : p.parse input = .error e) :
    Failure p g input (p.run input).steps e := by
  have herror := result_eq_error.mp h
  cases hc₀ : p.initial input with
  | error e' =>
    rw [run_of_initial_error hc₀] at herror ⊢
    obtain rfl := Option.some.inj herror
    have hinput : input = (matched []).map g.terminalName ++ input := rfl
    exact .reading hinput (initial_eq_error.mp hc₀)
  | ok c₀ =>
    obtain ⟨limit, hloop⟩ := hp.exists_loop_eq_run hc₀
    obtain ⟨taken, c, ⟨last, error?⟩, hr, hturn, hrun⟩ := exists_of_loop_eq_some hloop
    rw [hrun] at herror ⊢
    obtain rfl : error? = some e := herror
    obtain ⟨above, hc⟩ := hp.explains_of_reaches (hp.explains_of_initial hc₀) hr
    rw [List.nil_append] at hc
    have hposition : c.position = (matched taken).length := by
      obtain ⟨t, rest, -, rfl⟩ := initial_eq_ok.mp hc₀
      simpa using position_of_reaches hr
    show Failure p g input (taken ++ last) e
    obtain ⟨t, below, hstack, rfl, hend, rfl, hread⟩ | ⟨hblocks, he, rfl⟩ |
      ⟨below, extra, rest, hstack, hlook, hrest, rfl, rfl⟩ := turn_error_cases hturn
    · have hinput : input = (matched (taken ++ [.matched c.lookahead])).map g.terminalName
          ++ c.rest := by
        simpa using hc.input_eq
      exact .reading hinput (by simpa [hposition] using hread)
    · rw [List.append_nil]
      exact .blocked hc₀ hr hc hposition hblocks he
    · rw [hp.grammar_eq] at hstack hlook
      obtain rfl := hp.eq_nil_of_top hc hstack
      have hinput := hc.input_eq
      have hderives := hc.derives.derives
      rw [hlook, hrest, terminalName_endMarker] at hinput
      rw [List.append_nil] at hderives
      rw [List.append_nil, hposition]
      exact .trailing (by simpa [Grammar.inputOf] using hinput) hderives

end IsFor

/-! ## What an error says -/

/-- **The unmatched stack of a failing run**: the parser stands at the
position of the error, and the terminals that were matched, with the stack
behind them, are a sentential form, which the expansions so far derive
leftmost. -/
structure Unmatched (p : PredictiveParser) (g : Grammar) (input : List String) (e : ParseError)
    (above : List Symbol) : Prop where
  reaches : ∃ c₀ c, p.initial input = .ok c₀ ∧ p.Reaches c₀ (p.run input).steps c
    ∧ c.position = e.position ∧ c.stack = above ++ [.terminal g.endMarker]
  derives : g.LeftmostDerives [.nonterminal g.start] (expanded (p.run input).steps)
    ((matched (p.run input).steps).map .terminal ++ above)

/-- **An exact error.** -/
structure IsExact (p : PredictiveParser) (g : Grammar) (input : List String) (e : ParseError) :
    Prop where
  position_le : e.position ≤ input.length
  /-- What stands before the position was matched, -/
  matched_eq : (∀ extra, e.fault ≠ .trailingInput extra) →
    (matched (p.run input).steps).map g.terminalName = input.take e.position
  /-- or is an accepted input of its own. -/
  trailingInput : ∀ extra, e.fault = .trailingInput extra → input[e.position]? = some extra
    ∧ ∃ steps, p.parse (input.take e.position) = .ok steps
  /-- The input ends too early exactly if the position is its end, -/
  unexpectedEnd_iff : e.fault = .unexpectedEnd ↔ e.position = input.length
  /-- and if all of it was matched. -/
  unexpectedEnd_iff_matched : e.fault = .unexpectedEnd ↔
    (matched (p.run input).steps).map g.terminalName = input
  unknownSymbol : ∀ name, e.fault = .unknownSymbol name → input[e.position]? = some name
    ∧ name ≠ endMarkerName ∧ (name ∈ g.terminals → name = epsilonName)
  mismatch : ∀ expected found, e.fault = .mismatch expected found →
    input[e.position]? = some found ∧ expected ≠ found
      ∧ ((p.Unmatched g input e [] ∧ expected = endMarkerName)
        ∨ ∃ t rest, p.Unmatched g input e (.terminal t :: rest) ∧ expected = g.terminalName t)
  noProduction : ∀ name lookahead, e.fault = .noProduction name lookahead →
    input[e.position]? = some lookahead
      ∧ ∃ x rest, p.Unmatched g input e (.nonterminal x :: rest) ∧ name = g.nonterminalName x
  /-- No sentence begins with the symbols up to the one to blame. -/
  not_isPrefix : e.fault ≠ .unexpectedEnd → ∀ ts : List Terminal,
    g.Derives [.nonterminal g.start] (ts.map .terminal) →
      ¬ input.take (e.position + 1) <+: g.inputOf ts
  /-- Inputs that agree up to there have the same error. -/
  congr : e.fault ≠ .unexpectedEnd → ∀ input',
    input'.take (e.position + 1) = input.take (e.position + 1) → p.parse input' = .error e

namespace Failure

/-- Where the position of an error is, and what stands before it. -/
theorem split (h : Failure p g input steps e) :
    ∃ before after, input = before ++ after ∧ e.position = before.length
      ∧ (e.fault = .unexpectedEnd ↔ after = [])
      ∧ ((matched steps).map g.terminalName = before
        ∨ ∃ extra, e.fault = .trailingInput extra
          ∧ before = (matched steps).map g.terminalName ++ [endMarkerName]) := by
  cases h with
  | reading hinput hread =>
    refine ⟨_, _, hinput, ?_, ?_, Or.inl rfl⟩
    · obtain ⟨-, rfl⟩ | ⟨name, rest, -, -, rfl⟩ := read_error_cases hread <;> simp
    · obtain ⟨rfl, rfl⟩ | ⟨name, rest, rfl, -, rfl⟩ := read_error_cases hread <;> simp
  | blocked hc₀ hr hc hposition hblocks he =>
    refine ⟨_, _, hc.input_eq, ?_, ?_, Or.inl rfl⟩
    · rw [he, hposition, List.length_map]
    · refine iff_of_false (fun hend => ?_) (List.cons_ne_nil _ _)
      rw [hend] at hblocks
      cases hblocks
  | trailing hinput hderives =>
    exact ⟨_, _, hinput, by simp [Grammar.inputOf], by simp, Or.inr ⟨_, rfl, rfl⟩⟩

/-- **The input ends too early exactly when all of it was matched.** -/
theorem unexpectedEnd_iff_matched (h : Failure p g input steps e) :
    e.fault = .unexpectedEnd ↔ (matched steps).map g.terminalName = input := by
  obtain ⟨before, after, rfl, -, hend, hmatched | ⟨extra, hextra, rfl⟩⟩ := h.split
  · rw [hend, hmatched, List.self_eq_append_right]
  · refine iff_of_false (by rw [hextra]; simp) (fun heq => ?_)
    have hlength := congrArg List.length heq
    simp at hlength

/-- A symbol that names nothing. -/
theorem of_unknownSymbol {name : String} (h : Failure p g input steps e)
    (hfault : e.fault = .unknownSymbol name) :
    input[e.position]? = some name ∧ p.lookahead? name = none := by
  cases h with
  | reading hinput hread =>
    obtain ⟨-, rfl⟩ | ⟨name', rest, rfl, hname, rfl⟩ := read_error_cases hread
    · cases hfault
    · cases hfault
      exact ⟨by simp [hinput], hname⟩
  | blocked hc₀ hr hc hposition hblocks he =>
    rw [hfault] at hblocks
    cases hblocks
  | trailing hinput hderives => cases hfault

/-- More input behind a sentence. -/
theorem of_trailingInput {extra : String} (h : Failure p g input steps e)
    (hfault : e.fault = .trailingInput extra) :
    input[e.position]? = some extra ∧ input.take e.position = g.inputOf (matched steps)
      ∧ g.Derives [.nonterminal g.start] ((matched steps).map .terminal) := by
  cases h with
  | reading hinput hread =>
    obtain ⟨-, rfl⟩ | ⟨name, rest, -, -, rfl⟩ := read_error_cases hread <;> cases hfault
  | blocked hc₀ hr hc hposition hblocks he =>
    rw [hfault] at hblocks
    cases hblocks
  | trailing hinput hderives =>
    cases hfault
    have hlength : (matched steps).length + 1 = (g.inputOf (matched steps)).length := by
      simp [Grammar.inputOf]
    rw [hinput, hlength]
    exact ⟨by simp, List.take_left, hderives⟩

/-- A symbol that does not go with the top of the stack. -/
theorem of_blocks (h : Failure p g input (p.run input).steps e)
    (hfault : (∃ expected found, e.fault = .mismatch expected found)
      ∨ ∃ name lookahead, e.fault = .noProduction name lookahead) :
    ∃ c above, Explains g input (p.run input).steps c above ∧ p.Unmatched g input e above
      ∧ p.Blocks c e.fault ∧ input[e.position]? = some (g.terminalName c.lookahead) := by
  generalize hsteps : (p.run input).steps = steps at h
  cases h with
  | reading hinput hread =>
    obtain ⟨-, rfl⟩ | ⟨name, rest, -, -, rfl⟩ := read_error_cases hread <;> simp at hfault
  | @blocked c₀ c above _ hc₀ hr hc hposition hblocks he =>
    refine ⟨c, above, hc, ⟨⟨c₀, c, hc₀, hsteps ▸ hr, he.symm, hc.stack_eq⟩, hsteps ▸ hc.derives⟩,
      hblocks, ?_⟩
    rw [hc.input_eq, he, hposition]
    simp
  | trailing hinput hderives => simp at hfault

end Failure

namespace IsFor

theorem eq_of_terminalName_eq (hp : p.IsFor g) {t u : Terminal} (ht : g.IsInput t)
    (hu : g.IsInput u) (h : g.terminalName t = g.terminalName u) : t = u := by
  have hlook := hp.lookahead?_eq_some_iff.mpr ⟨ht, rfl⟩
  rw [hp.lookahead?_eq_some_iff.mpr ⟨hu, h.symm⟩] at hlook
  exact (Option.some.inj hlook).symm

/-- A name that cannot be read is neither that of the end-marker nor that
of a terminal other than epsilon. -/
theorem name_of_lookahead?_eq_none (hp : p.IsFor g) {name : String}
    (h : p.lookahead? name = none) :
    name ≠ endMarkerName ∧ (name ∈ g.terminals → name = epsilonName) := by
  have hno : ∀ t, g.IsInput t → g.terminalName t ≠ name := by
    intro t ht hname
    rw [hp.lookahead?_eq_some_iff.mpr ⟨ht, hname⟩] at h
    cases h
  refine ⟨fun hname => hno g.endMarker (Or.inl rfl) ?_, fun hmem => ?_⟩
  · rw [hname, terminalName_endMarker]
  · obtain ⟨i, hi⟩ := List.mem_iff_getElem?.mp hmem
    have hlt := (List.getElem?_eq_some_iff.mp hi).1
    by_contra hne
    have hε : (⟨i⟩ : Terminal) ≠ g.epsilon := by
      intro heq
      have hname := Grammar.getElem?_epsilon hp.wellFormed.epsilon_mem
      rw [← heq, hi] at hname
      exact hne (Option.some.inj hname)
    exact hno ⟨i⟩ (Or.inr ⟨hlt, hε⟩) ((Grammar.terminalName_eq_iff hlt).mpr hi)

/-- **The top of the stack of a mismatch.** -/
theorem mismatch_of_blocks (hp : p.IsFor g) {above : List Symbol} {expected found : String}
    (hc : Explains g input steps c above) (h : p.Blocks c (.mismatch expected found)) :
    found = g.terminalName c.lookahead ∧ expected ≠ found
      ∧ ((above = [] ∧ expected = endMarkerName)
        ∨ ∃ t rest, above = .terminal t :: rest ∧ expected = g.terminalName t) := by
  cases h with
  | @mismatch t below hstack hne =>
    rw [hp.grammar_eq]
    by_cases ht : t = g.endMarker
    · subst ht
      refine ⟨rfl, fun h => hne (hp.eq_of_terminalName_eq (Or.inl rfl) hc.isInput h),
        Or.inl ⟨hp.eq_nil_of_top hc hstack, terminalName_endMarker g⟩⟩
    · obtain ⟨rest, rfl, -⟩ :=
        eq_append_of_top hstack hc.stack_eq (fun h => ht (Symbol.terminal.inj h))
      have hinput := hp.wellFormed.isInput_of_derives (t := t) hc.derives.derives (by simp)
      exact ⟨rfl, fun h => hne (hp.eq_of_terminalName_eq (Or.inr hinput) hc.isInput h),
        Or.inr ⟨t, rest, rfl, rfl⟩⟩

theorem noProduction_of_blocks (hp : p.IsFor g) {above : List Symbol} {name lookahead : String}
    (hc : Explains g input steps c above) (h : p.Blocks c (.noProduction name lookahead)) :
    lookahead = g.terminalName c.lookahead
      ∧ ∃ x rest, above = .nonterminal x :: rest ∧ name = g.nonterminalName x := by
  cases h with
  | @noProduction x below hstack hget =>
    rw [hp.grammar_eq]
    obtain ⟨rest, rfl, -⟩ := eq_append_of_top hstack hc.stack_eq (by simp)
    exact ⟨rfl, x, rest, rfl, rfl⟩

/-- No sentence begins with the symbols up to the one to blame: it would
have the error itself. -/
theorem not_isPrefix_of_parse (hp : p.IsFor g) (h : p.parse input = .error e)
    (hne : e.fault ≠ .unexpectedEnd) (hlt : e.position < input.length) {ts : List Terminal}
    (hts : g.Derives [.nonterminal g.start] (ts.map .terminal)) :
    ¬ input.take (e.position + 1) <+: g.inputOf ts := by
  intro hprefix
  have hlength : (input.take (e.position + 1)).length = e.position + 1 :=
    List.length_take_of_le hlt
  have hagree := List.prefix_iff_eq_take.mp hprefix
  rw [hlength] at hagree
  obtain ⟨steps, hparse⟩ := hp.exists_parse_iff.mpr ⟨ts, rfl, hts⟩
  rw [parse_eq_of_take_eq h hne hagree.symm] at hparse
  cases hparse

/-- **The errors of the parser are exact.** -/
theorem isExact (hp : p.IsFor g) (h : p.parse input = .error e) : p.IsExact g input e := by
  have hfail := hp.failure_of_parse h
  obtain ⟨before, after, hinput, hposition, hend, hmatched⟩ := hfail.split
  have htake : input.take e.position = before := by
    rw [hposition, hinput, List.take_left]
  have hlength : input.length = e.position + after.length := by
    rw [hinput, hposition, List.length_append]
  refine
    { position_le := hlength ▸ Nat.le_add_right _ _
      matched_eq := fun hne => ?matched
      trailingInput := fun extra hfault => ?trailing
      unexpectedEnd_iff := ?ended
      unexpectedEnd_iff_matched := hfail.unexpectedEnd_iff_matched
      unknownSymbol := fun name hfault => ?unknown
      mismatch := fun expected found hfault => ?mismatch
      noProduction := fun name lookahead hfault => ?noProduction
      not_isPrefix := fun hne ts hts => hp.not_isPrefix_of_parse h hne ?lt hts
      congr := fun hne _ => parse_eq_of_take_eq h hne }
  case matched =>
    obtain hmatched | ⟨extra, hextra, -⟩ := hmatched
    · rw [htake, hmatched]
    · exact absurd hextra (hne extra)
  case trailing =>
    obtain ⟨hfound, hsentence, hderives⟩ := hfail.of_trailingInput hfault
    exact ⟨hfound, hp.exists_parse_iff.mpr ⟨_, hsentence, hderives⟩⟩
  case ended =>
    rw [hend, hlength]
    simp
  case unknown =>
    obtain ⟨hfound, hname⟩ := hfail.of_unknownSymbol hfault
    exact ⟨hfound, hp.name_of_lookahead?_eq_none hname⟩
  case mismatch =>
    obtain ⟨c, above, hc, hunmatched, hblocks, hfound⟩ :=
      hfail.of_blocks (Or.inl ⟨expected, found, hfault⟩)
    obtain ⟨rfl, hne, ⟨rfl, htop⟩ | ⟨t, rest, rfl, htop⟩⟩ :=
      hp.mismatch_of_blocks hc (hfault ▸ hblocks)
    · exact ⟨hfound, hne, Or.inl ⟨hunmatched, htop⟩⟩
    · exact ⟨hfound, hne, Or.inr ⟨t, rest, hunmatched, htop⟩⟩
  case noProduction =>
    obtain ⟨c, above, hc, hunmatched, hblocks, hfound⟩ :=
      hfail.of_blocks (Or.inr ⟨name, lookahead, hfault⟩)
    obtain ⟨rfl, x, rest, rfl, hname⟩ := hp.noProduction_of_blocks hc (hfault ▸ hblocks)
    exact ⟨hfound, x, rest, hunmatched, hname⟩
  case lt =>
    have := List.length_pos_iff.mpr (mt hend.mpr hne)
    omega

end IsFor

/-- **Error positions are exact and earliest.** The parser of an LL(1)
grammar blames the symbol at the position of the error. All symbols before
it were matched, or are an accepted input; they and the unmatched stack
are a sentential form; no sentence begins with the symbols up to and
including it; and every input that agrees so far has the same error. Only
an input that ends too early blames no symbol. -/
theorem errors_exact (hg : g.Constructed)
    (hll : (LookaheadAnalysis.ofGrammar g).isLL1 = true) :
    ∃ p, ofAnalysis (LookaheadAnalysis.ofGrammar g) = .ok p
      ∧ ∀ input e, p.parse input = .error e → p.IsExact g input e := by
  obtain ⟨p, hp⟩ := (exists_ofAnalysis_iff _).mpr hll
  exact ⟨p, hp, fun _ _ h => (isFor_of_ofAnalysis hg.wellFormed hp).isExact h⟩

/-- No sentence of brackets begins with `)`, and every input that does has
the same error. An input that ends with a bracket open is to blame at its
end marker only: the three symbols before it were matched, and a bracket to
close it stands on top of the unmatched stack. -/
theorem errors_exact_brackets :
    Grammar.brackets.Constructed
      ∧ (LookaheadAnalysis.ofGrammar Grammar.brackets).isLL1 = true
      ∧ ∃ p, ofAnalysis (LookaheadAnalysis.ofGrammar Grammar.brackets) = .ok p
        ∧ (∀ rest, p.parse (")" :: rest) = .error ⟨.mismatch "#" ")", 0⟩)
        ∧ (∀ ts : List Terminal, Grammar.brackets.Derives [.nonterminal ⟨0⟩] (ts.map .terminal) →
          ¬ [")"] <+: Grammar.brackets.inputOf ts)
        ∧ (∀ rest, p.parse ("(" :: ")" :: "(" :: "#" :: rest) = .error ⟨.mismatch ")" "#", 3⟩)
        ∧ (matched (p.run ["(", ")", "(", "#"]).steps).map Grammar.brackets.terminalName
          = ["(", ")", "("]
        ∧ (∃ t rest, p.Unmatched Grammar.brackets ["(", ")", "(", "#"] ⟨.mismatch ")" "#", 3⟩
            (.terminal t :: rest) ∧ ")" = Grammar.brackets.terminalName t)
        ∧ ∀ ts : List Terminal, Grammar.brackets.Derives [.nonterminal ⟨0⟩] (ts.map .terminal) →
          ¬ ["(", ")", "(", "#"] <+: Grammar.brackets.inputOf ts := by
  have hll : (LookaheadAnalysis.ofGrammar Grammar.brackets).isLL1 = true := by decide +kernel
  obtain ⟨p, hp, hexact⟩ := errors_exact Grammar.constructed_brackets hll
  obtain ⟨-, rfl⟩ := eq_of_ofAnalysis hp
  have hfirst : (run ⟨Grammar.brackets, .ofSelect Grammar.brackets
      (LookaheadAnalysis.ofGrammar Grammar.brackets).select⟩ [")"]).error?
        = some ⟨.mismatch "#" ")", 0⟩ := by decide +kernel
  have hlast : (run ⟨Grammar.brackets, .ofSelect Grammar.brackets
      (LookaheadAnalysis.ofGrammar Grammar.brackets).select⟩ ["(", ")", "(", "#"]).error?
        = some ⟨.mismatch ")" "#", 3⟩ := by decide +kernel
  have first := hexact [")"] _ (result_eq_error.mpr hfirst)
  have last := hexact ["(", ")", "(", "#"] _ (result_eq_error.mpr hlast)
  refine ⟨Grammar.constructed_brackets, hll, _, hp, fun rest => ?_, fun ts hts => ?_,
    fun rest => ?_, last.matched_eq (by simp), ?_, fun ts hts => ?_⟩
  · exact first.congr (by simp) (")" :: rest) rfl
  · exact first.not_isPrefix (by simp) ts hts
  · exact last.congr (by simp) ("(" :: ")" :: "(" :: "#" :: rest) rfl
  · obtain ⟨-, -, ⟨-, hmarker⟩ | h⟩ := last.mismatch ")" "#" rfl
    · exact absurd hmarker (by decide)
    · exact h
  · exact last.not_isPrefix (by simp) ts hts

end PredictiveParser

end GrammarAnalysis
