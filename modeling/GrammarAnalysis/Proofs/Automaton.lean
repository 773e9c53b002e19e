import GrammarAnalysis.Predictive.Parser
import Mathlib.Tactic.SplitIfs

/-!
# The stack automaton

A predictive parser is usually told as an automaton with one loop: look
at the top of the stack; a terminal must be the lookahead and is read, a
nonterminal is replaced by what the table says, and the end-marker at
the bottom ends the parse. `turn` is one turn of that loop, and `loop` is
the loop with a limit on the number of turns, which the automaton itself
does not have.

`PredictiveParser.run` is arranged by input symbols instead: it descends
the stack under one lookahead until a terminal is on top. Here the two
are shown to agree wherever every descent ends
(`PredictiveParser.loop_eq_run`). Whether descents end is a question
about the table and is left open in this module.

`Reaches` says what the automaton does in finitely many turns. It is
what invariants of the automaton are stated with.
-/

namespace GrammarAnalysis

/-- **A configuration of the automaton.** -/
structure Configuration where
  /-- The stack, its top first, down to the end-marker. -/
  stack : List Symbol
  /-- The input symbol that was read last. -/
  lookahead : Terminal
  /-- The input that is left. -/
  rest : List String
  /-- The number of input symbols before the lookahead. -/
  position : Nat
deriving DecidableEq, Repr

/-- The stack ends with the end-marker `e`, which is nowhere else in it. -/
def Configuration.Anchored (e : Terminal) (c : Configuration) : Prop :=
  ∃ above, c.stack = above ++ [.terminal e] ∧ .terminal e ∉ above

/-- **One turn of the loop.** -/
inductive Turn where
  /-- A step is taken and the loop goes on. -/
  | goesOn (step : ParseStep) (next : Configuration)
  /-- The parser returns. -/
  | returns (run : ParseRun)
  /-- The stack is empty: the loop is left and nothing is returned. -/
  | leaves
deriving DecidableEq, Repr

/-- Whether a descent comes to an end. -/
def Descent.Ends (d : Descent) : Prop := ∀ x, d ≠ .endless x

@[simp] theorem Descent.ends_vanished : Descent.vanished.Ends := by
  simp [Ends]

@[simp] theorem Descent.ends_reached (t : Terminal) (rest : List Symbol) :
    (Descent.reached t rest).Ends := by
  simp [Ends]

@[simp] theorem Descent.ends_blocked (x : Nonterminal) : (Descent.blocked x).Ends := by
  simp [Ends]

@[simp] theorem Descent.not_ends_endless (x : Nonterminal) : ¬ (Descent.endless x).Ends :=
  fun h => h x rfl

instance : DecidablePred Descent.Ends
  | .vanished => isTrue Descent.ends_vanished
  | .reached t rest => isTrue (Descent.ends_reached t rest)
  | .blocked x => isTrue (Descent.ends_blocked x)
  | .endless x => isFalse (Descent.not_ends_endless x)

namespace PredictiveParser

/-- Reads one input symbol at `position`. -/
def read (p : PredictiveParser) (position : Nat) :
    List String → Except ParseError (Terminal × List String)
  | [] => .error ⟨.unexpectedEnd, position⟩
  | name :: rest =>
    match p.lookahead? name with
    | none => .error ⟨.unknownSymbol name, position⟩
    | some c => .ok (c, rest)

/-- What one turn of the loop does. -/
def turn (p : PredictiveParser) (c : Configuration) : Turn :=
  match c.stack with
  | [] => .leaves
  | .terminal t :: below =>
    if t = c.lookahead then
      if t = p.grammar.endMarker then .returns (finish c.position c.rest)
      else
        match p.read (c.position + 1) c.rest with
        | .error e => .returns ⟨[.matched t], some e⟩
        | .ok (next, rest) => .goesOn (.matched t) ⟨below, next, rest, c.position + 1⟩
    else
      .returns (.failed (.mismatch (p.grammar.terminalName t)
        (p.grammar.terminalName c.lookahead)) c.position)
  | .nonterminal x :: below =>
    match p.table.get? x c.lookahead with
    | none =>
      .returns (.failed (.noProduction (p.grammar.nonterminalName x)
        (p.grammar.terminalName c.lookahead)) c.position)
    | some n => .goesOn (.expand x n) { c with stack := p.expansionAt n ++ below }

/-- The loop, left after at most `limit` turns. -/
def loop (p : PredictiveParser) : (limit : Nat) → Configuration → Option ParseRun
  | 0, _ => none
  | limit + 1, c =>
    match p.turn c with
    | .goesOn step next => (p.loop limit next).map (fun run => run.after [step])
    | .returns run => some run
    | .leaves => none

/-- The configuration before the first turn: the start symbol stands
above the end-marker, and one symbol has been read. -/
def initial (p : PredictiveParser) (input : List String) : Except ParseError Configuration :=
  (p.read 0 input).map fun (c, rest) =>
    ⟨[.nonterminal p.grammar.start, .terminal p.grammar.endMarker], c, rest, 0⟩

/-- **What the automaton reaches** in finitely many turns, and the steps
it takes on the way. -/
inductive Reaches (p : PredictiveParser) :
    Configuration → List ParseStep → Configuration → Prop
  | refl (c : Configuration) : p.Reaches c [] c
  | step {c next last : Configuration} {s : ParseStep} {steps : List ParseStep}
      (h : p.turn c = .goesOn s next) (hr : p.Reaches next steps last) :
      p.Reaches c (s :: steps) last

variable {p : PredictiveParser} {c c' c'' : Configuration} {steps steps' : List ParseStep}

/-! ## Turns and runs -/

@[simp] theorem after_nil (run : ParseRun) : run.after [] = run := rfl

theorem after_after (run : ParseRun) (steps steps' : List ParseStep) :
    (run.after steps').after steps = run.after (steps ++ steps') := by
  unfold ParseRun.after
  rw [List.append_assoc]

theorem turn_terminal {t next : Terminal} {rest rest' : List String} {position : Nat}
    (ht : t ≠ p.grammar.endMarker) (hread : p.read (position + 1) rest = .ok (next, rest'))
    (below : List Symbol) :
    p.turn ⟨.terminal t :: below, t, rest, position⟩
      = .goesOn (.matched t) ⟨below, next, rest', position + 1⟩ := by
  simp [turn, ht, hread]

theorem turn_nonterminal {x : Nonterminal} {t : Terminal} {n : Nat}
    (hget : p.table.get? x t = some n) (below : List Symbol) (rest : List String)
    (position : Nat) :
    p.turn ⟨.nonterminal x :: below, t, rest, position⟩
      = .goesOn (.expand x n) ⟨p.expansionAt n ++ below, t, rest, position⟩ := by
  simp [turn, hget]

/-- **What a turn does when the loop goes on**: it reads the terminal on
top and the symbol after it, or replaces the nonterminal on top. -/
theorem goesOn_cases {s : ParseStep} (h : p.turn c = .goesOn s c') :
    (∃ t below, c.stack = .terminal t :: below ∧ t = c.lookahead ∧ t ≠ p.grammar.endMarker
      ∧ s = .matched t ∧ ∃ l rest, p.read (c.position + 1) c.rest = .ok (l, rest)
        ∧ c' = ⟨below, l, rest, c.position + 1⟩)
      ∨ ∃ x n below, c.stack = .nonterminal x :: below ∧ p.table.get? x c.lookahead = some n
        ∧ s = .expand x n ∧ c' = { c with stack := p.expansionAt n ++ below } := by
  unfold turn at h
  split at h
  · cases h
  · next t below hstack =>
    split_ifs at h with ht hend
    split at h
    · cases h
    · next l rest hread =>
      cases h
      exact Or.inl ⟨t, below, hstack, ht, hend, rfl, l, rest, hread, rfl⟩
  · next x below hstack =>
    split at h
    · cases h
    · next n hget =>
      cases h
      exact Or.inr ⟨x, n, below, hstack, hget, rfl, rfl⟩

/-- **When the parser accepts**: nothing is left but the end-marker. -/
theorem turn_eq_accept_iff {taken : List ParseStep} :
    p.turn c = .returns ⟨taken, none⟩ ↔ (∃ below, c.stack = .terminal p.grammar.endMarker :: below)
      ∧ c.lookahead = p.grammar.endMarker ∧ c.rest = [] ∧ taken = [.accept] := by
  constructor
  · intro h
    unfold turn at h
    split at h
    · cases h
    · next t below hstack =>
      split_ifs at h with ht hend
      · subst hend
        unfold finish at h
        split at h
        · next hrest =>
          cases h
          exact ⟨⟨below, hstack⟩, ht.symm, hrest, rfl⟩
        · cases h
      · split at h <;> cases h
      · cases h
    · split at h <;> cases h
  · rintro ⟨⟨below, hstack⟩, hlook, hrest, rfl⟩
    simp [turn, hstack, hlook, hrest, finish]

theorem Reaches.trans (h : p.Reaches c steps c') (h' : p.Reaches c' steps' c'') :
    p.Reaches c (steps ++ steps') c'' := by
  induction h with
  | refl c => exact h'
  | step hturn _ ih => exact Reaches.step hturn (ih h')

/-- The automaton passes through every prefix of its steps. -/
theorem Reaches.of_append (h : p.Reaches c (steps ++ steps') c'') :
    ∃ c', p.Reaches c steps c' ∧ p.Reaches c' steps' c'' := by
  induction steps generalizing c with
  | nil => exact ⟨c, Reaches.refl c, h⟩
  | cons s steps ih =>
    cases h with
    | step hturn hr =>
      obtain ⟨c', hleft, hright⟩ := ih hr
      exact ⟨c', Reaches.step hturn hleft, hright⟩

/-- A loop that is reached with turns left returns what the parser
returns there. -/
theorem Reaches.loop_eq (h : p.Reaches c steps c') {limit : Nat} {run : ParseRun}
    (hrun : p.loop limit c' = some run) :
    p.loop (steps.length + limit) c = some (run.after steps) := by
  induction h with
  | refl c => rwa [List.length_nil, Nat.zero_add, after_nil]
  | step hturn _ ih =>
    rw [List.length_cons, Nat.add_right_comm, loop, hturn]
    simp only [ih hrun, Option.map_some, after_after, List.singleton_append]

/-- **What a loop has done when it returns.** -/
theorem exists_of_loop_eq_some {limit : Nat} {run : ParseRun} (h : p.loop limit c = some run) :
    ∃ steps c' last, p.Reaches c steps c' ∧ p.turn c' = .returns last
      ∧ run = last.after steps := by
  induction limit generalizing c run with
  | zero => cases h
  | succ limit ih =>
    rw [loop] at h
    split at h
    · next s next hturn =>
      obtain ⟨run', hrun', rfl⟩ := Option.map_eq_some_iff.mp h
      obtain ⟨steps, c', last, hr, hlast, rfl⟩ := ih hrun'
      exact ⟨s :: steps, c', last, Reaches.step hturn hr, hlast, after_after _ _ _⟩
    · next last hturn =>
      cases h
      exact ⟨[], c, run, Reaches.refl c, hturn, rfl⟩
    · cases h

/-- **A loop that returns takes no more turns than its limit**, wherever
it is looked at. -/
theorem Reaches.length_lt (h : p.Reaches c steps c') {limit : Nat} {run : ParseRun}
    (hrun : p.loop limit c = some run) : steps.length < limit := by
  induction h generalizing limit run with
  | refl c =>
    cases limit with
    | zero => cases hrun
    | succ limit => exact Nat.succ_pos limit
  | step hturn _ ih =>
    cases limit with
    | zero => cases hrun
    | succ limit =>
      rw [loop, hturn] at hrun
      obtain ⟨run', hrun', -⟩ := Option.map_eq_some_iff.mp hrun
      exact Nat.succ_lt_succ (ih hrun')

/-- Two limits under which the loop returns do not matter. -/
theorem loop_unique {limit limit' : Nat} {run run' : ParseRun} (h : p.loop limit c = some run)
    (h' : p.loop limit' c = some run') : run = run' := by
  induction limit generalizing c run limit' run' with
  | zero => cases h
  | succ limit ih =>
    cases limit' with
    | zero => cases h'
    | succ limit' =>
      rw [loop] at h h'
      split at h
      · next s next hturn =>
        rw [hturn] at h'
        obtain ⟨last, hlast, rfl⟩ := Option.map_eq_some_iff.mp h
        obtain ⟨last', hlast', rfl⟩ := Option.map_eq_some_iff.mp h'
        rw [ih hlast hlast']
      · next last hturn =>
        rw [hturn] at h'
        exact Option.some.inj (h.symm.trans h')
      · cases h

/-! ## The stack -/

/-- What is on top of a stack above `s`, unless it is `s` itself. -/
theorem eq_append_of_top {stack above below : List Symbol} {top s : Symbol}
    (h : stack = top :: below) (h' : stack = above ++ [s]) (hne : top ≠ s) :
    ∃ rest, above = top :: rest ∧ below = rest ++ [s] := by
  subst h
  cases above with
  | nil => exact absurd (List.cons.inj h').1 hne
  | cons top' rest =>
    obtain ⟨rfl, rfl⟩ := List.cons.inj h'
    exact ⟨rest, rfl, rfl⟩

/-- A parser whose productions never put the end-marker on the stack. -/
def KeepsEndMarker (p : PredictiveParser) : Prop :=
  ∀ n, .terminal p.grammar.endMarker ∉ p.expansionAt n

/-- **A turn keeps the end-marker at the bottom.** -/
theorem anchored_of_turn (hp : p.KeepsEndMarker) (hc : c.Anchored p.grammar.endMarker)
    {s : ParseStep} (h : p.turn c = .goesOn s c') : c'.Anchored p.grammar.endMarker := by
  obtain ⟨above, hstack, habove⟩ := hc
  obtain ⟨t, below, hc, -, ht, -, l, rest, -, rfl⟩ | ⟨x, n, below, hc, -, -, rfl⟩ := goesOn_cases h
  · obtain ⟨above, rfl, rfl⟩ := eq_append_of_top hc hstack (fun h => ht (Symbol.terminal.inj h))
    exact ⟨above, rfl, fun hmem => habove (List.mem_cons_of_mem _ hmem)⟩
  · obtain ⟨above, rfl, rfl⟩ := eq_append_of_top hc hstack (by simp)
    refine ⟨p.expansionAt n ++ above, (List.append_assoc _ _ _).symm, fun hmem => ?_⟩
    exact (List.mem_append.mp hmem).elim (hp n)
      (fun hmem => habove (List.mem_cons_of_mem _ hmem))

theorem anchored_of_reaches (hp : p.KeepsEndMarker) (hc : c.Anchored p.grammar.endMarker)
    (h : p.Reaches c steps c') : c'.Anchored p.grammar.endMarker := by
  induction h with
  | refl c => exact hc
  | step hturn _ ih => exact ih (anchored_of_turn hp hc hturn)

/-- The loop is not left before the parser returns. -/
theorem turn_ne_leaves (hc : c.Anchored p.grammar.endMarker) : p.turn c ≠ .leaves := by
  obtain ⟨above, hstack, -⟩ := hc
  unfold turn
  split
  · next hnil =>
    rw [hstack] at hnil
    exact absurd hnil (by simp)
  · split_ifs
    · simp
    · split <;> simp
    · simp
  · split <;> simp

theorem initial_eq_ok {input : List String} :
    p.initial input = .ok c ↔ ∃ t rest, p.read 0 input = .ok (t, rest) ∧
      c = ⟨[.nonterminal p.grammar.start, .terminal p.grammar.endMarker], t, rest, 0⟩ := by
  unfold initial
  cases p.read 0 input with
  | error e => simp [Except.map]
  | ok r =>
    obtain ⟨t, rest⟩ := r
    simp [Except.map, eq_comm, and_assoc]

theorem initial_eq_error {input : List String} {e : ParseError} :
    p.initial input = .error e ↔ p.read 0 input = .error e := by
  unfold initial
  cases p.read 0 input <;> simp [Except.map]

/-- The configuration before the first turn is anchored. -/
theorem anchored_of_initial {input : List String} (h : p.initial input = .ok c) :
    c.Anchored p.grammar.endMarker := by
  obtain ⟨t, rest, -, rfl⟩ := initial_eq_ok.mp h
  exact ⟨[.nonterminal p.grammar.start], rfl, by simp⟩

/-! ## Errors -/

theorem read_ne_endlessExpansion {position : Nat} {input : List String} {e : ParseError}
    (h : p.read position input = .error e) (x found : String) (place : Nat) :
    e ≠ ⟨.endlessExpansion x found, place⟩ := by
  cases input with
  | nil =>
    cases h
    simp
  | cons name rest =>
    rw [read] at h
    split at h <;> cases h
    simp

/-- **The automaton knows no endless expansion.** -/
theorem error?_ne_endlessExpansion {run : ParseRun} (h : p.turn c = .returns run)
    (x found : String) (position : Nat) :
    run.error? ≠ some ⟨.endlessExpansion x found, position⟩ := by
  unfold turn at h
  split at h
  · cases h
  · split_ifs at h
    · cases h
      unfold finish
      split <;> simp [ParseRun.failed]
    · split at h
      · next e he =>
        cases h
        exact fun h => read_ne_endlessExpansion he x found position (Option.some.inj h)
      · cases h
    · cases h
      simp [ParseRun.failed]
  · split at h
    · cases h
      simp [ParseRun.failed]
    · cases h

theorem result_eq_error {run : ParseRun} {e : ParseError} :
    run.result = .error e ↔ run.error? = some e := by
  unfold ParseRun.result
  cases run.error? <;> simp

theorem result_eq_ok {run : ParseRun} {steps : List ParseStep} :
    run.result = .ok steps ↔ run = ⟨steps, none⟩ := by
  obtain ⟨taken, error?⟩ := run
  unfold ParseRun.result
  cases error? <;> simp

/-! ## Descents -/

section DescendBy

variable {f : Nonterminal → List ParseStep × Descent} {x y : Nonterminal} {t : Terminal}
  {left : List Symbol}

theorem descendBy_of_vanished (h : (f x).2 = .vanished) (s : List Symbol) :
    descendBy f (.nonterminal x :: s) = ((f x).1 ++ (descendBy f s).1, (descendBy f s).2) := by
  rw [descendBy]
  generalize f x = r at h ⊢
  obtain ⟨steps, d⟩ := r
  subst h
  rfl

theorem descendBy_of_reached (h : (f x).2 = .reached t left) (s : List Symbol) :
    descendBy f (.nonterminal x :: s) = ((f x).1, .reached t (left ++ s)) := by
  rw [descendBy]
  generalize f x = r at h ⊢
  obtain ⟨steps, d⟩ := r
  subst h
  rfl

theorem descendBy_of_blocked (h : (f x).2 = .blocked y) (s : List Symbol) :
    descendBy f (.nonterminal x :: s) = ((f x).1, .blocked y) := by
  rw [descendBy]
  generalize f x = r at h ⊢
  obtain ⟨steps, d⟩ := r
  subst h
  rfl

theorem descendBy_of_endless (h : (f x).2 = .endless y) (s : List Symbol) :
    descendBy f (.nonterminal x :: s) = ((f x).1, .endless y) := by
  rw [descendBy]
  generalize f x = r at h ⊢
  obtain ⟨steps, d⟩ := r
  subst h
  rfl

end DescendBy

/-- The stack that a descent above `below` comes down to. -/
def LeavesStack (p : PredictiveParser) (lookahead : Terminal) (below : List Symbol) :
    Descent → List Symbol → Prop
  | .vanished, stack => stack = below
  | .reached t left, stack => stack = .terminal t :: (left ++ below)
  | .blocked x, stack => p.table.get? x lookahead = none ∧ ∃ left, stack = .nonterminal x :: left
  | .endless _, _ => False

/-- Whether the automaton takes the steps of a descent of `s`, if the
descent ends, and comes down to the same stack. -/
def Imitates (p : PredictiveParser) (lookahead : Terminal) (s : List Symbol)
    (r : List ParseStep × Descent) : Prop :=
  r.2.Ends → ∀ below rest position, ∃ stack, p.LeavesStack lookahead below r.2 stack
    ∧ p.Reaches ⟨s ++ below, lookahead, rest, position⟩ r.1 ⟨stack, lookahead, rest, position⟩

variable {lookahead : Terminal}

theorem imitates_descendBy {f : Nonterminal → List ParseStep × Descent}
    (hf : ∀ x, p.Imitates lookahead [.nonterminal x] (f x)) (s : List Symbol) :
    p.Imitates lookahead s (descendBy f s) := by
  induction s with
  | nil => exact fun _ below rest position => ⟨below, rfl, Reaches.refl _⟩
  | cons y s ih =>
    intro hends below rest position
    cases y with
    | terminal t => exact ⟨_, rfl, Reaches.refl _⟩
    | nonterminal x =>
      have hx := hf x
      unfold Imitates at hx
      cases hd : (f x).2 with
      | vanished =>
        -- the expansion uncovers `s`, whose descent goes on
        rw [descendBy_of_vanished hd] at hends ⊢
        rw [hd] at hx
        obtain ⟨stack, rfl, hr⟩ := hx Descent.ends_vanished (s ++ below) rest position
        obtain ⟨stack, hstack, hr'⟩ := ih hends below rest position
        exact ⟨stack, hstack, hr.trans hr'⟩
      | reached t left =>
        rw [descendBy_of_reached hd]
        rw [hd] at hx
        obtain ⟨stack, rfl, hr⟩ := hx (Descent.ends_reached t left) (s ++ below) rest position
        exact ⟨_, by simp [LeavesStack], hr⟩
      | blocked y =>
        rw [descendBy_of_blocked hd]
        rw [hd] at hx
        obtain ⟨stack, hstack, hr⟩ := hx (Descent.ends_blocked y) (s ++ below) rest position
        exact ⟨stack, hstack, hr⟩
      | endless y =>
        rw [descendBy_of_endless hd] at hends
        exact absurd hends (Descent.not_ends_endless y)

theorem imitates_expand (depth : Nat) (x : Nonterminal) :
    p.Imitates lookahead [.nonterminal x] (p.expand lookahead depth x) := by
  induction depth generalizing x with
  | zero => exact fun hends => absurd hends (Descent.not_ends_endless x)
  | succ depth ih =>
    intro hends below rest position
    rw [expand] at hends ⊢
    cases hget : p.table.get? x lookahead with
    | none => exact ⟨_, ⟨hget, below, rfl⟩, Reaches.refl _⟩
    | some n =>
      rw [hget] at hends
      obtain ⟨stack, hstack, hr⟩ :=
        imitates_descendBy ih (p.expansionAt n) hends below rest position
      exact ⟨stack, hstack, Reaches.step (turn_nonterminal hget below rest position) hr⟩

/-- **The automaton takes the steps of every descent that ends.** -/
theorem imitates_descend (s : List Symbol) :
    p.Imitates lookahead s (p.descend lookahead s) :=
  imitates_descendBy (imitates_expand _) s

/-! ## The parser -/

/-- What the parser returns after a descent under `t`. -/
def conclude (p : PredictiveParser) (position : Nat) (t : Terminal) (rest : List String) :
    Descent → ParseRun
  | .vanished =>
    if t = p.grammar.endMarker then finish position rest
    else .failed (.mismatch endMarkerName (p.grammar.terminalName t)) position
  | .reached u left =>
    if u = t then (p.runFrom (position + 1) left rest).after [.matched u]
    else .failed (.mismatch (p.grammar.terminalName u) (p.grammar.terminalName t)) position
  | .blocked x =>
    .failed (.noProduction (p.grammar.nonterminalName x) (p.grammar.terminalName t)) position
  | .endless x =>
    .failed (.endlessExpansion (p.grammar.nonterminalName x) (p.grammar.terminalName t)) position

theorem runFrom_of_read_error {position : Nat} {input : List String} {e : ParseError}
    (h : p.read position input = .error e) (s : List Symbol) :
    p.runFrom position s input = ⟨[], some e⟩ := by
  cases input with
  | nil =>
    cases h
    rfl
  | cons name rest =>
    rw [read] at h
    rw [runFrom]
    cases hname : p.lookahead? name with
    | none =>
      rw [hname] at h
      cases h
      rfl
    | some t =>
      rw [hname] at h
      cases h

theorem runFrom_of_read_ok {position : Nat} {input rest : List String} {t : Terminal}
    (h : p.read position input = .ok (t, rest)) (s : List Symbol) :
    p.runFrom position s input
      = (p.conclude position t rest (p.descend t s).2).after (p.descend t s).1 := by
  cases input with
  | nil => cases h
  | cons name input =>
    rw [read] at h
    rw [runFrom]
    cases hname : p.lookahead? name with
    | none =>
      rw [hname] at h
      cases h
    | some t =>
      rw [hname] at h
      cases h
      simp only
      generalize p.descend t s = r
      obtain ⟨steps, d⟩ := r
      cases d <;> rfl

@[simp] theorem terminalName_endMarker (g : Grammar) :
    g.terminalName g.endMarker = endMarkerName :=
  if_pos rfl

theorem length_of_read {position : Nat} {input rest : List String} {t : Terminal}
    (h : p.read position input = .ok (t, rest)) : input.length = rest.length + 1 := by
  cases input with
  | nil => cases h
  | cons name input =>
    rw [read] at h
    split at h <;> cases h
    rfl

section Conclude

variable {t u : Terminal} {x : Nonterminal} {rest : List String} {position : Nat}
  {left below : List Symbol}

/-- Nothing is left above the end-marker: it must be the lookahead. -/
theorem loop_of_vanished :
    p.loop 1 ⟨[.terminal p.grammar.endMarker], t, rest, position⟩
      = some (p.conclude position t rest .vanished) := by
  by_cases ht : p.grammar.endMarker = t
  · simp [loop, turn, conclude, ht]
  · simp [loop, turn, conclude, ht, Ne.symm ht]

theorem loop_of_blocked (hget : p.table.get? x t = none) :
    p.loop 1 ⟨.nonterminal x :: below, t, rest, position⟩
      = some (p.conclude position t rest (.blocked x)) := by
  simp [loop, turn, hget, conclude]

/-- Another terminal than the lookahead is on top. -/
theorem loop_of_ne (h : u ≠ t) :
    p.loop 1 ⟨.terminal u :: below, t, rest, position⟩
      = some (p.conclude position t rest (.reached u left)) := by
  simp [loop, turn, conclude, h]

/-- The lookahead is on top, and the input ends or fails after it. -/
theorem loop_of_read_error {e : ParseError} (ht : t ≠ p.grammar.endMarker)
    (hread : p.read (position + 1) rest = .error e) :
    p.loop 1 ⟨.terminal t :: below, t, rest, position⟩
      = some (p.conclude position t rest (.reached t left)) := by
  rw [conclude, if_pos rfl, runFrom_of_read_error hread]
  simp [loop, turn, ht, hread, ParseRun.after]

/-- The lookahead is on top, and the loop goes on with the symbol
after it. -/
theorem loop_of_read_ok {next : Terminal} {rest' : List String} {limit : Nat}
    (ht : t ≠ p.grammar.endMarker) (hread : p.read (position + 1) rest = .ok (next, rest'))
    (hloop : p.loop limit ⟨below, next, rest', position + 1⟩
      = some (p.runFrom (position + 1) left rest)) :
    p.loop (limit + 1) ⟨.terminal t :: below, t, rest, position⟩
      = some (p.conclude position t rest (.reached t left)) := by
  rw [loop, turn_terminal ht hread, conclude, if_pos rfl]
  simp [hloop]

end Conclude

/-- **The parser returns what the loop returns.** It is enough that
every descent ends and that the end-marker stays at the bottom. -/
theorem loop_eq_runFrom (hp : p.KeepsEndMarker) (hends : ∀ t s, (p.descend t s).2.Ends)
    {s : List Symbol} (hs : .terminal p.grammar.endMarker ∉ s) {position : Nat}
    {input rest : List String} {t : Terminal} (h : p.read position input = .ok (t, rest)) :
    ∃ limit, p.loop limit ⟨s ++ [.terminal p.grammar.endMarker], t, rest, position⟩
      = some (p.runFrom position s input) := by
  induction hn : input.length generalizing s position input rest t with
  | zero =>
    have := length_of_read h
    omega
  | succ n ih =>
    have hlen := length_of_read h
    obtain ⟨stack, hstack, hr⟩ := imitates_descend s (hends t s)
      [.terminal p.grammar.endMarker] rest position
    obtain ⟨above, habove, hmem⟩ := anchored_of_reaches hp ⟨s, rfl, hs⟩ hr
    -- it is enough to look at the configuration after the descent
    suffices hlast : ∃ limit, p.loop limit ⟨stack, t, rest, position⟩
        = some (p.conclude position t rest (p.descend t s).2) by
      obtain ⟨limit, hrun⟩ := hlast
      exact ⟨_, (hr.loop_eq hrun).trans (congrArg some (runFrom_of_read_ok h s).symm)⟩
    cases hd : (p.descend t s).2 with
    | vanished =>
      rw [hd, LeavesStack] at hstack
      subst hstack
      exact ⟨1, loop_of_vanished⟩
    | reached u left =>
      rw [hd, LeavesStack] at hstack
      subst hstack
      obtain rfl : .terminal u :: left = above := List.append_cancel_right habove
      rw [List.mem_cons, not_or] at hmem
      by_cases ht : u = t
      · subst ht
        have hu : u ≠ p.grammar.endMarker := fun h => hmem.1 (by rw [h])
        cases hread : p.read (position + 1) rest with
        | error e => exact ⟨1, loop_of_read_error hu hread⟩
        | ok r =>
          obtain ⟨limit, hrun⟩ := ih hmem.2 hread (by omega)
          exact ⟨limit + 1, loop_of_read_ok hu hread hrun⟩
      · exact ⟨1, loop_of_ne ht⟩
    | blocked x =>
      rw [hd] at hstack
      obtain ⟨hget, left, rfl⟩ := hstack
      exact ⟨1, loop_of_blocked hget⟩
    | endless x => exact absurd hd (hends t s x)

/-- An input without a first symbol fails before the first turn. -/
theorem run_of_initial_error {input : List String} {e : ParseError}
    (h : p.initial input = .error e) : p.run input = ⟨[], some e⟩ :=
  runFrom_of_read_error (initial_eq_error.mp h) _

/-- **The parser returns what the loop returns**, from the configuration
before the first turn. -/
theorem loop_eq_run (hp : p.KeepsEndMarker) (hends : ∀ t s, (p.descend t s).2.Ends)
    {input : List String} (h : p.initial input = .ok c) :
    ∃ limit, p.loop limit c = some (p.run input) := by
  obtain ⟨t, rest, hread, rfl⟩ := initial_eq_ok.mp h
  exact loop_eq_runFrom (s := [.nonterminal p.grammar.start]) hp hends (by simp) hread

end PredictiveParser

end GrammarAnalysis
