import GrammarAnalysis.Proofs.ParsedLanguage
import GrammarAnalysis.Proofs.Renumbering

/-!
# Predictive parsing with a renumbered grammar

The parsers of two LL(1) grammars of which one is carried to the other run
side by side. Input is read by name, so a lookahead of one parser is the
image of the other's; a cell of the table holds the image of the production
in the corresponding cell, because the cell of an LL(1) grammar is a
function of the SELECT sets. What remains is to follow a run through its
recursions: along the stack, down the depth of an expansion, and along the
input.

The steps of a run are numbers, and are renumbered. An error holds names,
and stays as it is.
-/

namespace GrammarAnalysis.Renumbering

variable {ρ : Renumbering} {g g' : Grammar} {p p' : PredictiveParser} {c : Terminal}
  {stack : List Symbol} {input : List String} {position : Nat}

/-! ## Renumbered runs -/

/-- A step with its numbers changed. -/
def step (ρ : Renumbering) : ParseStep → ParseStep
  | .expand x n => .expand (ρ.nonterminal x) (ρ.production n)
  | .matched t => .matched (ρ.terminal t)
  | .accept => .accept

/-- The end of a descent with its numbers changed. -/
def descent (ρ : Renumbering) : Descent → Descent
  | .vanished => .vanished
  | .reached t rest => .reached (ρ.terminal t) (rest.map ρ.symbol)
  | .blocked x => .blocked (ρ.nonterminal x)
  | .endless x => .endless (ρ.nonterminal x)

/-- A descent, with its steps, with their numbers changed. -/
def descending (ρ : Renumbering) : List ParseStep × Descent → List ParseStep × Descent :=
  Prod.map (List.map ρ.step) ρ.descent

/-- A run with the numbers of its steps changed. -/
def run (ρ : Renumbering) (r : ParseRun) : ParseRun :=
  { r with steps := r.steps.map ρ.step }

@[simp] theorem run_after (r : ParseRun) (steps : List ParseStep) :
    ρ.run (r.after steps) = (ρ.run r).after (steps.map ρ.step) := by
  simp [run, ParseRun.after]

@[simp] theorem run_finish (position : Nat) (rest : List String) :
    ρ.run (PredictiveParser.finish position rest) = PredictiveParser.finish position rest := by
  cases rest <;> rfl

theorem result_run (r : ParseRun) : (ρ.run r).result = r.result.map (List.map ρ.step) := by
  obtain ⟨steps, error?⟩ := r
  cases error? <;> rfl

/-- **A descent along a stack** is renumbered if the expansions are. -/
theorem descendBy_map {expand expand' : Nonterminal → List ParseStep × Descent}
    (hexpand : ∀ x, expand' (ρ.nonterminal x) = ρ.descending (expand x)) (stack : List Symbol) :
    PredictiveParser.descendBy expand' (stack.map ρ.symbol)
      = ρ.descending (PredictiveParser.descendBy expand stack) := by
  induction stack with
  | nil => rfl
  | cons s stack ih =>
    cases s with
    | terminal t => rfl
    | nonterminal x =>
      rw [List.map_cons, symbol_nonterminal, PredictiveParser.descendBy, hexpand,
        PredictiveParser.descendBy]
      obtain ⟨steps, d⟩ := expand x
      cases d with
      | vanished => simp [descending, descent, ih]
      | reached t left => simp [descending, descent]
      | blocked y => rfl
      | endless y => rfl

/-! ## Parsers side by side -/

namespace Carries

/-- A name is read as the corresponding terminal. -/
theorem lookahead? (h : ρ.Carries g g') (hp : p.IsFor g) (hp' : p'.IsFor g') (name : String) :
    p'.lookahead? name = (p.lookahead? name).map ρ.terminal := by
  unfold PredictiveParser.lookahead?
  rw [hp.grammar_eq, hp'.grammar_eq]
  split
  · rw [h.endMarker, Option.map_some]
  · rw [h.terminal?, h.embeds.epsilon, Option.filter_map]
    simp [Function.comp_def]

/-- A cell holds the corresponding production. -/
theorem get?_table (h : ρ.Carries g g') (hp : p.IsFor g) (hp' : p'.IsFor g') (x : Nonterminal) :
    p'.table.get? (ρ.nonterminal x) (ρ.terminal c)
      = (p.table.get? x c).map ρ.production := by
  refine Option.ext fun n => ?_
  obtain ⟨n, rfl⟩ := ρ.production.surjective n
  rw [Option.map_eq_some_iff]
  simp only [ρ.production.apply_eq_iff_eq, exists_eq_right, hp.get?, hp'.get?,
    h.getElem?_productions, Option.map_eq_some_iff]
  constructor
  · rintro ⟨_, ⟨q, hq, rfl⟩, hlhs, hc⟩
    exact ⟨q, hq, ρ.nonterminal.injective hlhs,
      (h.mem_select_iff (List.mem_of_getElem? hq)).mp hc⟩
  · rintro ⟨q, hq, rfl, hc⟩
    exact ⟨ρ.rename q, ⟨q, hq, rfl⟩, rfl, (h.mem_select_iff (List.mem_of_getElem? hq)).mpr hc⟩

/-- A production puts the corresponding symbols on the stack. -/
theorem expansionAt (h : ρ.Carries g g') (hp : p.IsFor g) (hp' : p'.IsFor g') (n : Nat) :
    p'.expansionAt (ρ.production n) = (p.expansionAt n).map ρ.symbol := by
  unfold PredictiveParser.expansionAt
  rw [hp.grammar_eq, hp'.grammar_eq, h.getElem?_productions]
  cases g.productions[n]? with
  | none => rfl
  | some q => exact h.embeds.expansion_map q.rhs

theorem expand (h : ρ.Carries g g') (hp : p.IsFor g) (hp' : p'.IsFor g') (depth : Nat)
    (x : Nonterminal) :
    p'.expand (ρ.terminal c) depth (ρ.nonterminal x) = ρ.descending (p.expand c depth x) := by
  induction depth generalizing x with
  | zero => rfl
  | succ depth ih =>
    rw [PredictiveParser.expand, PredictiveParser.expand, h.get?_table hp hp']
    cases p.table.get? x c with
    | none => rfl
    | some n =>
      simp only [Option.map_some, h.expansionAt hp hp', descendBy_map ih]
      rfl

/-- **Descents correspond.** The depth that is granted is the same, because
there are as many nonterminals. -/
theorem descend (h : ρ.Carries g g') (hp : p.IsFor g) (hp' : p'.IsFor g') (stack : List Symbol) :
    p'.descend (ρ.terminal c) (stack.map ρ.symbol) = ρ.descending (p.descend c stack) := by
  unfold PredictiveParser.descend
  rw [hp.grammar_eq, hp'.grammar_eq, h.embeds.length_nonterminals]
  exact descendBy_map (h.expand hp hp' _) stack

/-- **Runs correspond.** -/
theorem runFrom (h : ρ.Carries g g') (hp : p.IsFor g) (hp' : p'.IsFor g') :
    p'.runFrom position (stack.map ρ.symbol) input = ρ.run (p.runFrom position stack input) := by
  induction input generalizing position stack with
  | nil => rfl
  | cons name rest ih =>
    rw [PredictiveParser.runFrom, PredictiveParser.runFrom, h.lookahead? hp hp']
    cases p.lookahead? name with
    | none => rfl
    | some c =>
      simp only [Option.map_some, h.descend hp hp', hp.grammar_eq, hp'.grammar_eq,
        h.embeds.terminalName, run_after]
      obtain ⟨steps, d⟩ := p.descend c stack
      refine congrArg₂ ParseRun.after ?_ rfl
      cases d with
      | vanished =>
        simp only [descending, Prod.map, descent, h.embeds.terminal_eq_endMarker_iff]
        split
        · exact (run_finish position rest).symm
        · rfl
      | reached t left =>
        simp only [descending, Prod.map, descent, ρ.terminal.apply_eq_iff_eq, h.embeds.terminalName]
        split
        · rw [run_after, ih]
          rfl
        · rfl
      | blocked x =>
        simp only [descending, Prod.map, descent, h.embeds.nonterminalName]
        rfl
      | endless x =>
        simp only [descending, Prod.map, descent, h.embeds.nonterminalName]
        rfl

/-- **The parsers of two LL(1) grammars of which one is carried to the other
answer alike**: with the same error, or with the same steps but for their
numbers. -/
theorem parse (h : ρ.Carries g g')
    (hp : PredictiveParser.ofAnalysis (.ofGrammar g) = .ok p)
    (hp' : PredictiveParser.ofAnalysis (.ofGrammar g') = .ok p') (input : List String) :
    p'.parse input = (p.parse input).map (List.map ρ.step) := by
  have hfor := PredictiveParser.isFor_of_ofAnalysis h.source hp
  have hfor' := PredictiveParser.isFor_of_ofAnalysis h.target hp'
  unfold PredictiveParser.parse PredictiveParser.run
  rw [← result_run, ← h.runFrom hfor hfor', hfor.grammar_eq, hfor'.grammar_eq, h.start]
  rfl

end Carries

end GrammarAnalysis.Renumbering
