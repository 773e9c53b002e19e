import GrammarAnalysis.Precedence.Edge
import GrammarAnalysis.Proofs.Derivation

/-!
# Mirror images

The mirror image of a grammar has every right-hand side reversed, and
nothing else changed. It derives the reversed strings
(`derives_mirror_iff`), and LASTVT of a grammar is FIRSTVT of its mirror
image (`solveEdge_mirror`), because both directions are one computation
on right-hand sides read from one end or the other.

What is proved about left ends of all grammars therefore holds of right
ends as well: it is applied to the mirror image.
-/

namespace GrammarAnalysis

/-- A rule with its right-hand sides reversed. -/
def Rule.mirror (r : Rule) : Rule :=
  { r with alternatives := r.alternatives.map List.reverse }

/-- A production with its right-hand side reversed. -/
def Production.mirror (p : Production) : Production :=
  { p with rhs := p.rhs.reverse }

/-- The other end. -/
def Edge.opposite : Edge → Edge
  | first => last
  | last => first

/-- **The mirror image of a grammar.** -/
def Grammar.mirror (g : Grammar) : Grammar :=
  { g with rules := g.rules.map Rule.mirror }

@[simp] theorem Production.mirror_mirror (p : Production) : p.mirror.mirror = p := by
  rw [mirror, mirror, List.reverse_reverse]

@[simp] theorem Rule.mirror_mirror (r : Rule) : r.mirror.mirror = r := by
  simp [mirror]

@[simp] theorem Edge.read_opposite {α : Type} (edge : Edge) (l : List α) :
    edge.opposite.read l = edge.read l.reverse := by
  cases edge <;> simp [opposite, read]

@[simp] theorem Edge.mem_read {α : Type} {edge : Edge} {a : α} {l : List α} :
    a ∈ edge.read l ↔ a ∈ l := by
  cases edge <;> simp [read]

@[simp] theorem Edge.read_eq_singleton {α : Type} {edge : Edge} {a : α} {l : List α} :
    edge.read l = [a] ↔ l = [a] := by
  cases edge <;> simp [read]

@[simp] theorem Edge.read_eq_nil {α : Type} {edge : Edge} {l : List α} :
    edge.read l = [] ↔ l = [] := by
  cases edge <;> simp [read]

namespace Grammar

variable {g : Grammar} {u v : List Symbol}

@[simp] theorem mirror_mirror (g : Grammar) : g.mirror.mirror = g := by
  simp [mirror, Function.comp_def]

@[simp] theorem epsilon_mirror : g.mirror.epsilon = g.epsilon := rfl

theorem map_lhs_mirror : g.mirror.rules.map Rule.lhs = g.rules.map Rule.lhs := by
  simp [mirror, Rule.mirror, Function.comp_def]

theorem productions_mirror : g.mirror.productions = g.productions.map Production.mirror := by
  simp only [productions, mirror, List.flatMap_map, List.map_flatMap]
  refine congrArg (g.rules.flatMap ·) (funext fun r => ?_)
  simp [Rule.productions, Rule.mirror, Production.mirror]

theorem mem_productions_mirror {p : Production} :
    p ∈ g.mirror.productions ↔ p.mirror ∈ g.productions := by
  rw [productions_mirror, List.mem_map]
  constructor
  · rintro ⟨q, hq, rfl⟩
    rwa [Production.mirror_mirror]
  · exact fun h => ⟨p.mirror, h, p.mirror_mirror⟩

theorem alternatives_mirror (x : Nonterminal) :
    g.mirror.alternatives x = (g.alternatives x).map List.reverse := by
  simp only [alternatives, mirror, List.find?_map]
  show (((g.rules.find? (fun r => r.lhs = x)).map Rule.mirror).map Rule.alternatives).getD [] = _
  cases g.rules.find? (fun r => r.lhs = x) with
  | none => rfl
  | some r => rfl

theorem IsRhs.mirror {rhs : List Symbol} (h : g.IsRhs rhs) : g.mirror.IsRhs rhs.reverse where
  ne_nil := fun he => h.ne_nil (List.reverse_eq_nil_iff.mp he)
  declared := fun s hs => by
    have hdeclared := h.declared s (List.mem_reverse.mp hs)
    cases s <;> exact hdeclared
  epsilon_alone := fun he => by
    rw [h.epsilon_alone (List.mem_reverse.mp he)]
    rfl

theorem WellFormed.mirror (hg : g.WellFormed) : g.mirror.WellFormed where
  nonterminals_nodup := hg.nonterminals_nodup
  terminals_nodup := hg.terminals_nodup
  disjoint := hg.disjoint
  name_ne := hg.name_ne
  epsilon_mem := hg.epsilon_mem
  start_declared := hg.start_declared
  lhs_nodup := by
    rw [map_lhs_mirror]
    exact hg.lhs_nodup
  mem_lhs := fun x => by
    rw [map_lhs_mirror]
    exact hg.mem_lhs x
  alternatives_ne_nil := fun r hr => by
    obtain ⟨q, hq, rfl⟩ := List.mem_map.mp hr
    exact fun h => hg.alternatives_ne_nil q hq (List.map_eq_nil_iff.mp h)
  isRhs := fun r hr rhs hrhs => by
    obtain ⟨q, hq, rfl⟩ := List.mem_map.mp hr
    obtain ⟨original, horiginal, rfl⟩ := List.mem_map.mp hrhs
    exact (hg.isRhs q hq original horiginal).mirror

/-! ## Derivations -/

theorem expansion_mirror (rhs : List Symbol) :
    g.mirror.expansion rhs.reverse = (g.expansion rhs).reverse := by
  unfold expansion isEpsilonRhs
  by_cases he : rhs = [.terminal g.epsilon]
  · simp [he]
  · have he' : rhs.reverse ≠ [.terminal g.epsilon] := fun h => he (List.reverse_inj.mp h)
    simp [he, he']

theorem Step.mirror (h : g.Step u v) : g.mirror.Step u.reverse v.reverse := by
  cases h with
  | @expand p hp before after =>
    have hp' : p.mirror ∈ g.mirror.productions := by
      rwa [mem_productions_mirror, Production.mirror_mirror]
    have hstep := Step.expand hp' after.reverse before.reverse
    simpa [Production.mirror, expansion_mirror] using hstep

theorem Derives.mirror (h : g.Derives u v) : g.mirror.Derives u.reverse v.reverse :=
  Relation.ReflTransGen.lift List.reverse (fun _ _ hs => hs.mirror) _ _ h

/-- **The mirror image derives the reversed strings.** -/
theorem derives_mirror_iff : g.mirror.Derives u v ↔ g.Derives u.reverse v.reverse := by
  constructor
  · intro h
    simpa using h.mirror
  · intro h
    simpa using h.mirror

/-! ## Edge sets -/

theorem edgeSystem_mirror (edge : Edge) :
    g.mirror.edgeSystem edge = g.edgeSystem edge.opposite := by
  have hcontribution : edge.opposite.contribution = edge.contribution ∘ List.reverse := by
    funext rhs
    rw [Function.comp_apply, Edge.contribution_eq, Edge.contribution_eq, Edge.read_opposite]
  simp only [edgeSystem, alternatives_mirror, List.map_map, hcontribution]
  rfl

/-- **LASTVT is FIRSTVT of the mirror image**, and the other way
round. -/
theorem solveEdge_mirror (edge : Edge) : g.mirror.solveEdge edge = g.solveEdge edge.opposite := by
  rw [solveEdge, solveEdge, edgeSystem_mirror]
  rfl

end Grammar

end GrammarAnalysis
