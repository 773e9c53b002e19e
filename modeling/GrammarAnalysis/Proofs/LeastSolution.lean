import GrammarAnalysis.SetSystem
import Mathlib.Data.Finset.Prod
import Mathlib.Logic.Function.Iterate
import Mathlib.Order.Bounds.Basic

/-!
# The solver finds the least solution

A solution of a `SetSystem` is a family of sets that includes all its
contributions. This module shows that `SetSystem.solve` returns the
least solution above its starting table (`SetSystem.isLeast_solve`),
whatever the inclusions are: cyclic, through themselves, or through
nonterminals whose visit has not ended.

Two facts carry the proof. A visit adds nothing that a solution lacks
(`visit_below`), so the result is below every solution. And a pass that
changes nothing has read only final sets, so the table is a solution
(`closed_of_unchanged`); that the passes get there is a matter of
counting, because every other pass adds a member to some set.

What a visit may do to a pass under way is said once, by
`SetSystem.Extends`. Visits are nested in each other and follow each
other in any order, and `Extends` is reflexive and transitive, so it
passes through all of that.
-/

namespace GrammarAnalysis

/-- A family of terminal sets, one for every nonterminal, given by
membership. -/
abbrev Family := Nonterminal → Terminal → Prop

/-- The family a table holds. -/
def SetTable.holds (table : SetTable) : Family := fun x t => t ∈ table.get x

/-- **What a contribution comes to** when the sets of the nonterminals
are those of a family. -/
def Contribution.Yields (marker : Terminal) (f : Family) : Contribution → Terminal → Prop
  | .known set, t => t ∈ set
  | .inherit y, t => f y t
  | .through y rest, t => (f y t ∧ t ≠ marker) ∨ (f y marker ∧ rest.Yields marker f t)

@[simp] theorem SetTable.holds_iff {table : SetTable} {x : Nonterminal} {t : Terminal} :
    table.holds x t ↔ t ∈ table.get x := Iff.rfl

theorem SetTable.set_of_le {table : SetTable} {x : Nonterminal} (s : TerminalSet)
    (h : table.sets.size ≤ x.index) : table.set x s = table := by
  rw [set, Array.setIfInBounds_eq_of_size_le h]

/-- Writing a set brings in no other members. -/
theorem SetTable.mem_of_mem_get_set {table : SetTable} {x y : Nonterminal} {s : TerminalSet}
    {t : Terminal} (h : t ∈ (table.set x s).get y) : (x = y ∧ t ∈ s) ∨ t ∈ table.get y := by
  by_cases hxy : x = y
  · subst hxy
    by_cases hlt : x.index < table.sets.size
    · rw [get_set_self s hlt] at h
      exact Or.inl ⟨rfl, h⟩
    · rw [set_of_le s (Nat.le_of_not_lt hlt)] at h
      exact Or.inr h
  · rw [get_set_of_ne s hxy] at h
    exact Or.inr h

/-- Sets without members are below every family. -/
theorem SetTable.blank_le (n : Nat) (f : Family) : (blank n).holds ≤ f := by
  intro x t ht
  rw [holds_iff, get_blank] at ht
  exact absurd ht (TerminalSet.not_mem_empty t)

/-- Writing a larger set loses no members. -/
theorem SetTable.holds_le_set {table : SetTable} {x : Nonterminal} {s : TerminalSet}
    (h : ∀ t ∈ table.get x, t ∈ s) : table.holds ≤ (table.set x s).holds := by
  intro y t ht
  by_cases hxy : x = y
  · subst hxy
    by_cases hlt : x.index < table.sets.size
    · rw [holds_iff, get_set_self _ hlt]
      exact h t ht
    · rwa [set_of_le _ (Nat.le_of_not_lt hlt)]
  · rwa [holds_iff, get_set_of_ne _ hxy]

namespace Contribution

variable {marker : Terminal} {f f' : Family} {t : Terminal}

@[simp] theorem yields_known {set : TerminalSet} :
    (known set).Yields marker f t ↔ t ∈ set := Iff.rfl

@[simp] theorem yields_inherit {y : Nonterminal} :
    (inherit y).Yields marker f t ↔ f y t := Iff.rfl

theorem yields_through {y : Nonterminal} {rest : Contribution} :
    (through y rest).Yields marker f t ↔
      (f y t ∧ t ≠ marker) ∨ (f y marker ∧ rest.Yields marker f t) := Iff.rfl

/-- Larger sets yield more. -/
theorem Yields.mono (hf : f ≤ f') {c : Contribution} (h : c.Yields marker f t) :
    c.Yields marker f' t := by
  induction c with
  | known set => exact h
  | inherit y => exact hf y t h
  | through y rest ih =>
    rw [yields_through] at h ⊢
    exact h.imp (And.imp_left (hf y t)) (And.imp (hf y marker) ih)

end Contribution

namespace SetSystem

variable {sys : SetSystem} {f : Family}

/-- Whether the set of `x` includes its contributions. -/
def ClosedAt (sys : SetSystem) (f : Family) (x : Nonterminal) : Prop :=
  ∀ c ∈ sys.of x, ∀ t, c.Yields sys.marker f t → f x t

/-- **A solution**: every set includes its contributions. -/
def Closed (sys : SetSystem) (f : Family) : Prop := ∀ x, sys.ClosedAt f x

/-- Beyond the last set there are no contributions. -/
theorem of_eq_nil {x : Nonterminal} (h : sys.size ≤ x.index) : sys.of x = [] := by
  unfold SetSystem.of
  rw [List.getElem?_eq_none h]
  rfl

/-! ## Collecting -/

section Collect

variable {marker : Terminal} {visit : Nonterminal → Pass → Pass}

theorem collect_known (set : TerminalSet) (s : Pass × TerminalSet) :
    collect marker visit (.known set) s = (s.1, s.2 ∪ set) := rfl

theorem collect_inherit (y : Nonterminal) (s : Pass × TerminalSet) :
    collect marker visit (.inherit y) s
      = (visit y s.1, s.2 ∪ (visit y s.1).table.get y) := rfl

theorem collect_through (y : Nonterminal) (rest : Contribution) (s : Pass × TerminalSet) :
    collect marker visit (.through y rest) s
      = if marker ∈ (visit y s.1).table.get y then
          collect marker visit rest
            (visit y s.1, s.2 ∪ ((visit y s.1).table.get y).erase marker)
        else (visit y s.1, s.2 ∪ ((visit y s.1).table.get y).erase marker) := rfl

/-- What holds between a pass and the pass after any visit holds between
the pass before and the pass after collecting. -/
theorem collect_rel {R : Pass → Pass → Prop} (hrefl : ∀ p, R p p)
    (htrans : ∀ p q r, R p q → R q r → R p r) (hvisit : ∀ y p, R p (visit y p))
    (c : Contribution) (s : Pass × TerminalSet) : R s.1 (collect marker visit c s).1 := by
  induction c generalizing s with
  | known set => exact hrefl s.1
  | inherit y => exact hvisit y s.1
  | through y rest ih =>
    rw [collect_through]
    split
    · exact htrans _ _ _ (hvisit y s.1) (ih (visit y s.1, _))
    · exact hvisit y s.1

/-- Nothing is collected that the contribution does not yield, in a
family that the table never exceeds. -/
theorem mem_of_mem_collect
    (hvisit : ∀ y p, p.table.holds ≤ f → (visit y p).table.holds ≤ f)
    {c : Contribution} {s : Pass × TerminalSet} (hs : s.1.table.holds ≤ f) {t : Terminal}
    (ht : t ∈ (collect marker visit c s).2) : t ∈ s.2 ∨ c.Yields marker f t := by
  induction c generalizing s with
  | known set => rwa [collect_known, TerminalSet.mem_union] at ht
  | inherit y =>
    rw [collect_inherit, TerminalSet.mem_union] at ht
    exact ht.imp_right (hvisit y s.1 hs y t)
  | through y rest ih =>
    have hy := hvisit y s.1 hs
    rw [Contribution.yields_through, ← or_assoc]
    have first : t ∈ s.2 ∪ ((visit y s.1).table.get y).erase marker →
        t ∈ s.2 ∨ f y t ∧ t ≠ marker := by
      intro h
      rw [TerminalSet.mem_union, TerminalSet.mem_erase] at h
      exact h.imp_right (And.imp_left (hy y t))
    rw [collect_through] at ht
    split at ht
    · next hm =>
      exact (ih (s := (visit y s.1, _)) hy ht).imp first (And.intro (hy y marker hm))
    · exact Or.inl (first ht)

/-- Everything is collected that the contribution yields in the table
before, when visits only add members. -/
theorem mem_collect (hvisit : ∀ y p, p.table.holds ≤ (visit y p).table.holds)
    {c : Contribution} {s : Pass × TerminalSet} {t : Terminal}
    (ht : t ∈ s.2 ∨ c.Yields marker s.1.table.holds t) :
    t ∈ (collect marker visit c s).2 := by
  induction c generalizing s with
  | known set => rwa [collect_known, TerminalSet.mem_union]
  | inherit y =>
    rw [collect_inherit, TerminalSet.mem_union]
    exact ht.imp_right (hvisit y s.1 y t)
  | through y rest ih =>
    have hy := hvisit y s.1
    have first : t ∈ s.2 ∨ s.1.table.holds y t ∧ t ≠ marker →
        t ∈ s.2 ∪ ((visit y s.1).table.get y).erase marker := by
      rw [TerminalSet.mem_union, TerminalSet.mem_erase]
      exact Or.imp_right (And.imp_left (hy y t))
    rw [Contribution.yields_through, ← or_assoc] at ht
    rw [collect_through]
    split
    · exact ih (s := (visit y s.1, _)) (ht.imp first (fun h => h.2.mono hy))
    · next hm =>
      obtain ht | ht := ht
      · exact first ht
      · exact absurd (hy y marker ht.1) hm

/-- Collects several contributions, one after the other. -/
def collectAll (marker : Terminal) (visit : Nonterminal → Pass → Pass) (cs : List Contribution)
    (s : Pass × TerminalSet) : Pass × TerminalSet :=
  cs.foldl (fun s c => collect marker visit c s) s

theorem collectAll_rel {R : Pass → Pass → Prop} (hrefl : ∀ p, R p p)
    (htrans : ∀ p q r, R p q → R q r → R p r) (hvisit : ∀ y p, R p (visit y p))
    (cs : List Contribution) (s : Pass × TerminalSet) :
    R s.1 (collectAll marker visit cs s).1 := by
  induction cs generalizing s with
  | nil => exact hrefl s.1
  | cons c cs ih => exact htrans _ _ _ (collect_rel hrefl htrans hvisit c s) (ih _)

theorem mem_of_mem_collectAll
    (hvisit : ∀ y p, p.table.holds ≤ f → (visit y p).table.holds ≤ f)
    {cs : List Contribution} {s : Pass × TerminalSet} (hs : s.1.table.holds ≤ f) {t : Terminal}
    (ht : t ∈ (collectAll marker visit cs s).2) :
    t ∈ s.2 ∨ ∃ c ∈ cs, c.Yields marker f t := by
  induction cs generalizing s with
  | nil => exact Or.inl ht
  | cons c cs ih =>
    have hc : (collect marker visit c s).1.table.holds ≤ f :=
      collect_rel (R := fun p q => p.table.holds ≤ f → q.table.holds ≤ f) (fun _ => id)
        (fun _ _ _ hpq hqr h => hqr (hpq h)) hvisit c s hs
    obtain ht | ⟨d, hd, ht⟩ := ih hc ht
    · exact (mem_of_mem_collect hvisit hs ht).imp_right
        (fun ht => ⟨c, List.mem_cons_self, ht⟩)
    · exact Or.inr ⟨d, List.mem_cons_of_mem c hd, ht⟩

theorem mem_collectAll (hvisit : ∀ y p, p.table.holds ≤ (visit y p).table.holds)
    {cs : List Contribution} {s : Pass × TerminalSet} {t : Terminal}
    (ht : t ∈ s.2 ∨ ∃ c ∈ cs, c.Yields marker s.1.table.holds t) :
    t ∈ (collectAll marker visit cs s).2 := by
  induction cs generalizing s with
  | nil => exact ht.elim id (fun ⟨_, hc, _⟩ => absurd hc List.not_mem_nil)
  | cons c cs ih =>
    have hc : s.1.table.holds ≤ (collect marker visit c s).1.table.holds :=
      collect_rel (R := fun p q => p.table.holds ≤ q.table.holds) (fun _ => le_refl _)
        (fun _ _ _ => le_trans) hvisit c s
    refine ih (s := collect marker visit c s) ?_
    obtain ht | ⟨d, hd, ht⟩ := ht
    · exact Or.inl (mem_collect hvisit (Or.inl ht))
    · obtain rfl | hd := List.mem_cons.mp hd
      · exact Or.inl (mem_collect hvisit (Or.inr ht))
      · exact Or.inr ⟨d, hd, ht.mono hc⟩

end Collect

/-! ## A visit -/

theorem visit_of_mem (depth : Nat) {x : Nonterminal} {p : Pass} (h : x ∈ p.visited) :
    sys.visit depth x p = p := by
  cases depth with
  | zero => rfl
  | succ depth => rw [visit, if_pos h]

/-- What a visit that begins at `x` has collected, and the pass under way
at that moment. -/
def gather (sys : SetSystem) (depth : Nat) (x : Nonterminal) (p : Pass) : Pass × TerminalSet :=
  collectAll sys.marker (sys.visit depth) (sys.of x)
    ({ p with visited := x :: p.visited }, p.table.get x)

theorem gather_rel {R : Pass → Pass → Prop} (hrefl : ∀ p, R p p)
    (htrans : ∀ p q r, R p q → R q r → R p r) {depth : Nat}
    (hvisit : ∀ y p, R p (sys.visit depth y p)) (x : Nonterminal) (p : Pass) :
    R { p with visited := x :: p.visited } (sys.gather depth x p).1 :=
  collectAll_rel hrefl htrans hvisit (sys.of x) (_, p.table.get x)

theorem mem_of_mem_gather {depth : Nat}
    (hvisit : ∀ y p, p.table.holds ≤ f → (sys.visit depth y p).table.holds ≤ f)
    (x : Nonterminal) {p : Pass} (hp : p.table.holds ≤ f) {t : Terminal}
    (ht : t ∈ (sys.gather depth x p).2) :
    t ∈ p.table.get x ∨ ∃ c ∈ sys.of x, c.Yields sys.marker f t :=
  mem_of_mem_collectAll (s := ({ p with visited := x :: p.visited }, p.table.get x))
    hvisit hp ht

theorem mem_gather {depth : Nat}
    (hvisit : ∀ y p, p.table.holds ≤ (sys.visit depth y p).table.holds) (x : Nonterminal)
    {p : Pass} {t : Terminal}
    (ht : t ∈ p.table.get x ∨ ∃ c ∈ sys.of x, c.Yields sys.marker p.table.holds t) :
    t ∈ (sys.gather depth x p).2 :=
  mem_collectAll (s := ({ p with visited := x :: p.visited }, p.table.get x)) hvisit ht

theorem visit_of_notMem (depth : Nat) {x : Nonterminal} {p : Pass} (h : x ∉ p.visited) :
    sys.visit (depth + 1) x p
      = (sys.gather depth x p).1.write x (sys.gather depth x p).2 := by
  rw [visit, if_neg h]
  rfl

/-- **A visit stays below every solution.** -/
theorem visit_below (hf : sys.Closed f) (depth : Nat) (x : Nonterminal) (p : Pass)
    (hp : p.table.holds ≤ f) : (sys.visit depth x p).table.holds ≤ f := by
  induction depth generalizing x p with
  | zero => exact hp
  | succ depth ih =>
    by_cases hx : x ∈ p.visited
    · rwa [visit_of_mem _ hx]
    have hleft : (sys.gather depth x p).1.table.holds ≤ f :=
      gather_rel (R := fun p q => p.table.holds ≤ f → q.table.holds ≤ f) (fun _ => id)
        (fun _ _ _ hpq hqr h => hqr (hpq h)) ih x p hp
    rw [visit_of_notMem _ hx, Pass.write]
    split
    · exact hleft
    · intro y t ht
      obtain ⟨rfl, hs⟩ | hs := SetTable.mem_of_mem_get_set ht
      · obtain hs | ⟨c, hc, hs⟩ := mem_of_mem_gather ih x hp hs
        · exact hp x t hs
        · exact hf x c hc t hs
      · exact hleft y t hs

/-- **What a visit does to a pass under way.** -/
structure Extends (sys : SetSystem) (p q : Pass) : Prop where
  grows : p.table.holds ≤ q.table.holds
  size : q.table.sets.size = p.table.sets.size
  visited : p.visited ⊆ q.visited
  /-- The set of a nonterminal whose visit began before is left to that
  visit. -/
  frame : ∀ x ∈ p.visited, q.table.get x = p.table.get x
  unchanged : q.changed = false → p.changed = false ∧ q.table = p.table
  enlarged : p.table.sets.size = sys.size → q.changed = true →
    p.changed = true ∨ ∃ x t, q.table.holds x t ∧ ¬ p.table.holds x t
  /-- Visits that begin and change nothing find the set complete. -/
  closed : q.changed = false →
    ∀ x ∈ q.visited, x ∈ p.visited ∨ sys.ClosedAt q.table.holds x

namespace Extends

variable {p q r : Pass}

theorem refl (sys : SetSystem) (p : Pass) : sys.Extends p p where
  grows := le_refl _
  size := rfl
  visited := fun _ h => h
  frame := fun _ _ => rfl
  unchanged := fun h => ⟨h, rfl⟩
  enlarged := fun _ => Or.inl
  closed := fun _ _ h => Or.inl h

theorem trans (hpq : sys.Extends p q) (hqr : sys.Extends q r) :
    sys.Extends p r where
  grows := hpq.grows.trans hqr.grows
  size := hqr.size.trans hpq.size
  visited := fun _ h => hqr.visited (hpq.visited h)
  frame := fun x h => (hqr.frame x (hpq.visited h)).trans (hpq.frame x h)
  unchanged := fun h =>
    have ⟨hq, ht⟩ := hqr.unchanged h
    have ⟨hp, ht'⟩ := hpq.unchanged hq
    ⟨hp, ht.trans ht'⟩
  enlarged := fun hsize h => by
    obtain hq | ⟨x, t, hr, hq⟩ := hqr.enlarged (hpq.size.trans hsize) h
    · obtain hp | ⟨x, t, hq, hp⟩ := hpq.enlarged hsize hq
      · exact Or.inl hp
      · exact Or.inr ⟨x, t, hqr.grows x t hq, hp⟩
    · exact Or.inr ⟨x, t, hr, fun hp => hq (hpq.grows x t hp)⟩
  closed := fun h x hx => by
    obtain ⟨hq, ht⟩ := hqr.unchanged h
    obtain hx | hx := hqr.closed h x hx
    · rw [ht]
      exact hpq.closed hq x hx
    · exact Or.inr hx

/-- The end of a visit that has collected nothing new. -/
theorem keep {x : Nonterminal} (h : sys.Extends { p with visited := x :: p.visited } q)
    (hmem : ∀ t, (∃ c ∈ sys.of x, c.Yields sys.marker p.table.holds t) → t ∈ q.table.get x) :
    sys.Extends p q where
  grows := h.grows
  size := h.size
  visited := fun y hy => h.visited (List.mem_cons_of_mem x hy)
  frame := fun y hy => h.frame y (List.mem_cons_of_mem x hy)
  unchanged := h.unchanged
  enlarged := h.enlarged
  closed := fun hq y hy => by
    obtain hy | hy := h.closed hq y hy
    · obtain rfl | hy := List.mem_cons.mp hy
      · refine Or.inr (fun c hc t ht => ?_)
        rw [(h.unchanged hq).2] at ht
        exact hmem t ⟨c, hc, ht⟩
      · exact Or.inl hy
    · exact Or.inr hy

/-- The end of a visit that has collected something new. -/
theorem enlarge {x : Nonterminal} {collected : TerminalSet} (hx : x ∉ p.visited)
    (h : sys.Extends { p with visited := x :: p.visited } q)
    (hgrows : ∀ t ∈ p.table.get x, t ∈ collected) (hne : collected ≠ q.table.get x)
    (hnil : sys.of x = [] → collected = p.table.get x) :
    sys.Extends p { q with table := q.table.set x collected, changed := true } where
  grows := by
    have hself : q.table.get x = p.table.get x := h.frame x List.mem_cons_self
    exact h.grows.trans (SetTable.holds_le_set fun t ht => hgrows t (hself ▸ ht))
  size := (Array.size_setIfInBounds ..).trans h.size
  visited := fun y hy => h.visited (List.mem_cons_of_mem x hy)
  frame := fun y hy => by
    have hxy : x ≠ y := fun hxy => hx (hxy ▸ hy)
    exact (SetTable.get_set_of_ne _ hxy).trans (h.frame y (List.mem_cons_of_mem x hy))
  unchanged := nofun
  enlarged := fun hsize _ => Or.inr (by
    have hself : q.table.get x = p.table.get x := h.frame x List.mem_cons_self
    -- a nonterminal without a set has no contributions, and nothing new
    have hlt : x.index < q.table.sets.size := by
      by_contra hle
      rw [h.size, show p.table.sets.size = sys.size from hsize] at hle
      exact hne ((hnil (of_eq_nil (Nat.le_of_not_lt hle))).trans hself.symm)
    by_contra hall
    refine hne (TerminalSet.ext_mem (fun t => ⟨fun ht => ?_, fun ht => ?_⟩))
    · by_contra hq
      refine hall ⟨x, t, ?_, fun hp => hq (hself ▸ hp)⟩
      rwa [SetTable.holds_iff, SetTable.get_set_self _ hlt]
    · exact hgrows t (hself ▸ ht))
  closed := nofun

/-- **The end of a visit.** The pass `q` has come about since the visit
of `x` began, and all contributions to `x` have been collected. -/
theorem write {x : Nonterminal} {collected : TerminalSet} (hx : x ∉ p.visited)
    (h : sys.Extends { p with visited := x :: p.visited } q)
    (hmem : ∀ t, (t ∈ p.table.get x ∨ ∃ c ∈ sys.of x, c.Yields sys.marker p.table.holds t) →
      t ∈ collected)
    (hnil : sys.of x = [] → collected = p.table.get x) :
    sys.Extends p (q.write x collected) := by
  unfold Pass.write
  split
  · next heq => exact h.keep (fun t ht => heq ▸ hmem t (Or.inr ht))
  · next hne => exact h.enlarge hx (fun t ht => hmem t (Or.inl ht)) hne hnil

end Extends

/-- **A visit extends the pass under way.** -/
theorem visit_extends (depth : Nat) (x : Nonterminal) (p : Pass) :
    sys.Extends p (sys.visit depth x p) := by
  induction depth generalizing x p with
  | zero => exact Extends.refl sys p
  | succ depth ih =>
    by_cases hx : x ∈ p.visited
    · rw [visit_of_mem _ hx]
      exact Extends.refl sys p
    rw [visit_of_notMem _ hx]
    have hleft := gather_rel (Extends.refl sys) (fun _ _ _ => Extends.trans) ih x p
    have hmem := fun t => mem_gather (fun y q => (ih y q).grows) x (p := p) (t := t)
    refine hleft.write hx hmem (fun hnil => ?_)
    rw [gather, hnil]
    rfl

/-- A visit with depth left begins, unless it has begun before. -/
theorem mem_visited_visit (depth : Nat) (x : Nonterminal) (p : Pass) :
    x ∈ (sys.visit (depth + 1) x p).visited := by
  by_cases hx : x ∈ p.visited
  · rwa [visit_of_mem _ hx]
  · have hleft := gather_rel (Extends.refl sys) (fun _ _ _ => Extends.trans)
      (visit_extends depth) x p
    have hmem : x ∈ (sys.gather depth x p).1.visited := hleft.visited List.mem_cons_self
    rw [visit_of_notMem _ hx, Pass.write]
    split
    · exact hmem
    · exact hmem

/-! ## A pass -/

/-- What holds between a pass under way and the pass after any visit
holds between the beginning and the end of a pass. -/
theorem pass_rel {R : Pass → Pass → Prop} (hrefl : ∀ p, R p p)
    (htrans : ∀ p q r, R p q → R q r → R p r) (hvisit : ∀ x p, R p (sys.visit sys.size x p))
    (table : SetTable) : R ⟨table, [], false⟩ (sys.pass table) := by
  unfold pass
  generalize (List.range sys.size).map Nonterminal.mk = l
  generalize (⟨table, [], false⟩ : Pass) = p
  induction l generalizing p with
  | nil => exact hrefl p
  | cons x l ih => exact htrans _ _ _ (hvisit x p) (ih _)

theorem pass_extends (table : SetTable) :
    sys.Extends ⟨table, [], false⟩ (sys.pass table) :=
  pass_rel (Extends.refl sys) (fun _ _ _ => Extends.trans) (visit_extends sys.size) table

/-- A pass stays below every solution. -/
theorem pass_below (hf : sys.Closed f) {table : SetTable} (h : table.holds ≤ f) :
    (sys.pass table).table.holds ≤ f :=
  pass_rel (R := fun p q => p.table.holds ≤ f → q.table.holds ≤ f) (fun _ => id)
    (fun _ _ _ hpq hqr h => hqr (hpq h)) (visit_below hf sys.size) table h

theorem mem_visited_foldl {depth : Nat} {x : Nonterminal} {l : List Nonterminal} {p : Pass}
    (h : x ∈ l ∨ x ∈ p.visited) :
    x ∈ (l.foldl (fun p y => sys.visit (depth + 1) y p) p).visited := by
  induction l generalizing p with
  | nil => exact h.elim (fun h => absurd h List.not_mem_nil) id
  | cons y l ih =>
    refine ih ?_
    obtain h | h := h
    · obtain rfl | h := List.mem_cons.mp h
      · exact Or.inr (mem_visited_visit depth x p)
      · exact Or.inl h
    · exact Or.inr ((visit_extends (depth + 1) y p).visited h)

/-- A pass visits every nonterminal. -/
theorem mem_visited_pass (table : SetTable) {x : Nonterminal} (hx : x.index < sys.size) :
    x ∈ (sys.pass table).visited := by
  obtain ⟨depth, hdepth⟩ : ∃ depth, sys.size = depth + 1 := ⟨sys.size - 1, by omega⟩
  have hmem : x ∈ (List.range sys.size).map Nonterminal.mk :=
    List.mem_map.mpr ⟨x.index, List.mem_range.mpr hx, rfl⟩
  rw [hdepth] at hmem
  rw [pass, hdepth]
  exact mem_visited_foldl (Or.inl hmem)

/-- **A pass that changes nothing has found a solution.** -/
theorem closed_of_unchanged {table : SetTable} (h : (sys.pass table).changed = false) :
    sys.Closed table.holds := by
  intro x
  have hext := sys.pass_extends table
  by_cases hx : x.index < sys.size
  · obtain hmem | hclosed := hext.closed h x (mem_visited_pass table hx)
    · exact absurd hmem List.not_mem_nil
    · rwa [(hext.unchanged h).2] at hclosed
  · intro c hc
    rw [of_eq_nil (Nat.le_of_not_lt hx)] at hc
    exact absurd hc List.not_mem_nil

/-! ## Enough passes -/

/-- Whether a family has a set only where the system has one, with
members from its alphabet. -/
def Within (sys : SetSystem) (f : Family) : Prop :=
  ∀ x t, f x t → x.index < sys.size ∧ t.index < sys.alphabet

/-- The members of all sets of a table. -/
def members (sys : SetSystem) (table : SetTable) : Finset (ℕ × ℕ) :=
  (Finset.range sys.size ×ˢ Finset.range sys.alphabet).filter
    (fun q => (⟨q.2⟩ : Terminal) ∈ table.get ⟨q.1⟩)

theorem mem_members {table : SetTable} {x : Nonterminal} {t : Terminal} :
    (x.index, t.index) ∈ sys.members table ↔
      (x.index < sys.size ∧ t.index < sys.alphabet) ∧ t ∈ table.get x := by
  rw [members, Finset.mem_filter, Finset.mem_product, Finset.mem_range, Finset.mem_range]

theorem card_members_le (table : SetTable) :
    (sys.members table).card ≤ sys.size * sys.alphabet := by
  refine (Finset.card_filter_le _ _).trans ?_
  rw [Finset.card_product, Finset.card_range, Finset.card_range]

/-- **A pass that changes something adds a member.** -/
theorem card_members_lt {table : SetTable} (hsize : table.sets.size = sys.size)
    (hwithin : sys.Within (sys.pass table).table.holds)
    (h : (sys.pass table).changed = true) :
    (sys.members table).card < (sys.members (sys.pass table).table).card := by
  have hext := sys.pass_extends table
  refine Finset.card_lt_card ((Finset.ssubset_iff_of_subset ?_).mpr ?_)
  · exact fun q hq => mem_members.mpr
      ((mem_members.mp hq).imp_right (hext.grows ⟨q.1⟩ ⟨q.2⟩))
  · obtain h | ⟨x, t, hnew, hold⟩ := hext.enlarged hsize h
    · exact absurd h Bool.false_ne_true
    · exact ⟨(x.index, t.index), mem_members.mpr ⟨hwithin x t hnew, hnew⟩,
        fun hmem => hold (mem_members.mp hmem).2⟩

/-- **What the solver is given**: a table of as many sets as the system
has, and an alphabet that holds all members of the table and of the
contributions. -/
structure Solvable (sys : SetSystem) (start : SetTable) : Prop where
  size : start.sets.size = sys.size
  start_lt : ∀ x t, start.holds x t → t.index < sys.alphabet
  closed_lt : sys.Closed (fun _ t => t.index < sys.alphabet)

namespace Solvable

variable {table : SetTable}

theorem within (h : sys.Solvable table) : sys.Within table.holds := by
  intro x t ht
  refine ⟨?_, h.start_lt x t ht⟩
  by_contra hle
  have hnone : table.sets[x.index]? = none :=
    Array.getElem?_eq_none (by rw [h.size]; exact Nat.le_of_not_lt hle)
  rw [SetTable.holds_iff, SetTable.get, hnone] at ht
  exact TerminalSet.not_mem_empty t ht

/-- What a pass makes of a table can be passed again. -/
theorem pass (h : sys.Solvable table) : sys.Solvable (sys.pass table).table where
  size := (sys.pass_extends table).size.trans h.size
  start_lt := pass_below h.closed_lt h.start_lt
  closed_lt := h.closed_lt

end Solvable

/-- The table after `n` passes. -/
def tableAfter (sys : SetSystem) (start : SetTable) (n : Nat) : SetTable :=
  (fun table => (sys.pass table).table)^[n] start

/-- **Passes are repeated until nothing changes**, if there may be as many of
them as members can still be added: for some `n`, each of the first `n` passes
changes something, and the next one does not. -/
theorem exists_iterate_eq {table : SetTable} (h : sys.Solvable table) {bound : Nat}
    (hbound : sys.size * sys.alphabet < (sys.members table).card + bound) (done : Nat) :
    ∃ n, sys.iterate bound done table = ⟨sys.tableAfter table n, done + n + 1⟩
      ∧ (∀ k < n, (sys.pass (sys.tableAfter table k)).changed = true)
      ∧ (sys.pass (sys.tableAfter table n)).changed = false := by
  induction bound generalizing table done with
  | zero => exact absurd hbound (Nat.not_lt.mpr (card_members_le table))
  | succ bound ih =>
    rw [iterate]
    split
    · next hchanged =>
      have hlt := card_members_lt h.size h.pass.within hchanged
      obtain ⟨n, heq, hbefore, hlast⟩ := ih h.pass (by omega) (done + 1)
      refine ⟨n + 1, by rw [heq, Nat.add_right_comm done 1 n]; rfl, fun k hk => ?_, hlast⟩
      cases k with
      | zero => exact hchanged
      | succ k => exact hbefore k (Nat.lt_of_succ_lt_succ hk)
    · next hchanged =>
      have hsame := Bool.eq_false_iff.mpr hchanged
      refine ⟨0, ?_, fun k hk => absurd hk (Nat.not_lt_zero k), hsame⟩
      rw [((sys.pass_extends table).unchanged hsame).2]
      rfl

/-- Passes that are repeated until nothing changes end in a solution. -/
theorem closed_iterate {table : SetTable} (h : sys.Solvable table) {bound : Nat}
    (hbound : sys.size * sys.alphabet < (sys.members table).card + bound) (done : Nat) :
    sys.Closed (sys.iterate bound done table).table.holds := by
  obtain ⟨n, heq, -, hlast⟩ := exists_iterate_eq h hbound done
  rw [heq]
  exact closed_of_unchanged hlast

theorem le_iterate (bound done : Nat) (table : SetTable) :
    table.holds ≤ (sys.iterate bound done table).table.holds := by
  induction bound generalizing done table with
  | zero => exact le_refl _
  | succ bound ih =>
    have hgrows := (sys.pass_extends table).grows
    rw [iterate]
    split
    · exact hgrows.trans (ih (done + 1) _)
    · exact hgrows

theorem iterate_below (hf : sys.Closed f) (bound done : Nat) {table : SetTable}
    (h : table.holds ≤ f) : (sys.iterate bound done table).table.holds ≤ f := by
  induction bound generalizing done table with
  | zero => exact h
  | succ bound ih =>
    rw [iterate]
    split
    · exact ih (done + 1) (pass_below hf h)
    · exact pass_below hf h

/-- **The solver returns the least solution above its starting
table.** -/
theorem isLeast_solve {start : SetTable} (h : sys.Solvable start) :
    IsLeast {f | start.holds ≤ f ∧ sys.Closed f} (sys.solve start).table.holds := by
  refine ⟨⟨le_iterate _ _ start, closed_iterate h ?_ 0⟩, fun f hf => iterate_below hf.2 _ _ hf.1⟩
  omega

/-- Passes may begin with sets that have no members. -/
theorem solvable_blank {n : Nat} (hsize : n = sys.size)
    (hclosed : sys.Closed (fun _ t => t.index < sys.alphabet)) :
    sys.Solvable (SetTable.blank n) where
  size := by rw [← hsize, SetTable.blank, Array.size_replicate]
  start_lt := SetTable.blank_le n _
  closed_lt := hclosed

/-- **From sets without members the solver returns the least solution of
all.** -/
theorem isLeast_solve_blank {n : Nat} (h : sys.Solvable (SetTable.blank n)) :
    IsLeast {f | sys.Closed f} (sys.solve (SetTable.blank n)).table.holds :=
  ⟨(isLeast_solve h).1.2, fun f hf => (isLeast_solve h).2 ⟨SetTable.blank_le n f, hf⟩⟩

end SetSystem

end GrammarAnalysis
