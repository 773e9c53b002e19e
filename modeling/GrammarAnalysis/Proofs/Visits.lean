import GrammarAnalysis.Proofs.LeastSolution
import Mathlib.Data.List.Nodup

/-!
# The visits of a pass

Visits call each other through the inclusions, which may be cyclic, and the
only thing that stops them is that a nonterminal is marked when its visit
begins. `Runs` says what they do, with no limit on how deep they nest, and
keeps a record of when the body of a visit is begun and ended.

There is one such record for every pass (`exists_runs`, `Runs.unique`): every
body that is begun leaves fewer nonterminals that are not marked, so the
visits nest no deeper than there are nonterminals, and the depth of
`SetSystem.visit` is never used up. What the record shows follows from what
one step adds to the marks: the bodies that are begun are exactly the new
marks (`Runs.visited_eq`), so no body is begun twice, and every body that is
begun is ended (`Runs.perm_ended`).

All this needs that the inclusions name no other nonterminals than those that
have a set (`IsInternal`).
-/

namespace GrammarAnalysis

/-- Whether the nonterminals a contribution is taken from are among the first
`n`. -/
def Contribution.IsInternal (n : Nat) : Contribution → Prop
  | known _ => True
  | inherit y => y.index < n
  | through y rest => y.index < n ∧ rest.IsInternal n

namespace SetSystem

variable {sys : SetSystem}

/-- **Every nonterminal that is named has a set.** -/
def IsInternal (sys : SetSystem) : Prop :=
  ∀ x, ∀ c ∈ sys.of x, c.IsInternal sys.size

/-- The nonterminals that have a set. -/
def all (sys : SetSystem) : List Nonterminal := (List.range sys.size).map Nonterminal.mk

theorem mem_all {x : Nonterminal} : x ∈ sys.all ↔ x.index < sys.size := by
  rw [all, List.mem_map]
  exact ⟨fun ⟨_, hi, hx⟩ => hx ▸ List.mem_range.mp hi, fun h => ⟨_, List.mem_range.mpr h, rfl⟩⟩

theorem nodup_all : sys.all.Nodup :=
  List.nodup_range.map fun _ _ h => congrArg Nonterminal.index h

/-! ## The record of a pass -/

/-- **What is recorded**: that the body of a visit is begun, or that it is
ended, with the sets at that time. -/
inductive Event where
  | enter (x : Nonterminal)
  | leave (x : Nonterminal) (table : SetTable)
deriving DecidableEq, Repr

/-- The nonterminals whose bodies are begun, one after the other. -/
def begun : List Event → List Nonterminal
  | [] => []
  | .enter x :: events => x :: begun events
  | .leave _ _ :: events => begun events

/-- The nonterminals whose bodies are ended, one after the other. -/
def ended : List Event → List Nonterminal
  | [] => []
  | .enter _ :: events => ended events
  | .leave x _ :: events => x :: ended events

/-- The sets at the end of one body after the other. -/
def tables : List Event → List SetTable
  | [] => []
  | .enter _ :: events => tables events
  | .leave _ table :: events => table :: tables events

/-- **The bodies that are active** after some events: those that are begun
and not ended. -/
def active (events : List Event) : List Nonterminal :=
  (begun events).filter (· ∉ ended events)

@[simp] theorem begun_append (events events' : List Event) :
    begun (events ++ events') = begun events ++ begun events' := by
  induction events with
  | nil => rfl
  | cons e events ih => cases e <;> simp [begun, ih]

@[simp] theorem ended_append (events events' : List Event) :
    ended (events ++ events') = ended events ++ ended events' := by
  induction events with
  | nil => rfl
  | cons e events ih => cases e <;> simp [ended, ih]

@[simp] theorem tables_append (events events' : List Event) :
    tables (events ++ events') = tables events ++ tables events' := by
  induction events with
  | nil => rfl
  | cons e events ih => cases e <;> simp [tables, ih]

/-- **What there is to do** in a pass. -/
inductive Task where
  /-- To visit a nonterminal. -/
  | visit (x : Nonterminal)
  /-- To end the body of the visit of `x`, in which `collected` has been
  collected and `todo` has not. -/
  | body (x : Nonterminal) (todo : List Contribution) (collected : TerminalSet)
  /-- To visit some nonterminals, one after the other. -/
  | visits (xs : List Nonterminal)

/-- The bodies that are under way when a task begins and end with it. -/
def Task.opened : Task → List Nonterminal
  | visit _ => []
  | body x _ _ => [x]
  | visits _ => []

/-- Whether a task leads to no other nonterminals than those that have a
set. -/
def Task.IsInternal (sys : SetSystem) : Task → Prop
  | visit x => x.index < sys.size
  | body _ todo _ => ∀ c ∈ todo, c.IsInternal sys.size
  | visits xs => ∀ x ∈ xs, x.index < sys.size

/-- **A body that is under way** is marked and has collected all that its set
holds. -/
def Task.Covers : Task → Pass → Prop
  | visit _, _ => True
  | body x _ collected, p => x ∈ p.visited ∧ ∀ t ∈ p.table.get x, t ∈ collected
  | visits _, _ => True

/-- **Tables one after the other**, from the first to the last one, of which
none has lost a member. -/
def Rising : SetTable → List SetTable → SetTable → Prop
  | first, [], last => first = last
  | first, table :: later, last => first.holds ≤ table.holds ∧ Rising table later last

theorem Rising.append {first table last : SetTable} {tables tables' : List SetTable}
    (h : Rising first tables table) (h' : Rising table tables' last) :
    Rising first (tables ++ tables') last := by
  induction tables generalizing first with
  | nil =>
    obtain rfl : first = table := h
    exact h'
  | cons a tables ih => exact ⟨h.1, ih h.2⟩

/-- **How a task is done**, how deep visits nest being left open: what the
pass under way is before it and after it, and what is recorded meanwhile. -/
inductive Runs (sys : SetSystem) : Task → Pass → List Event → Pass → Prop where
  /-- A nonterminal whose visit has begun is not visited again. -/
  | again {x p} (hx : x ∈ p.visited) : Runs sys (.visit x) p [] p
  | enter {x p events q} (hx : x ∉ p.visited)
      (hbody : Runs sys (.body x (sys.of x) (p.table.get x))
        { p with visited := x :: p.visited } events q) :
      Runs sys (.visit x) p (.enter x :: events) q
  | leave {x collected p} :
      Runs sys (.body x [] collected) p [.leave x (p.write x collected).table]
        (p.write x collected)
  | known {x set todo collected p events q}
      (hbody : Runs sys (.body x todo (collected ∪ set)) p events q) :
      Runs sys (.body x (.known set :: todo) collected) p events q
  | inherit {x y todo collected p events q events' r} (hvisit : Runs sys (.visit y) p events q)
      (hbody : Runs sys (.body x todo (collected ∪ q.table.get y)) q events' r) :
      Runs sys (.body x (.inherit y :: todo) collected) p (events ++ events') r
  /-- More is to be collected if the marker is in the set. -/
  | through {x y rest todo collected p events q events' r}
      (hvisit : Runs sys (.visit y) p events q)
      (hbody : Runs sys (.body x (if sys.marker ∈ q.table.get y then rest :: todo else todo)
        (collected ∪ (q.table.get y).erase sys.marker)) q events' r) :
      Runs sys (.body x (.through y rest :: todo) collected) p (events ++ events') r
  | done {p} : Runs sys (.visits []) p [] p
  | next {x xs p events q events' r} (hvisit : Runs sys (.visit x) p events q)
      (hvisits : Runs sys (.visits xs) q events' r) :
      Runs sys (.visits (x :: xs)) p (events ++ events') r

namespace Runs

variable {task : Task} {p q : Pass} {events : List Event}

/-- **There is one way to do a task.** -/
theorem unique {events' : List Event} {q' : Pass} (h : sys.Runs task p events q)
    (h' : sys.Runs task p events' q') : events' = events ∧ q' = q := by
  induction h generalizing events' q' with
  | again hx =>
    cases h' with
    | again _ => exact ⟨rfl, rfl⟩
    | enter hx' _ => exact absurd hx hx'
  | enter hx _ ih =>
    -- whether a visit begins is seen from the marks alone
    cases h' with
    | again hx' => exact absurd hx' hx
    | enter _ hbody' =>
      obtain ⟨rfl, rfl⟩ := ih hbody'
      exact ⟨rfl, rfl⟩
  | leave =>
    cases h'
    exact ⟨rfl, rfl⟩
  | known _ ih =>
    cases h' with
    | known hbody' => exact ih hbody'
  | inherit _ _ ihvisit ihbody =>
    cases h' with
    | inherit hvisit' hbody' =>
      obtain ⟨rfl, rfl⟩ := ihvisit hvisit'
      obtain ⟨rfl, rfl⟩ := ihbody hbody'
      exact ⟨rfl, rfl⟩
  | through _ _ ihvisit ihbody =>
    cases h' with
    | through hvisit' hbody' =>
      obtain ⟨rfl, rfl⟩ := ihvisit hvisit'
      obtain ⟨rfl, rfl⟩ := ihbody hbody'
      exact ⟨rfl, rfl⟩
  | done =>
    cases h'
    exact ⟨rfl, rfl⟩
  | next _ _ ihvisit ihvisits =>
    cases h' with
    | next hvisit' hvisits' =>
      obtain ⟨rfl, rfl⟩ := ihvisit hvisit'
      obtain ⟨rfl, rfl⟩ := ihvisits hvisits'
      exact ⟨rfl, rfl⟩

@[simp] theorem visited_write (p : Pass) (x : Nonterminal) (s : TerminalSet) :
    (p.write x s).visited = p.visited := by
  unfold Pass.write
  split <;> rfl

/-- **The bodies that are begun are the new marks.** -/
theorem visited_eq (h : sys.Runs task p events q) :
    q.visited = (begun events).reverse ++ p.visited := by
  induction h with
  | again _ => rfl
  | enter _ _ ih => simp [ih, begun]
  | leave => simp [begun]
  | known _ ih => exact ih
  | inherit _ _ ihvisit ihbody => simp [ihvisit, ihbody]
  | through _ _ ihvisit ihbody => simp [ihvisit, ihbody]
  | done => rfl
  | next _ _ ihvisit ihvisits => simp [ihvisit, ihvisits]

theorem subset_visited (h : sys.Runs task p events q) : p.visited ⊆ q.visited := by
  rw [h.visited_eq]
  exact List.subset_append_right _ _

/-- Nothing is marked twice. -/
theorem nodup_visited (h : sys.Runs task p events q) (hp : p.visited.Nodup) :
    q.visited.Nodup := by
  induction h with
  | again _ => exact hp
  | enter hx _ ih => exact ih (List.nodup_cons.mpr ⟨hx, hp⟩)
  | leave => rwa [visited_write]
  | known _ ih => exact ih hp
  | inherit _ _ ihvisit ihbody => exact ihbody (ihvisit hp)
  | through _ _ ihvisit ihbody => exact ihbody (ihvisit hp)
  | done => exact hp
  | next _ _ ihvisit ihvisits => exact ihvisits (ihvisit hp)

/-- **The bodies that are ended** are those that are begun, and the one that
was under way. -/
theorem perm_ended (h : sys.Runs task p events q) :
    (ended events).Perm (task.opened ++ begun events) := by
  induction h with
  | again _ => exact .refl _
  | enter _ _ ih => exact ih
  | leave => exact .refl _
  | known _ ih => exact ih
  | inherit _ _ ihvisit ihbody =>
    rw [ended_append, begun_append]
    exact (ihvisit.append ihbody).trans List.perm_middle
  | through _ _ ihvisit ihbody =>
    rw [ended_append, begun_append]
    exact (ihvisit.append ihbody).trans List.perm_middle
  | done => exact .refl _
  | next _ _ ihvisit ihvisits =>
    rw [ended_append, begun_append]
    exact ihvisit.append ihvisits

/-- The set of a nonterminal whose visit began before is left to that visit. -/
theorem frame (h : sys.Runs task p events q) {y : Nonterminal} (hy : y ∈ p.visited)
    (hopened : y ∉ task.opened) : q.table.get y = p.table.get y := by
  induction h with
  | again _ => rfl
  | enter hx _ ih =>
    exact ih (List.mem_cons_of_mem _ hy)
      (fun h => hx (List.mem_singleton.mp h ▸ hy))
  | leave =>
    unfold Pass.write
    split
    · rfl
    · exact SetTable.get_set_of_ne _ fun h => hopened (h ▸ List.mem_singleton_self _)
  | known _ ih => exact ih hy hopened
  | inherit hvisit _ ihvisit ihbody =>
    exact (ihbody (hvisit.subset_visited hy) hopened).trans (ihvisit hy List.not_mem_nil)
  | through hvisit _ ihvisit ihbody =>
    exact (ihbody (hvisit.subset_visited hy) hopened).trans (ihvisit hy List.not_mem_nil)
  | done => rfl
  | next hvisit _ ihvisit ihvisits =>
    exact (ihvisits (hvisit.subset_visited hy) hopened).trans (ihvisit hy List.not_mem_nil)

theorem covers_union {x : Nonterminal} {todo todo' : List Contribution} {collected : TerminalSet}
    (h : (Task.body x todo collected).Covers p) (set : TerminalSet) :
    (Task.body x todo' (collected ∪ set)).Covers p :=
  ⟨h.1, fun t ht => TerminalSet.mem_union.mpr (Or.inl (h.2 t ht))⟩

/-- A visit that is called leaves the set of its caller alone. -/
theorem covers_after {x y : Nonterminal} {todo : List Contribution} {collected : TerminalSet}
    (hvisit : sys.Runs (.visit y) p events q) (h : (Task.body x todo collected).Covers p) :
    (Task.body x todo collected).Covers q :=
  ⟨hvisit.subset_visited h.1, fun t ht => h.2 t (hvisit.frame h.1 List.not_mem_nil ▸ ht)⟩

/-- **No set loses a member**, from the end of one body to the end of the
next one. A body that is under way has collected what its set holds, which
nobody else changes meanwhile. -/
theorem rising (h : sys.Runs task p events q) (htask : task.Covers p) :
    Rising p.table (tables events) q.table := by
  induction h with
  | again _ => exact rfl
  | enter _ _ ih => exact ih ⟨List.mem_cons_self, fun _ => id⟩
  | @leave x collected p =>
    refine ⟨?_, rfl⟩
    unfold Pass.write
    split
    · exact le_refl _
    · exact SetTable.holds_le_set htask.2
  | known _ ih => exact ih (covers_union htask _)
  | inherit hvisit _ ihvisit ihbody =>
    rw [tables_append]
    exact (ihvisit trivial).append (ihbody (covers_union (hvisit.covers_after htask) _))
  | through hvisit _ ihvisit ihbody =>
    rw [tables_append]
    exact (ihvisit trivial).append (ihbody (covers_union (hvisit.covers_after htask) _))
  | done => exact rfl
  | next _ _ ihvisit ihvisits =>
    rw [tables_append]
    exact (ihvisit trivial).append (ihvisits trivial)

/-- Only bodies of nonterminals that have a set are begun. -/
theorem index_lt (hsys : sys.IsInternal) (h : sys.Runs task p events q)
    (htask : task.IsInternal sys) : ∀ x ∈ begun events, x.index < sys.size := by
  induction h with
  | again _ => exact fun _ hx => absurd hx List.not_mem_nil
  | enter _ _ ih =>
    exact List.forall_mem_cons.mpr ⟨htask, ih (hsys _)⟩
  | leave => exact fun _ hx => absurd hx List.not_mem_nil
  | known _ ih => exact ih (List.forall_mem_cons.mp htask).2
  | inherit _ _ ihvisit ihbody =>
    obtain ⟨hy, htodo⟩ := List.forall_mem_cons.mp htask
    rw [begun_append]
    exact List.forall_mem_append.mpr ⟨ihvisit hy, ihbody htodo⟩
  | through _ _ ihvisit ihbody =>
    obtain ⟨⟨hy, hrest⟩, htodo⟩ := List.forall_mem_cons.mp htask
    rw [begun_append]
    refine List.forall_mem_append.mpr ⟨ihvisit hy, ihbody ?_⟩
    split
    · exact List.forall_mem_cons.mpr ⟨hrest, htodo⟩
    · exact htodo
  | done => exact fun _ hx => absurd hx List.not_mem_nil
  | next _ _ ihvisit ihvisits =>
    obtain ⟨hx, hxs⟩ := List.forall_mem_cons.mp htask
    rw [begun_append]
    exact List.forall_mem_append.mpr ⟨ihvisit hx, ihvisits hxs⟩

end Runs

/-! ## Visits with enough depth -/

/-- The nonterminals that are not marked. -/
def unvisited (sys : SetSystem) (p : Pass) : Finset ℕ :=
  (Finset.range sys.size).filter (fun i => (⟨i⟩ : Nonterminal) ∉ p.visited)

/-- The marks leave room for visits that nest as deep as `depth`. -/
def FitsIn (sys : SetSystem) (depth : Nat) (p : Pass) : Prop := (sys.unvisited p).card ≤ depth

section Depth

variable {depth : Nat} {x y : Nonterminal} {p q : Pass}

theorem unvisited_subset (h : p.visited ⊆ q.visited) : sys.unvisited q ⊆ sys.unvisited p :=
  Finset.monotone_filter_right _ fun _ _ hi hp => hi (h hp)

theorem FitsIn.mono (h : sys.FitsIn depth p) (hpq : p.visited ⊆ q.visited) :
    sys.FitsIn depth q :=
  (Finset.card_le_card (unvisited_subset hpq)).trans h

theorem FitsIn.visit (h : sys.FitsIn depth p) (n : Nat) (y : Nonterminal) :
    sys.FitsIn depth (sys.visit n y p) :=
  h.mono (visit_extends n y p).visited

/-- With no depth left everything is marked. -/
theorem FitsIn.mem_visited (h : sys.FitsIn 0 p) (hx : x.index < sys.size) : x ∈ p.visited := by
  by_contra hnot
  have hmem : x.index ∈ sys.unvisited p :=
    Finset.mem_filter.mpr ⟨Finset.mem_range.mpr hx, hnot⟩
  rw [Finset.card_eq_zero.mp (Nat.le_zero.mp h)] at hmem
  exact Finset.notMem_empty _ hmem

/-- A visit that begins leaves less unmarked. -/
theorem FitsIn.mark (h : sys.FitsIn (depth + 1) p) (hx : x.index < sys.size)
    (hnot : x ∉ p.visited) : sys.FitsIn depth { p with visited := x :: p.visited } := by
  have hsub : sys.unvisited { p with visited := x :: p.visited } ⊂ sys.unvisited p := by
    refine (Finset.ssubset_iff_of_subset (unvisited_subset (List.subset_cons_self _ _))).mpr
      ⟨x.index, ?_, ?_⟩
    · exact Finset.mem_filter.mpr ⟨Finset.mem_range.mpr hx, hnot⟩
    · exact fun hmem => (Finset.mem_filter.mp hmem).2 List.mem_cons_self
  exact Nat.le_of_lt_succ (lt_of_lt_of_le (Finset.card_lt_card hsub) h)

theorem fitsIn_size (table : SetTable) : sys.FitsIn sys.size ⟨table, [], false⟩ :=
  (Finset.card_filter_le _ _).trans (Finset.card_range _).le

/-- One contribution is collected, and then the rest of the body is done. -/
theorem exists_runs_cons (hvisit : ∀ y q, y.index < sys.size → sys.FitsIn depth q →
      ∃ events, sys.Runs (.visit y) q events (sys.visit depth y q))
    {c : Contribution} (hc : c.IsInternal sys.size) {s : Pass × TerminalSet}
    (hs : sys.FitsIn depth s.1) {todo : List Contribution} {r : Pass}
    (hrest : ∃ events, sys.Runs (.body x todo (collect sys.marker (sys.visit depth) c s).2)
      (collect sys.marker (sys.visit depth) c s).1 events r) :
    ∃ events, sys.Runs (.body x (c :: todo) s.2) s.1 events r := by
  induction c generalizing s with
  | known set =>
    obtain ⟨events, hrest⟩ := hrest
    exact ⟨events, .known hrest⟩
  | inherit y =>
    obtain ⟨events, hy⟩ := hvisit y s.1 hc hs
    obtain ⟨events', hrest⟩ := hrest
    exact ⟨_, .inherit hy hrest⟩
  | through y rest ih =>
    obtain ⟨events, hy⟩ := hvisit y s.1 hc.1 hs
    rw [collect_through] at hrest
    -- the marker decides with the set that the visit has left, here as in a run
    by_cases hmarker : sys.marker ∈ (sys.visit depth y s.1).table.get y
    · rw [if_pos hmarker] at hrest
      obtain ⟨events', hbody⟩ := ih hc.2 (s := (sys.visit depth y s.1, _)) (hs.visit depth y) hrest
      exact ⟨_, .through hy (by rwa [if_pos hmarker])⟩
    · rw [if_neg hmarker] at hrest
      obtain ⟨events', hbody⟩ := hrest
      exact ⟨_, .through hy (by rwa [if_neg hmarker])⟩

theorem exists_runs_body (hvisit : ∀ y q, y.index < sys.size → sys.FitsIn depth q →
      ∃ events, sys.Runs (.visit y) q events (sys.visit depth y q))
    {todo : List Contribution} (htodo : ∀ c ∈ todo, c.IsInternal sys.size)
    {s : Pass × TerminalSet} (hs : sys.FitsIn depth s.1) :
    ∃ events, sys.Runs (.body x todo s.2) s.1 events
      ((collectAll sys.marker (sys.visit depth) todo s).1.write x
        (collectAll sys.marker (sys.visit depth) todo s).2) := by
  induction todo generalizing s with
  | nil => exact ⟨_, .leave⟩
  | cons c todo ih =>
    obtain ⟨hc, htodo⟩ := List.forall_mem_cons.mp htodo
    have hfits : sys.FitsIn depth (collect sys.marker (sys.visit depth) c s).1 :=
      collect_rel (R := fun p q => sys.FitsIn depth p → sys.FitsIn depth q) (fun _ => id)
        (fun _ _ _ hpq hqr h => hqr (hpq h)) (fun y q h => h.visit depth y) c s hs
    exact exists_runs_cons hvisit hc hs (ih htodo hfits)

/-- **A visit with enough depth is done in full.** -/
theorem exists_runs_visit (hsys : sys.IsInternal) (hx : x.index < sys.size)
    (hp : sys.FitsIn depth p) :
    ∃ events, sys.Runs (.visit x) p events (sys.visit depth x p) := by
  induction depth generalizing x p with
  | zero => exact ⟨[], .again (hp.mem_visited hx)⟩
  | succ depth ih =>
    by_cases hmem : x ∈ p.visited
    · rw [visit_of_mem _ hmem]
      exact ⟨[], .again hmem⟩
    · rw [visit_of_notMem _ hmem]
      obtain ⟨events, hbody⟩ := exists_runs_body (x := x) (fun y q hy hq => ih hy hq)
        (hsys x)
        (s := ({ p with visited := x :: p.visited }, p.table.get x)) (hp.mark hx hmem)
      exact ⟨_, .enter hmem hbody⟩

theorem exists_runs_visits (hsys : sys.IsInternal) {xs : List Nonterminal}
    (hxs : ∀ x ∈ xs, x.index < sys.size) (hp : sys.FitsIn depth p) :
    ∃ events, sys.Runs (.visits xs) p events (xs.foldl (fun p x => sys.visit depth x p) p) := by
  induction xs generalizing p with
  | nil => exact ⟨[], .done⟩
  | cons x xs ih =>
    obtain ⟨hx, hxs⟩ := List.forall_mem_cons.mp hxs
    obtain ⟨events, hvisit⟩ := exists_runs_visit hsys hx hp
    obtain ⟨events', hvisits⟩ := ih hxs (hp.visit depth x)
    exact ⟨_, .next hvisit hvisits⟩

/-- **A pass is done in full**: the depth it starts with is never used up. -/
theorem exists_runs (hsys : sys.IsInternal) (table : SetTable) :
    ∃ events, sys.Runs (.visits sys.all) ⟨table, [], false⟩ events (sys.pass table) :=
  exists_runs_visits hsys (fun _ => mem_all.mp) (fitsIn_size table)

end Depth

/-! ## The bodies of a pass -/

section Bodies

variable {table : SetTable} {events : List Event} {q : Pass}

/-- **Every body is begun once.** -/
theorem Runs.perm_begun_all (hsys : sys.IsInternal)
    (h : sys.Runs (.visits sys.all) ⟨table, [], false⟩ events q) : (begun events).Perm sys.all := by
  -- no marks are there when a pass begins, so all of them are bodies that were begun
  have hvisited : q.visited = (begun events).reverse := by
    rw [h.visited_eq, List.append_nil]
  have hnodup : (begun events).Nodup := by
    rw [← List.nodup_reverse, ← hvisited]
    exact h.nodup_visited List.nodup_nil
  have hpass : q = sys.pass table := by
    obtain ⟨_, hpass⟩ := exists_runs hsys table
    exact (hpass.unique h).2
  refine (List.perm_ext_iff_of_nodup hnodup nodup_all).mpr fun x => ⟨fun hx => ?_, fun hx => ?_⟩
  · exact mem_all.mpr (h.index_lt hsys (fun _ => mem_all.mp) x hx)
  · rw [← List.mem_reverse, ← hvisited, hpass]
    exact mem_visited_pass table (mem_all.mp hx)

/-- **Every body is ended once.** -/
theorem Runs.perm_ended_all (hsys : sys.IsInternal)
    (h : sys.Runs (.visits sys.all) ⟨table, [], false⟩ events q) : (ended events).Perm sys.all :=
  h.perm_ended.trans (h.perm_begun_all hsys)

/-- **At no time are more bodies active than there are nonterminals.** -/
theorem Runs.length_active_le (hsys : sys.IsInternal)
    (h : sys.Runs (.visits sys.all) ⟨table, [], false⟩ events q) {sofar : List Event}
    (hsofar : sofar.IsPrefix events) : (active sofar).length ≤ sys.all.length := by
  obtain ⟨later, rfl⟩ := hsofar
  calc (active sofar).length
      ≤ (begun sofar).length := List.length_filter_le _ _
    _ ≤ (begun (sofar ++ later)).length := by
        rw [begun_append, List.length_append]
        exact Nat.le_add_right _ _
    _ = sys.all.length := (h.perm_begun_all hsys).length_eq

end Bodies

end SetSystem

end GrammarAnalysis
