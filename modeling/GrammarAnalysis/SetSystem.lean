import GrammarAnalysis.TerminalSet

/-!
# Systems of inclusions between terminal sets

FIRST, FOLLOW, FIRSTVT and LASTVT are all defined in the same way: every
nonterminal has a set, and the set must include certain contributions,
some of them fixed and some taken from the sets of other nonterminals.
A `SetSystem` is such a family of inclusions, and `SetSystem.solve` is
its least solution above a starting table.

## How it is solved

A *pass* visits every nonterminal once. To visit one is to collect its
contributions into its set, after visiting, for a contribution taken
from another nonterminal, that other nonterminal first. A nonterminal
that is being visited already, because the inclusions are cyclic,
contributes what its set holds at that moment. Passes are repeated until
one of them changes nothing.

A pass that changes something enlarges a set, and the sets are bounded,
so the number of passes is bounded too. The number of passes is part of
the solution, because it is reported.

## Depth

Visits nest no deeper than there are nonterminals, because a visit
begins only at a nonterminal that has not been visited in this pass.
`visit` is therefore structurally recursive in a depth, which starts at
the number of nonterminals and cannot run out before all are visited.
-/

namespace GrammarAnalysis

/-- **A part of a set**, given the sets of all nonterminals. -/
inductive Contribution where
  /-- A fixed set. -/
  | known (set : TerminalSet)
  /-- The set of another nonterminal. -/
  | inherit (source : Nonterminal)
  /-- The set of another nonterminal without the marker terminal, and,
  only if the marker is in it, the contribution `rest` as well. -/
  | through (source : Nonterminal) (rest : Contribution)
deriving DecidableEq, Repr

/-- One set for every nonterminal. -/
structure SetTable where
  /-- The sets, by nonterminal number. -/
  sets : Array TerminalSet
deriving DecidableEq, Repr

namespace SetTable

/-- The table of `size` sets without members. -/
def blank (size : Nat) : SetTable := ⟨Array.replicate size ∅⟩

/-- The set of a nonterminal. -/
def get (table : SetTable) (x : Nonterminal) : TerminalSet :=
  (table.sets[x.index]?).getD ∅

/-- The table with another set for one nonterminal. -/
def set (table : SetTable) (x : Nonterminal) (s : TerminalSet) : SetTable :=
  ⟨table.sets.setIfInBounds x.index s⟩

theorem get_set_self {table : SetTable} {x : Nonterminal} (s : TerminalSet)
    (h : x.index < table.sets.size) : (table.set x s).get x = s := by
  simp [get, set, h]

theorem get_set_of_ne {table : SetTable} {x y : Nonterminal} (s : TerminalSet) (h : x ≠ y) :
    (table.set x s).get y = table.get y := by
  have hne : x.index ≠ y.index := by
    intro he
    exact h (by cases x; cases y; exact congrArg Nonterminal.mk he)
  simp [get, set, hne]

@[simp] theorem get_blank (size : Nat) (x : Nonterminal) : (blank size).get x = ∅ := by
  unfold get blank
  rw [Array.getElem?_replicate]
  split <;> rfl

end SetTable

/-- **A system of inclusions.** -/
structure SetSystem where
  /-- What every nonterminal's set must include, by nonterminal
  number. -/
  contributions : List (List Contribution)
  /-- The terminal at which `Contribution.through` decides. -/
  marker : Terminal
  /-- The number of terminals that can be members. -/
  alphabet : Nat
deriving DecidableEq, Repr

/-- A solved system. -/
structure Solution where
  /-- The solution. -/
  table : SetTable
  /-- The number of passes that were made, the last one, which changed
  nothing, included. -/
  passes : Nat
deriving DecidableEq, Repr

namespace SetSystem

/-- The number of sets. -/
def size (sys : SetSystem) : Nat := sys.contributions.length

/-- What the set of `x` must include. -/
def of (sys : SetSystem) (x : Nonterminal) : List Contribution :=
  (sys.contributions[x.index]?).getD []

/-- **A pass under way.** -/
structure Pass where
  /-- The sets so far. -/
  table : SetTable
  /-- The nonterminals whose visit has begun, the latest one first. -/
  visited : List Nonterminal
  /-- Whether some set has been enlarged. -/
  changed : Bool
deriving DecidableEq, Repr

/-- Collects one contribution into `collected`; `visit` is applied to a
nonterminal before its set is read. -/
def collect (marker : Terminal) (visit : Nonterminal → Pass → Pass) :
    Contribution → Pass × TerminalSet → Pass × TerminalSet
  | .known set, (pass, collected) => (pass, collected ∪ set)
  | .inherit source, (pass, collected) =>
    let pass := visit source pass
    (pass, collected ∪ pass.table.get source)
  | .through source rest, (pass, collected) =>
    let pass := visit source pass
    let set := pass.table.get source
    let collected := collected ∪ set.erase marker
    if marker ∈ set then collect marker visit rest (pass, collected) else (pass, collected)

/-- Writes a collected set into the table, if it is another set than the
table holds. -/
def Pass.write (pass : Pass) (x : Nonterminal) (collected : TerminalSet) : Pass :=
  if collected = pass.table.get x then pass
  else { pass with table := pass.table.set x collected, changed := true }

/-- **Visits a nonterminal**, unless it has been visited in this pass. -/
def visit (sys : SetSystem) : Nat → Nonterminal → Pass → Pass
  | 0, _, pass => pass
  | depth + 1, x, pass =>
    if x ∈ pass.visited then pass
    else
      let entered := { pass with visited := x :: pass.visited }
      let (left, collected) := (sys.of x).foldl
        (fun state c => collect sys.marker (visit sys depth) c state)
        (entered, entered.table.get x)
      left.write x collected

/-- One pass over all nonterminals. -/
def pass (sys : SetSystem) (table : SetTable) : Pass :=
  ((List.range sys.size).map Nonterminal.mk).foldl
    (fun p x => sys.visit sys.size x p) ⟨table, [], false⟩

/-- Repeats passes, at most `bound` more, until one changes nothing;
`done` passes have been made. -/
def iterate (sys : SetSystem) : (bound : Nat) → (done : Nat) → SetTable → Solution
  | 0, done, table => ⟨table, done⟩
  | bound + 1, done, table =>
    let p := sys.pass table
    if p.changed then sys.iterate bound (done + 1) p.table else ⟨p.table, done + 1⟩

/-- **The least solution above a starting table.** Every pass but the
last adds a member to some set, which bounds their number. -/
def solve (sys : SetSystem) (start : SetTable) : Solution :=
  sys.iterate (sys.size * sys.alphabet + 1) 0 start

end SetSystem

end GrammarAnalysis
