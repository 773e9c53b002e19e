import GrammarAnalysis.Symbol

/-!
# Sets of terminals

A set of terminals is a natural number whose bit `n` says whether
terminal `n` is a member. Two sets with the same members are therefore
equal (`ext_mem`), and the analyses may compare sets by `=`.

Every operation has one lemma on its members, and nothing else about the
bits is used outside this file. The list of members is in ascending
order.
-/

namespace GrammarAnalysis

/-- **A finite set of terminals.** -/
structure TerminalSet where
  /-- Bit `n` is set when terminal `n` is a member. -/
  bits : Nat
deriving DecidableEq, Repr

namespace TerminalSet

/-- Whether a terminal is a member. -/
def contains (s : TerminalSet) (t : Terminal) : Bool :=
  s.bits.testBit t.index

instance : Membership Terminal TerminalSet :=
  ⟨fun s t => s.contains t = true⟩

instance (t : Terminal) (s : TerminalSet) : Decidable (t ∈ s) :=
  inferInstanceAs (Decidable (s.contains t = true))

/-- The set without members. -/
def empty : TerminalSet := ⟨0⟩

instance : EmptyCollection TerminalSet := ⟨empty⟩

instance : Inhabited TerminalSet := ⟨∅⟩

/-- The set with one member. -/
def single (t : Terminal) : TerminalSet := ⟨1 <<< t.index⟩

/-- The members of either set. -/
def union (a b : TerminalSet) : TerminalSet := ⟨a.bits ||| b.bits⟩

instance : Union TerminalSet := ⟨union⟩

/-- The members of both sets. -/
def inter (a b : TerminalSet) : TerminalSet := ⟨a.bits &&& b.bits⟩

instance : Inter TerminalSet := ⟨inter⟩

/-- The set without one terminal. -/
def erase (s : TerminalSet) (t : Terminal) : TerminalSet :=
  if t ∈ s then ⟨s.bits ^^^ 1 <<< t.index⟩ else s

/-- The members in ascending order. -/
def toList (s : TerminalSet) : List Terminal :=
  ((List.range (s.bits.log2 + 1)).map Terminal.mk).filter s.contains

theorem mem_def {t : Terminal} {s : TerminalSet} : t ∈ s ↔ s.bits.testBit t.index = true :=
  Iff.rfl

/-- **Sets with the same members are equal.** -/
theorem ext_mem {a b : TerminalSet} (h : ∀ t, t ∈ a ↔ t ∈ b) : a = b := by
  have hbits : a.bits = b.bits := by
    refine Nat.eq_of_testBit_eq fun i => ?_
    have hi := h ⟨i⟩
    rw [mem_def, mem_def] at hi
    exact Bool.eq_iff_iff.mpr hi
  cases a
  cases b
  exact congrArg TerminalSet.mk hbits

@[simp] theorem not_mem_empty (t : Terminal) : ¬ t ∈ (∅ : TerminalSet) := by
  show ¬ (Nat.testBit 0 t.index = true)
  simp

@[simp] theorem mem_single {t u : Terminal} : t ∈ single u ↔ t = u := by
  cases t
  cases u
  simp [mem_def, single, Nat.one_shiftLeft, Nat.testBit_two_pow, eq_comm]

@[simp] theorem mem_union {t : Terminal} {a b : TerminalSet} : t ∈ a ∪ b ↔ t ∈ a ∨ t ∈ b := by
  show (a.bits ||| b.bits).testBit t.index = true ↔ _
  simp [mem_def, Nat.testBit_or]

@[simp] theorem mem_inter {t : Terminal} {a b : TerminalSet} : t ∈ a ∩ b ↔ t ∈ a ∧ t ∈ b := by
  show (a.bits &&& b.bits).testBit t.index = true ↔ _
  simp [mem_def, Nat.testBit_and]

@[simp] theorem mem_erase {t u : Terminal} {s : TerminalSet} :
    t ∈ s.erase u ↔ t ∈ s ∧ t ≠ u := by
  cases t with
  | mk i =>
  cases u with
  | mk j =>
  unfold erase
  split
  · rename_i hu
    rw [mem_def] at hu
    by_cases hij : i = j
    · subst hij
      simp_all [mem_def, Nat.testBit_xor, Nat.one_shiftLeft]
    · have hji : ¬ j = i := fun h => hij h.symm
      simp [mem_def, Nat.testBit_xor, Nat.one_shiftLeft, hij, hji]
  · rename_i hu
    constructor
    · intro ht
      refine ⟨ht, fun he => hu (he ▸ ht)⟩
    · exact fun ht => ht.1

/-- A terminal is listed exactly when it is a member. -/
@[simp] theorem mem_toList {t : Terminal} {s : TerminalSet} : t ∈ s.toList ↔ t ∈ s := by
  unfold toList
  rw [List.mem_filter, List.mem_map]
  constructor
  · exact fun h => h.2
  · intro h
    refine ⟨⟨t.index, ?_, rfl⟩, h⟩
    rw [List.mem_range]
    have hle : 2 ^ t.index ≤ s.bits := Nat.ge_two_pow_of_testBit h
    have hne : s.bits ≠ 0 := by
      have := Nat.two_pow_pos t.index
      omega
    exact Nat.lt_succ_of_le ((Nat.le_log2 hne).mpr hle)

/-- The members are listed in ascending order. -/
theorem pairwise_toList (s : TerminalSet) :
    s.toList.Pairwise (fun t u => t.index < u.index) := by
  have hrange : ((List.range (s.bits.log2 + 1)).map Terminal.mk).Pairwise
      (fun t u => t.index < u.index) :=
    List.pairwise_map.mpr List.pairwise_lt_range
  exact hrange.filter s.contains

theorem nodup_toList (s : TerminalSet) : s.toList.Nodup :=
  s.pairwise_toList.imp fun hlt heq => Nat.ne_of_lt hlt (congrArg Terminal.index heq)

end TerminalSet

end GrammarAnalysis
