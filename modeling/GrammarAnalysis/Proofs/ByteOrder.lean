import Mathlib.Data.String.Basic

/-!
# The order of texts and the order of their bytes

Texts are compared character by character. In UTF-8 this is the comparison
byte by byte: the encoding keeps the order of the code points
(`utf8EncodeChar_append_lt`), and therefore the order of texts
(`utf8Bytes_lt`).

A character is encoded by a leading byte and `k` bytes that carry six bits
each. Of two characters with the same `k` the leading bytes and then the
others are the digits of the code points, the highest first. A greater `k` is
only used for code points that do not fit, and its leading bytes are greater
than all those of a smaller one.
-/

namespace GrammarAnalysis

/-- **The bytes of a text** in UTF-8. -/
def utf8Bytes (s : String) : List UInt8 :=
  s.toUTF8.data.toList

section CodePoints

variable {m n k l : Nat} {a b : UInt8} {u v : List UInt8} {c d : Char}

/-- The last `k` bytes of the encoding of a code point. -/
def continuation : Nat → Nat → List UInt8
  | 0, _ => []
  | k + 1, n => UInt8.ofNat (n / 64 ^ k % 64 + 128) :: continuation k n

/-- How many leading bytes there are for `k` bytes behind them. -/
def leadCount : Nat → Nat
  | 0 => 0x80
  | 1 => 0x20
  | 2 => 0x10
  | _ => 0x08

/-- The first leading byte for `k` bytes behind it. -/
def leadBase : Nat → Nat
  | 0 => 0x00
  | 1 => 0xC0
  | 2 => 0xE0
  | _ => 0xF0

theorem ofNat_lt_ofNat (hn : n < 256) (h : m < n) : UInt8.ofNat m < UInt8.ofNat n := by
  rw [UInt8.lt_iff_toNat_lt, UInt8.toNat_ofNat', UInt8.toNat_ofNat']
  omega

/-- Leading bytes are bytes. -/
theorem leadCount_add_leadBase_le (hk : k < 4) : leadCount k + leadBase k ≤ 256 := by
  revert k
  decide

/-- The leading bytes for more bytes come after those for fewer. -/
theorem leadCount_add_leadBase_le_leadBase (hkl : k < l) (hl : l < 4) :
    leadCount k + leadBase k ≤ leadBase l := by
  have h : ∀ l < 4, ∀ k < l, leadCount k + leadBase k ≤ leadBase l := by decide
  exact h l hl k hkl

/-- **The parts of an encoded character.** With fewer bytes the code point
would not fit. -/
theorem exists_utf8EncodeChar_eq (c : Char) : ∃ k < 4, c.toNat / 64 ^ k < leadCount k
    ∧ (∀ j < k, leadCount j ≤ c.toNat / 64 ^ j)
    ∧ String.utf8EncodeChar c
      = UInt8.ofNat (c.toNat / 64 ^ k + leadBase k) :: continuation k c.toNat := by
  have hvalid : c.val.toNat < 0x110000 := by
    have h := c.valid
    simp only [UInt32.isValidChar, Nat.isValidChar] at h
    omega
  unfold String.utf8EncodeChar Char.toNat
  generalize c.val.toNat = n at hvalid
  have hmore : ∀ k bound, (∀ j < k, leadCount j * 64 ^ j ≤ bound) → bound ≤ n →
      ∀ j < k, leadCount j ≤ n / 64 ^ j := fun k bound hbound hn j hj =>
    (Nat.le_div_iff_mul_le (Nat.pow_pos (by decide))).mpr ((hbound j hj).trans hn)
  simp only
  split_ifs with h1 h2 h3
  · refine ⟨0, by decide, ?_, hmore 0 0 (by decide) (by omega), ?_⟩
    · show n / 1 < 0x80
      omega
    · simp [leadBase, continuation]
  · have hlead : n / 64 < 0x20 := by omega
    refine ⟨1, by decide, hlead, hmore 1 0x80 (by decide) (by omega), ?_⟩
    rw [Nat.mod_eq_of_lt hlead]
    simp [leadBase, continuation]
  · have hlead : n / 4096 < 0x10 := by omega
    refine ⟨2, by decide, hlead, hmore 2 0x800 (by decide) (by omega), ?_⟩
    rw [Nat.mod_eq_of_lt hlead]
    simp [leadBase, continuation]
  · have hlead : n / 262144 < 0x08 := by omega
    refine ⟨3, by decide, hlead, hmore 3 0x10000 (by decide) (by omega), ?_⟩
    rw [Nat.mod_eq_of_lt hlead]
    simp [leadBase, continuation]

/-- **Bytes as digits**: code points with the same leading byte are compared
by the bytes behind it. -/
theorem cons_continuation_lt (hlt : m < n) (h : a < b ∨ a = b ∧ m / 64 ^ k = n / 64 ^ k) :
    a :: (continuation k m ++ u) < b :: (continuation k n ++ v) := by
  induction k generalizing a b with
  | zero =>
    refine List.cons_lt_cons_iff.mpr (Or.inl (h.resolve_right fun ⟨_, heq⟩ => ?_))
    rw [Nat.pow_zero, Nat.div_one, Nat.div_one] at heq
    exact Nat.ne_of_lt hlt heq
  | succ k ih =>
    obtain h | ⟨rfl, hhigh⟩ := h
    · exact List.cons_lt_cons_iff.mpr (Or.inl h)
    · refine List.cons_lt_cons_iff.mpr (Or.inr ⟨rfl, ih ?_⟩)
      -- the next byte is the lowest digit of what is left of the code point
      have hle : m / 64 ^ k ≤ n / 64 ^ k := Nat.div_le_div_right hlt.le
      rw [Nat.pow_succ, ← Nat.div_div_eq_div_mul, ← Nat.div_div_eq_div_mul] at hhigh
      obtain hdigit | heq := hle.lt_or_eq
      · exact Or.inl (ofNat_lt_ofNat (by omega) (by omega))
      · exact Or.inr ⟨by rw [heq], heq⟩

/-- **A smaller character has a smaller encoding**, whatever comes behind
them. -/
theorem utf8EncodeChar_append_lt (h : c < d) :
    String.utf8EncodeChar c ++ u < String.utf8EncodeChar d ++ v := by
  have hlt : c.toNat < d.toNat := h
  obtain ⟨k, hk, hc, hkc, heqc⟩ := exists_utf8EncodeChar_eq c
  obtain ⟨l, hl, hd, -, heqd⟩ := exists_utf8EncodeChar_eq d
  rw [heqc, heqd, List.cons_append, List.cons_append]
  obtain hkl | rfl | hlk := Nat.lt_trichotomy k l
  · have hbase := leadCount_add_leadBase_le_leadBase hkl hl
    have hbytes := leadCount_add_leadBase_le hl
    refine List.cons_lt_cons_iff.mpr (Or.inl (ofNat_lt_ofNat (by omega) ?_))
    exact (Nat.add_lt_add_right hc _).trans_le (hbase.trans (Nat.le_add_left _ _))
  · have hbytes := leadCount_add_leadBase_le hk
    refine cons_continuation_lt hlt ?_
    obtain hlead | heq := (Nat.div_le_div_right (c := 64 ^ k) hlt.le).lt_or_eq
    · exact Or.inl (ofNat_lt_ofNat (by omega) (by omega))
    · exact Or.inr ⟨by rw [heq], heq⟩
  · -- the smaller character would need more bytes
    have hle : c.toNat / 64 ^ l ≤ d.toNat / 64 ^ l := Nat.div_le_div_right hlt.le
    have hwide := hkc l hlk
    omega

end CodePoints

variable {s t : String}

theorem utf8Bytes_eq_flatMap : utf8Bytes s = s.toList.flatMap String.utf8EncodeChar := by
  rw [utf8Bytes, String.toUTF8, ← String.utf8Encode_toList, List.utf8Encode,
    List.toList_data_toByteArray]

/-- **The order of texts is the order of their bytes.** -/
theorem utf8Bytes_lt (h : s < t) : utf8Bytes s < utf8Bytes t := by
  rw [utf8Bytes_eq_flatMap, utf8Bytes_eq_flatMap]
  rw [String.lt_iff_toList_lt] at h
  generalize s.toList = l at h
  generalize t.toList = m at h
  induction h with
  | @nil d m =>
    have hne : (d :: m).flatMap String.utf8EncodeChar ≠ [] := by simp
    obtain ⟨b, rest, heq⟩ := List.exists_cons_of_ne_nil hne
    rw [heq]
    exact List.nil_lt_cons b rest
  | cons h ih => exact List.append_left_lt ih
  | rel h => exact utf8EncodeChar_append_lt h

/-- The same for lists of texts, which are compared text by text. -/
theorem map_utf8Bytes_lt {l m : List String} (h : l < m) : l.map utf8Bytes < m.map utf8Bytes := by
  induction h with
  | nil => exact List.nil_lt_cons _ _
  | cons h ih => exact List.cons_lt_cons_iff.mpr (Or.inr ⟨rfl, ih⟩)
  | rel h => exact List.cons_lt_cons_iff.mpr (Or.inl (utf8Bytes_lt h))

end GrammarAnalysis
