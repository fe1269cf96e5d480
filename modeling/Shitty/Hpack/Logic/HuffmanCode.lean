import Mathlib.Data.List.Pairwise
import Shitty.Hpack.HuffTables
import Shitty.Lib.PrefixCode

/-!
# The code of RFC 7541 appendix B

`etable` is a prefix code. In canonical order (by length, then by octet) the code words,
aligned to 30 bits, are consecutive disjoint intervals; a word that began another would
have to overlap it. Only the order and the bounds are checked on the table itself, so
that no pair of code words has to be compared with any other.
-/

namespace Shitty.Hpack

open Lib Lib.Bits

/-- The table entry of an octet. -/
def encvOf (s : Octet) : Encv := etable.getD s.toNat default

/-- The code word of an octet. -/
def huffmanWord (s : Octet) : List Bool := Bits.ofNat (encvOf s).bits (encvOf s).value

@[simp] theorem length_huffmanWord (s : Octet) : (huffmanWord s).length = (encvOf s).bits := by
  simp [huffmanWord]

/-! ## Bounds -/

theorem etable_length : etable.length = 256 := by decide +kernel

theorem etable_bounds :
    etable.all (fun e => decide (5 ≤ e.bits) && decide (e.bits ≤ 30) &&
      decide (e.value + 1 < 2 ^ e.bits)) = true := by
  decide +kernel

theorem encvOf_eq_getElem (s : Octet) :
    ∃ h : s.toNat < etable.length, encvOf s = etable[s.toNat] := by
  have h : s.toNat < etable.length := by
    rw [etable_length]
    exact s.isLt
  exact ⟨h, by simp [encvOf, List.getD, h]⟩

/-- What has been checked for every entry, with its index. -/
theorem encvOf_all {check : Encv → Nat → Bool}
    (h : etable.zipIdx.all (fun p => check p.1 p.2) = true) (s : Octet) :
    check (encvOf s) s.toNat = true := by
  obtain ⟨hlt, he⟩ := encvOf_eq_getElem s
  have hmem := List.mk_mem_zipIdx_iff_getElem?.mpr (List.getElem?_eq_getElem hlt)
  rw [he]
  exact List.all_eq_true.mp h _ hmem

/-- Code words have 5 to 30 bits, and none consists of ones only. -/
theorem encvOf_bounds (s : Octet) :
    5 ≤ (encvOf s).bits ∧ (encvOf s).bits ≤ 30 ∧ (encvOf s).value + 1 < 2 ^ (encvOf s).bits := by
  obtain ⟨h, he⟩ := encvOf_eq_getElem s
  have hall := List.all_eq_true.mp etable_bounds _ (List.getElem_mem h)
  rw [← he] at hall
  simpa [and_assoc] using hall

/-! ## Disjoint intervals -/

/-- The 30-bit words that begin with the code word are those from `low` up to
`high`. -/
def Encv.low (e : Encv) : Nat := e.value * 2 ^ (30 - e.bits)

def Encv.high (e : Encv) : Nat := (e.value + 1) * 2 ^ (30 - e.bits)

/-- Octets with their entries, by length of the code word. -/
def canonical : List (Encv × Nat) :=
  (List.range 26).flatMap fun k => etable.zipIdx.filter fun p => p.1.bits == k + 5

/-- Every interval starts no earlier than the previous one ends. -/
def consecutive : Nat → List (Encv × Nat) → Bool
  | _, [] => true
  | start, p :: ps => decide (start ≤ p.1.low) && consecutive p.1.high ps

theorem canonical_consecutive : consecutive 0 canonical = true := by decide +kernel

theorem Encv.low_lt_high (e : Encv) : e.low < e.high :=
  Nat.mul_lt_mul_of_pos_right (Nat.lt_succ_self _) (Nat.two_pow_pos _)

theorem consecutive_bound {ps : List (Encv × Nat)} :
    ∀ {start : Nat}, consecutive start ps = true → ∀ q ∈ ps, start ≤ q.1.low := by
  induction ps with
  | nil => simp
  | cons p ps ih =>
      intro start h q hq
      simp only [consecutive, Bool.and_eq_true, decide_eq_true_eq] at h
      rcases List.mem_cons.mp hq with rfl | hq
      · exact h.1
      · have := ih h.2 q hq
        have := p.1.low_lt_high
        omega

theorem consecutive_pairwise {ps : List (Encv × Nat)} :
    ∀ {start : Nat}, consecutive start ps = true →
      ps.Pairwise fun p q => p.1.high ≤ q.1.low := by
  induction ps with
  | nil => simp
  | cons p ps ih =>
      intro start h
      simp only [consecutive, Bool.and_eq_true, decide_eq_true_eq] at h
      exact List.pairwise_cons.mpr ⟨consecutive_bound h.2, ih h.2⟩

theorem mem_canonical (s : Octet) : (encvOf s, s.toNat) ∈ canonical := by
  obtain ⟨h, he⟩ := encvOf_eq_getElem s
  have hb := encvOf_bounds s
  refine List.mem_flatMap.mpr ⟨(encvOf s).bits - 5, List.mem_range.mpr (by omega), ?_⟩
  refine List.mem_filter.mpr ⟨?_, by simp; omega⟩
  rw [he]
  exact List.mk_mem_zipIdx_iff_getElem?.mpr (List.getElem?_eq_getElem h)

/-- The codes of different octets, padded to thirty bits, have disjoint intervals. -/
theorem intervals_disjoint {a b : Octet} (hab : a ≠ b) :
    (encvOf a).high ≤ (encvOf b).low ∨ (encvOf b).high ≤ (encvOf a).low := by
  have hne : ((encvOf a, a.toNat) : Encv × Nat) ≠ (encvOf b, b.toNat) := by
    intro h
    exact hab (BitVec.eq_of_toNat_eq (Prod.ext_iff.mp h).2)
  have hsymm : Std.Symm fun p q : Encv × Nat =>
      p.1.high ≤ q.1.low ∨ q.1.high ≤ p.1.low := ⟨fun _ _ h => h.symm⟩
  have hall := (consecutive_pairwise canonical_consecutive).imp
    fun {p q} h => (Or.inl h : p.1.high ≤ q.1.low ∨ q.1.high ≤ p.1.low)
  exact hall.forall (mem_canonical a) (mem_canonical b) hne

/-- A code word that begins another has its interval around the other's. -/
theorem interval_around {a b : Octet} (h : huffmanWord a <+: huffmanWord b) :
    (encvOf a).low ≤ (encvOf b).low ∧ (encvOf b).low < (encvOf a).high := by
  have ha := encvOf_bounds a
  have hb := encvOf_bounds b
  have hlen : (encvOf a).bits ≤ (encvOf b).bits := by simpa using h.length_le
  have htake := List.prefix_iff_eq_take.mp h
  rw [length_huffmanWord, huffmanWord, huffmanWord, take_ofNat hlen] at htake
  have hval : (encvOf a).value = (encvOf b).value / 2 ^ ((encvOf b).bits - (encvOf a).bits) := by
    apply ofNat_inj _ _ htake
    · omega
    · rw [Nat.div_lt_iff_lt_mul (Nat.two_pow_pos _), ← Nat.pow_add,
        show (encvOf a).bits + ((encvOf b).bits - (encvOf a).bits) = (encvOf b).bits by omega]
      omega
  have hscale : 2 ^ (30 - (encvOf a).bits) =
      2 ^ ((encvOf b).bits - (encvOf a).bits) * 2 ^ (30 - (encvOf b).bits) := by
    rw [← Nat.pow_add]
    congr 1
    omega
  have hpos := Nat.two_pow_pos ((encvOf b).bits - (encvOf a).bits)
  have hdiv := Nat.div_add_mod (encvOf b).value (2 ^ ((encvOf b).bits - (encvOf a).bits))
  have hmod := Nat.mod_lt (encvOf b).value hpos
  unfold Encv.low Encv.high
  rw [hscale, ← Nat.mul_assoc, ← Nat.mul_assoc]
  constructor
  · apply Nat.mul_le_mul_right
    rw [hval]
    exact Nat.div_mul_le_self _ _
  · apply Nat.mul_lt_mul_of_pos_right _ (Nat.two_pow_pos _)
    rw [hval, Nat.add_mul, Nat.one_mul, Nat.mul_comm]
    omega

/-- The Huffman code of HPACK: the words of the table, none of which begins another. -/
def huffmanCode : PrefixCode Octet where
  code := huffmanWord
  prefixFree := by
    intro a b h
    by_contra hab
    have hin := interval_around h
    have hb := (encvOf b).low_lt_high
    rcases intervals_disjoint hab with hd | hd <;> omega

end Shitty.Hpack
