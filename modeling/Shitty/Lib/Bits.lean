import Mathlib.Data.List.Basic
import Mathlib.Tactic.Ring

/-!
# Bit strings, most significant bit first

Numbers and octets as lists of bits, and slices of an infinite bit stream. A finite bit
string followed by ones forever is `extend`; codes are read off such a stream with
`slice`. Strings of bits are what codes are made of, and slices are how a reader sees
them; the lemmas take slices apart at any place, and put them together.
-/

namespace Lib.Bits

/-- The `n` low bits of `v`, most significant first. -/
def ofNat (n v : Nat) : List Bool :=
  (List.range n).map fun i => v.testBit (n - 1 - i)

@[simp] theorem length_ofNat (n v : Nat) : (ofNat n v).length = n := by
  simp [ofNat]

@[simp] theorem ofNat_zero (v : Nat) : ofNat 0 v = [] := rfl

theorem getElem_ofNat (n v i : Nat) (h : i < (ofNat n v).length) :
    (ofNat n v)[i] = v.testBit (n - 1 - i) := by
  simp [ofNat]

/-- The high part of a number comes first. -/
theorem ofNat_add (m k v : Nat) :
    ofNat (m + k) v = ofNat m (v >>> k) ++ ofNat k v := by
  apply List.ext_getElem
  · simp
  · intro i h1 h2
    simp only [length_ofNat] at h1
    by_cases hi : i < m
    · rw [List.getElem_append_left (by simpa using hi), getElem_ofNat, getElem_ofNat,
        Nat.testBit_shiftRight]
      congr 1
      omega
    · rw [List.getElem_append_right (by simpa using hi), getElem_ofNat, getElem_ofNat,
        length_ofNat]
      congr 1
      omega

/-- Two numbers that agree below `2 ^ n` have the same `n` low bits. -/
theorem ofNat_congr {n v w : Nat} (h : ∀ j < n, v.testBit j = w.testBit j) :
    ofNat n v = ofNat n w := by
  apply List.ext_getElem
  · simp
  · intro i h1 _
    simp only [length_ofNat] at h1
    rw [getElem_ofNat, getElem_ofNat]
    exact h _ (by omega)

theorem ofNat_mod (n v : Nat) : ofNat n (v % 2 ^ n) = ofNat n v := by
  apply ofNat_congr
  intro j hj
  simp [hj]

/-- The front of a bit string is the high part of the number. -/
theorem take_ofNat {n m : Nat} (h : n ≤ m) (v : Nat) :
    (ofNat m v).take n = ofNat n (v / 2 ^ (m - n)) := by
  obtain ⟨k, rfl⟩ := Nat.exists_eq_add_of_le h
  rw [ofNat_add, List.take_append_of_le_length (by simp), List.take_of_length_le (by simp),
    Nat.add_sub_cancel_left, Nat.shiftRight_eq_div_pow]

theorem drop_ofNat (m k v : Nat) : (ofNat (m + k) v).drop m = ofNat k v := by
  rw [ofNat_add, List.drop_append_of_le_length (by simp), List.drop_eq_nil_of_le (by simp),
    List.nil_append]

/-- Two bit strings next to each other. -/
theorem ofNat_append (m k a : Nat) {b : Nat} (hb : b < 2 ^ k) :
    ofNat m a ++ ofNat k b = ofNat (m + k) (a * 2 ^ k + b) := by
  have hhigh : (a * 2 ^ k + b) >>> k = a := by
    rw [Nat.shiftRight_eq_div_pow, Nat.add_comm, Nat.add_mul_div_right _ _ (Nat.two_pow_pos k),
      Nat.div_eq_of_lt hb, Nat.zero_add]
  have hlow : ofNat k (a * 2 ^ k + b) = ofNat k b := by
    rw [← ofNat_mod k (a * 2 ^ k + b), Nat.add_comm, Nat.add_mul_mod_self_right,
      ofNat_mod]
  rw [ofNat_add, hhigh, hlow]

/-- Bit strings of one length are told apart by their numbers. -/
theorem ofNat_inj {n v w : Nat} (hv : v < 2 ^ n) (hw : w < 2 ^ n)
    (h : ofNat n v = ofNat n w) : v = w := by
  apply Nat.eq_of_testBit_eq
  intro j
  by_cases hj : j < n
  · have hi : n - 1 - j < (ofNat n v).length := by
      rw [length_ofNat]
      omega
    have hg := getElem_ofNat n v (n - 1 - j) hi
    simp only [h] at hg
    rw [getElem_ofNat, show n - 1 - (n - 1 - j) = j by omega] at hg
    exact hg.symm
  · have hle : 2 ^ n ≤ 2 ^ j := Nat.pow_le_pow_right (by omega) (by omega)
    rw [Nat.testBit_lt_two_pow (by omega), Nat.testBit_lt_two_pow (by omega)]

theorem replicate_eq_ofNat (n : Nat) : List.replicate n true = ofNat n (2 ^ n - 1) := by
  apply List.ext_getElem
  · simp
  · intro i h1 h2
    simp only [List.length_replicate] at h1
    rw [List.getElem_replicate, getElem_ofNat, Nat.testBit_two_pow_sub_one]
    simp
    omega

/-! ## Octets -/

/-- The bits of an octet, the most significant of them first. -/
def ofOctet (b : BitVec 8) : List Bool := ofNat 8 b.toNat

/-- The bits of an octet string. -/
def ofOctets (bs : List (BitVec 8)) : List Bool := bs.flatMap ofOctet

@[simp] theorem length_ofOctet (b : BitVec 8) : (ofOctet b).length = 8 := by
  simp [ofOctet]

theorem getElem_ofOctet (b : BitVec 8) (i : Nat) (h : i < (ofOctet b).length) :
    (ofOctet b)[i] = b.getMsbD i := by
  have hi : i < 8 := by simpa using h
  rw [BitVec.getMsbD_eq_getLsbD]
  simp [ofOctet, getElem_ofNat, BitVec.testBit_toNat, hi]

@[simp] theorem ofOctets_nil : ofOctets [] = [] := rfl

@[simp] theorem ofOctets_cons (b : BitVec 8) (bs : List (BitVec 8)) :
    ofOctets (b :: bs) = ofOctet b ++ ofOctets bs := rfl

@[simp] theorem ofOctets_append (as bs : List (BitVec 8)) :
    ofOctets (as ++ bs) = ofOctets as ++ ofOctets bs := by
  simp [ofOctets]

@[simp] theorem length_ofOctets (bs : List (BitVec 8)) :
    (ofOctets bs).length = 8 * bs.length := by
  induction bs with
  | nil => rfl
  | cons b bs ih =>
      simp only [ofOctets_cons, List.length_append, length_ofOctet, ih, List.length_cons]
      omega

/-- An octet is determined by its bits. -/
theorem ofOctet_eq_iff (b : BitVec 8) (l : List Bool) (hl : l.length = 8) :
    ofOctet b = l ↔ ∀ i, (h : i < 8) → b.getMsbD i = l[i] := by
  constructor
  · intro h i hi
    subst h
    rw [getElem_ofOctet]
  · intro h
    apply List.ext_getElem
    · simp [hl]
    · intro i h1 h2
      rw [getElem_ofOctet]
      exact h i (by simpa using h1)

/-- Bits pushed to the left end of an octet. -/
theorem ofOctet_shiftLeft {k : Nat} (hk : k ≤ 8) (v : Nat) :
    ofOctet (BitVec.ofNat 8 (v <<< k)) = ofNat (8 - k) v ++ List.replicate k false := by
  obtain ⟨n, hn⟩ : ∃ n, 8 = n + k := ⟨8 - k, by omega⟩
  have hzero : List.replicate k false = ofNat k 0 := by
    apply List.ext_getElem
    · simp
    · intro i h1 h2
      rw [List.getElem_replicate, getElem_ofNat, Nat.zero_testBit]
  rw [ofOctet, BitVec.toNat_ofNat, ofNat_mod, hzero, ofNat_append _ _ _ (Nat.two_pow_pos k),
    Nat.shiftLeft_eq, Nat.add_zero, Nat.sub_add_cancel hk]

/-- A number that fits in the right end of an octet. -/
theorem ofOctet_of_lt {k w : Nat} (hk : k ≤ 8) (hw : w < 2 ^ k) :
    ofOctet (BitVec.ofNat 8 w) = List.replicate (8 - k) false ++ ofNat k w := by
  have hzero : List.replicate (8 - k) false = ofNat (8 - k) 0 := by
    apply List.ext_getElem
    · simp
    · intro i h1 h2
      rw [List.getElem_replicate, getElem_ofNat, Nat.zero_testBit]
  rw [ofOctet, BitVec.toNat_ofNat, ofNat_mod, hzero, ofNat_append _ _ _ hw, Nat.zero_mul,
    Nat.zero_add, Nat.sub_add_cancel hk]

/-- The bits of `p ||| q`. -/
theorem ofOctet_or (p q : BitVec 8) :
    ofOctet (p ||| q) = List.zipWith (· || ·) (ofOctet p) (ofOctet q) := by
  apply List.ext_getElem
  · simp
  · intro i h1 h2
    rw [List.getElem_zipWith, getElem_ofOctet, getElem_ofOctet, getElem_ofOctet,
      BitVec.getMsbD_or]

theorem zipWith_or_false (l : List Bool) (k : Nat) (h : l.length = k) :
    List.zipWith (· || ·) l (List.replicate k false) = l ∧
      List.zipWith (· || ·) (List.replicate k false) l = l := by
  subst h
  induction l with
  | nil => simp
  | cons b l ih => simp [List.replicate_succ, ih.1, ih.2]

/-- Filling the blank right end of an octet. -/
theorem ofOctet_or_fill {p q : BitVec 8} {a b : List Bool}
    (hp : ofOctet p = a ++ List.replicate b.length false)
    (hq : ofOctet q = List.replicate a.length false ++ b) : ofOctet (p ||| q) = a ++ b := by
  rw [ofOctet_or, hp, hq, List.zipWith_append (by simp), (zipWith_or_false a _ rfl).1,
    (zipWith_or_false b _ rfl).2]

/-! ## Streams -/

/-- A finite bit string followed by ones forever. -/
def extend (l : List Bool) : Nat → Bool := fun i => l.getD i true

/-- The `n` bits of the stream `s` from offset `o` on. -/
def slice (s : Nat → Bool) (o n : Nat) : List Bool :=
  (List.range n).map fun i => s (o + i)

@[simp] theorem length_slice (s : Nat → Bool) (o n : Nat) : (slice s o n).length = n := by
  simp [slice]

theorem getElem_slice (s : Nat → Bool) (o n i : Nat) (h : i < (slice s o n).length) :
    (slice s o n)[i] = s (o + i) := by
  simp [slice]

theorem slice_add (s : Nat → Bool) (o m k : Nat) :
    slice s o (m + k) = slice s o m ++ slice s (o + m) k := by
  unfold slice
  rw [List.range_add, List.map_append, List.map_map]
  congr 1
  apply List.map_congr_left
  intro i _
  simp [Nat.add_assoc]

theorem take_slice (s : Nat → Bool) (o : Nat) {m n : Nat} (h : m ≤ n) :
    (slice s o n).take m = slice s o m := by
  obtain ⟨k, rfl⟩ := Nat.exists_eq_add_of_le h
  rw [slice_add, List.take_append_of_le_length (by simp), List.take_of_length_le (by simp)]

theorem drop_slice (s : Nat → Bool) (o m k : Nat) :
    (slice s o (m + k)).drop m = slice s (o + m) k := by
  rw [slice_add, List.drop_append_of_le_length (by simp), List.drop_eq_nil_of_le (by simp),
    List.nil_append]

/-- Two numbers read next to each other. -/
theorem slice_ofNat_append {s : Nat → Bool} {o m k a b : Nat}
    (ha : slice s o m = ofNat m a) (hb : slice s (o + m) k = ofNat k b) (hlt : b < 2 ^ k) :
    slice s o (m + k) = ofNat (m + k) (a * 2 ^ k + b) := by
  rw [slice_add, ha, hb, ofNat_append m k a hlt]

/-- A slice equals a given string exactly when they agree bit by bit. -/
theorem slice_eq_iff (s : Nat → Bool) (o : Nat) (l : List Bool) :
    slice s o l.length = l ↔ ∀ i, (h : i < l.length) → s (o + i) = l[i] := by
  constructor
  · intro h i hi
    have hi' : i < (slice s o l.length).length := by simpa using hi
    rw [← getElem_slice s o l.length i hi']
    simp only [h]
  · intro h
    apply List.ext_getElem
    · simp
    · intro i h1 h2
      rw [getElem_slice, h i h2]

theorem extend_of_lt {l : List Bool} {i : Nat} (h : i < l.length) : extend l i = l[i] := by
  simp [extend, List.getD, h]

theorem extend_of_le {l : List Bool} {i : Nat} (h : l.length ≤ i) : extend l i = true := by
  simp [extend, List.getD, h]

theorem extend_append_left {a : List Bool} (b : List Bool) {i : Nat} (h : i < a.length) :
    extend (a ++ b) i = a[i] := by
  rw [extend_of_lt (by simp; omega), List.getElem_append_left h]

theorem extend_append_right (a b : List Bool) (i : Nat) :
    extend (a ++ b) (a.length + i) = extend b i := by
  by_cases h : i < b.length
  · rw [extend_of_lt (by simpa using h), extend_of_lt h,
      List.getElem_append_right (by omega)]
    simp
  · rw [extend_of_le (by simpa using h), extend_of_le (by omega)]

/-- A stretch of the extended string that lies inside the string. -/
theorem slice_extend_inside (a b c : List Bool) :
    slice (extend (a ++ b ++ c)) a.length b.length = b := by
  rw [slice_eq_iff]
  intro i hi
  rw [extend_of_lt (by simp; omega), List.getElem_append_left (by simp; omega),
    List.getElem_append_right (by omega)]
  simp

end Lib.Bits
