import Mathlib.Data.List.Basic
import Mathlib.Data.Nat.Digits.Defs
import Mathlib.Tactic.Ring

/-!
# Base-128 continuation coding

Numbers as octets of seven bits, least significant group first, where the top bit of
every octet but the last is set. A string is terminated when its last octet, and no
other one, has the top bit clear. Such strings can be told apart where one ends, which
is what a decoder relies on.
-/

namespace Lib.Varint

/-- The coding of `n` in groups of seven bits, each but the last with a continuation bit. -/
def varint (n : Nat) : List (BitVec 8) :=
  if n < 128 then [BitVec.ofNat 8 n]
  else BitVec.ofNat 8 (128 + n % 128) :: varint (n / 128)

/-- The number a list of seven-bit groups stands for. -/
def value : List (BitVec 8) → Nat
  | [] => 0
  | b :: bs => b.toNat % 128 + 128 * value bs

/-- The top bit is set on every octet but the last. -/
def Terminated : List (BitVec 8) → Prop
  | [] => False
  | [b] => b.toNat < 128
  | b :: c :: bs => 128 ≤ b.toNat ∧ Terminated (c :: bs)

theorem varint_of_lt {n : Nat} (h : n < 128) : varint n = [BitVec.ofNat 8 n] := by
  rw [varint, if_pos h]

theorem varint_of_ge {n : Nat} (h : 128 ≤ n) :
    varint n = BitVec.ofNat 8 (128 + n % 128) :: varint (n / 128) := by
  rw [varint, if_neg (by omega)]

theorem varint_ne_nil (n : Nat) : varint n ≠ [] := by
  rw [varint]
  split <;> simp

theorem length_varint_pos (n : Nat) : 0 < (varint n).length :=
  List.length_pos_of_ne_nil (varint_ne_nil n)

/-- Reading the groups back gives the number. -/
theorem value_varint (n : Nat) : value (varint n) = n := by
  induction n using varint.induct with
  | case1 n h =>
      rw [varint_of_lt h]
      simp only [value, BitVec.toNat_ofNat]
      omega
  | case2 n h ih =>
      rw [varint_of_ge (by omega), value, ih, BitVec.toNat_ofNat]
      omega

theorem terminated_cons {b : BitVec 8} {bs : List (BitVec 8)} (hb : 128 ≤ b.toNat)
    (h : Terminated bs) : Terminated (b :: bs) := by
  cases bs with
  | nil => exact absurd h (by simp [Terminated])
  | cons c bs => exact ⟨hb, h⟩

theorem terminated_varint (n : Nat) : Terminated (varint n) := by
  induction n using varint.induct with
  | case1 n h =>
      rw [varint_of_lt h]
      simp only [Terminated, BitVec.toNat_ofNat]
      omega
  | case2 n h ih =>
      rw [varint_of_ge (by omega)]
      refine terminated_cons ?_ ih
      rw [BitVec.toNat_ofNat]
      omega

/-- `k` groups are enough for a number below `128 ^ k`. -/
theorem length_varint_le {k : Nat} :
    ∀ {n : Nat}, n < 128 ^ (k + 1) → (varint n).length ≤ k + 1 := by
  induction k with
  | zero =>
      intro n h
      rw [varint_of_lt (by omega)]
      simp
  | succ k ih =>
      intro n h
      by_cases hn : n < 128
      · rw [varint_of_lt hn]
        simp
      · rw [varint_of_ge (by omega), List.length_cons]
        have hq : n / 128 < 128 ^ (k + 1) := by
          rw [Nat.div_lt_iff_lt_mul (by omega)]
          calc n < 128 ^ (k + 1 + 1) := h
            _ = 128 ^ (k + 1) * 128 := by ring
        have := ih hq
        omega

/-! ## Groups one behind the other -/

/-- Nothing smaller takes fewer groups than this. -/
theorem length_varint (n : Nat) : (varint n).length = max 1 (Nat.digits 128 n).length := by
  induction n using varint.induct with
  | case1 n h =>
      rw [varint_of_lt h, List.length_singleton]
      rcases Nat.eq_zero_or_pos n with rfl | hpos
      · simp
      · rw [Nat.digits_of_lt 128 n (by omega) h]
        simp
  | case2 n h ih =>
      rw [varint_of_ge (by omega), List.length_cons, ih,
        Nat.digits_def' (by omega : 1 < 128) (show 0 < n by omega), List.length_cons]
      have hpos : 0 < (Nat.digits 128 (n / 128)).length := by
        rw [List.length_pos_iff, Nat.digits_ne_nil_iff_ne_zero]
        omega
      omega

theorem value_append (front back : List (BitVec 8)) :
    value (front ++ back) = value front + 128 ^ front.length * value back := by
  induction front with
  | nil => simp [value]
  | cons b front ih =>
      rw [List.cons_append, value, value, ih, List.length_cons]
      ring

theorem value_lt (groups : List (BitVec 8)) : value groups < 128 ^ groups.length := by
  induction groups with
  | nil => simp [value]
  | cons b groups ih =>
      rw [value, List.length_cons, Nat.pow_succ]
      omega

theorem Terminated.ne_nil {groups : List (BitVec 8)} (h : Terminated groups) : groups ≠ [] := by
  rintro rfl
  exact h

/-- Every octet in front of the last has its top bit set. -/
theorem terminated_concat_iff {front : List (BitVec 8)} {last : BitVec 8} :
    Terminated (front ++ [last]) ↔ (∀ b ∈ front, 128 ≤ b.toNat) ∧ last.toNat < 128 := by
  induction front with
  | nil => simp [Terminated]
  | cons b front ih =>
      rw [List.forall_mem_cons, and_assoc, ← ih]
      cases front with
      | nil => rfl
      | cons c front => rfl

/-- A terminated run of groups is not the beginning of another. -/
theorem Terminated.unique {groups groups' rest rest' : List (BitVec 8)} (h : Terminated groups)
    (h' : Terminated groups') (heq : groups ++ rest = groups' ++ rest') : groups = groups' := by
  induction groups generalizing groups' with
  | nil => exact absurd h (by simp [Terminated])
  | cons b groups ih =>
      cases groups' with
      | nil => exact absurd h' (by simp [Terminated])
      | cons b' groups' =>
          simp only [List.cons_append, List.cons.injEq] at heq
          obtain ⟨rfl, hrest⟩ := heq
          cases groups with
          | nil =>
              cases groups' with
              | nil => rfl
              | cons c' groups' => exact absurd h'.1 (Nat.not_le.mpr h)
          | cons c groups =>
              cases groups' with
              | nil => exact absurd h.1 (Nat.not_le.mpr h')
              | cons c' groups' => rw [ih h.2 h'.2 hrest]

end Lib.Varint
