import Shitty.Core.Octet
import Mathlib.Data.Nat.Digits.Lemmas
import Shitty.Lib.Varint

/-!
# HPACK integers

`decode_number` and `encode_number` of `hpack/number.c`, and the RFC 7541 section 5.1
form of a number on a prefix of the first octet. The loops are followed octet by octet.
The lemmas behind them say what the two functions do with a number in that form: how
long it is, and that it is written and read back.
-/

namespace Shitty.Hpack

open Lib.Varint

/-! ## `hpack/error.h` -/

def PROTOCOL_ERROR : Int := 1

def INTERNAL_ERROR : Int := 2

/-! ## `hpack/number.c` -/

def MAX_OCTETS : Nat := 10

/-- What arithmetic on `uintmax_t` is modulo of: it is 64 bits wide. -/
def UINTMAX_MOD : Nat := 2 ^ 64

def mask_from_bits (bits : Nat) : Octet := 0xff#8 >>> (8 - bits)

/-- The loop of `decode_number` over the octets after the first; `i` is the
index of the next one. -/
def decode_number_loop : Bytes → Nat → Nat → Nat → Int × Nat
  | [], _, _, number => (-PROTOCOL_ERROR, number)
  | b :: rest, i, mult, number =>
      if MAX_OCTETS < i then (-PROTOCOL_ERROR, number)
      else
        let field := (b &&& 0x7f#8).toNat
        let number := (number + field * mult) % UINTMAX_MOD
        if b &&& 0x80#8 = 0#8 then ((i : Int) + 1, number)
        else if (mult <<< 7) % UINTMAX_MOD < mult then (-INTERNAL_ERROR, number)
        else decode_number_loop rest (i + 1) ((mult <<< 7) % UINTMAX_MOD) number

/-- `decode_number(buf, len, bits, &number)`: the result and what it stores in
`number`. The pointers are never null here. -/
def decode_number (buf : Bytes) (bits : Nat) : Int × Nat :=
  match buf with
  | [] => (-PROTOCOL_ERROR, 0)
  | b :: rest =>
      if 8 < bits then (-PROTOCOL_ERROR, 0)
      else
        let mask := mask_from_bits bits
        let field := b &&& mask
        if field ≠ mask then (1, field.toNat)
        else decode_number_loop rest 1 1 field.toNat

/-- The loop of `encode_number`, and the store of the last octet after it. -/
def encode_number_loop (number octet : Nat) (buf : Mem) (buflen : Nat) : Int × Mem :=
  if 0x80 ≤ number then
    let octet := octet + 1
    if buflen ≤ octet then (-1, buf)
    else
      encode_number_loop (number / 0x80) octet
        (buf.store octet (BitVec.ofNat 8 (0x80 ||| number % 0x80))) buflen
  else
    let octet := octet + 1
    if buflen ≤ octet then (-1, buf)
    else ((octet : Int) + 1, buf.store octet (BitVec.ofNat 8 number))

/-- `encode_number(number, prefix_bits, buf, buflen)`: the result and the
memory behind `buf` afterwards. -/
def encode_number (number prefix_bits : Nat) (buf : Mem) (buflen : Nat) : Int × Mem :=
  if buflen = 0 ∨ 8 < prefix_bits ∨ prefix_bits < 1 then (-1, buf)
  else
    let mask := mask_from_bits prefix_bits
    if number < mask.toNat then
      (1, buf.store 0 ((buf 0 &&& ~~~mask) ||| BitVec.ofNat 8 number))
    else
      encode_number_loop (number - mask.toNat) 0 (buf.store 0 (buf 0 ||| mask)) buflen

/-! ## Octet arithmetic -/

theorem and_0x7f (b : Octet) : (b &&& 0x7f#8).toNat = b.toNat % 128 := by
  revert b
  decide

theorem and_0x80_eq_zero (b : Octet) : b &&& 0x80#8 = 0#8 ↔ b.toNat < 128 := by
  revert b
  decide

theorem mask_toNat {p : Nat} (h : p ≤ 8) : (mask_from_bits p).toNat = 2 ^ p - 1 := by
  have hall : ∀ q : Fin 9, (mask_from_bits q).toNat = 2 ^ q.val - 1 := by decide
  exact hall ⟨p, by omega⟩

theorem getLsbD_mask {p j : Nat} (hp : p ≤ 8) :
    (mask_from_bits p).getLsbD j = decide (j < p) := by
  rw [← BitVec.testBit_toNat, mask_toNat hp, Nat.testBit_two_pow_sub_one]

theorem continuation_or {n : Nat} : 0x80 ||| n % 0x80 = 128 + n % 128 := by
  have h := Nat.two_pow_add_eq_or_of_lt (b := n % 0x80) (i := 7) (by omega) 1
  simpa using h.symm

/-! ## The RFC 7541 form of a number -/

/-- The first octet: the bits above the prefix are those of `first`. -/
def prefixOctet (p : Nat) (first : Octet) (m : Nat) : Octet :=
  (first &&& ~~~mask_from_bits p) ||| BitVec.ofNat 8 m

/-- The octets of `n` on a `p`-bit prefix (RFC 7541 section 5.1). -/
def numberOctets (p : Nat) (first : Octet) (n : Nat) : Bytes :=
  if n < 2 ^ p - 1 then [prefixOctet p first n]
  else prefixOctet p first (2 ^ p - 1) :: varint (n - (2 ^ p - 1))

theorem length_numberOctets_pos (p : Nat) (first : Octet) (n : Nat) :
    0 < (numberOctets p first n).length := by
  unfold numberOctets
  split <;> simp

/-- The length of a number on a `p`-bit prefix (RFC 7541 section 5.1). -/
def numberLength (p n : Nat) : Nat :=
  if n < 2 ^ p - 1 then 1 else 1 + max 1 (Nat.digits 128 (n - (2 ^ p - 1))).length

theorem length_numberOctets_eq (p : Nat) (first : Octet) (n : Nat) :
    (numberOctets p first n).length = numberLength p n := by
  unfold numberOctets numberLength
  split
  · rfl
  · rw [List.length_cons, length_varint, Nat.add_comm]

theorem numberLength_pos (p n : Nat) : 0 < numberLength p n := by
  unfold numberLength
  split <;> omega

theorem getLsbD_ofNat_above {p m j : Nat} (hm : m < 2 ^ p) (hj : p ≤ j) :
    (BitVec.ofNat 8 m).getLsbD j = false := by
  rw [BitVec.getLsbD_ofNat, Nat.testBit_lt_two_pow, Bool.and_false]
  exact Nat.lt_of_lt_of_le hm (Nat.pow_le_pow_right (by omega) hj)

/-- The bits of the prefix hold the number, and those in front of them are what they were. -/
theorem prefixOctet_and_mask {p m : Nat} (first : Octet) (hp : p ≤ 8) (hm : m < 2 ^ p) :
    prefixOctet p first m &&& mask_from_bits p = BitVec.ofNat 8 m := by
  apply BitVec.eq_of_getLsbD_eq
  intro j hj
  rw [prefixOctet, BitVec.getLsbD_and, BitVec.getLsbD_or, BitVec.getLsbD_and,
    BitVec.getLsbD_not, getLsbD_mask hp]
  by_cases hjp : j < p
  · simp [hjp]
  · rw [getLsbD_ofNat_above hm (by omega)]
    simp [hjp]

/-- The bits above the prefix are untouched. -/
theorem getLsbD_prefixOctet {p m j : Nat} (first : Octet) (hp : p ≤ 8) (hm : m < 2 ^ p)
    (hj : p ≤ j) : (prefixOctet p first m).getLsbD j = first.getLsbD j := by
  rw [prefixOctet, BitVec.getLsbD_or, getLsbD_ofNat_above hm hj, BitVec.getLsbD_and,
    BitVec.getLsbD_not, getLsbD_mask hp]
  by_cases h8 : j < 8
  · simp [h8, show ¬ j < p by omega]
  · simp [h8, show 8 ≤ j by omega]

/-! ## Decoding -/

/-- The loop reads a terminated run of groups exactly, as long as it is short
enough for the multiplier not to overflow before the last group. -/
theorem decode_number_loop_terminated :
    ∀ (groups : Bytes) (rest : Bytes) (i number : Nat), 1 ≤ i →
      Terminated groups → i + groups.length ≤ MAX_OCTETS + 1 →
      decode_number_loop (groups ++ rest) i (2 ^ (7 * (i - 1))) number =
        ((i : Int) + groups.length,
          (number + value groups * 2 ^ (7 * (i - 1))) % UINTMAX_MOD) := by
  intro groups
  induction groups with
  | nil => intro _ _ _ _ h; exact absurd h (by simp [Terminated])
  | cons b bs ih =>
      intro rest i number hi hterm hlen
      simp only [List.length_cons] at hlen
      have hi' : ¬ MAX_OCTETS < i := by omega
      cases bs with
      | nil =>
          -- the last group
          have hb : b &&& 0x80#8 = 0#8 := (and_0x80_eq_zero b).mpr hterm
          simp only [List.singleton_append, decode_number_loop, if_neg hi', if_pos hb, and_0x7f,
            value, List.length_cons, List.length_nil]
          simp
      | cons c bs =>
          -- one of the others; `mult` does not overflow
          have hb : ¬ b &&& 0x80#8 = 0#8 := by
            rw [and_0x80_eq_zero]
            exact Nat.not_lt.mpr hterm.1
          obtain ⟨k, rfl⟩ : ∃ k, i = k + 1 := ⟨i - 1, by omega⟩
          simp only [List.length_cons, MAX_OCTETS] at hlen
          have hpow : 2 ^ (7 * k) <<< 7 = 2 ^ (7 * (k + 1)) := by
            rw [Nat.shiftLeft_eq, ← Nat.pow_add]
            congr 1
          have hsmall : 2 ^ (7 * (k + 1)) < UINTMAX_MOD :=
            Nat.pow_lt_pow_right (by omega) (by omega)
          have hmono : 2 ^ (7 * k) ≤ 2 ^ (7 * (k + 1)) :=
            Nat.pow_le_pow_right (by omega) (by omega)
          rw [List.cons_append, decode_number_loop, if_neg hi', if_neg hb]
          simp only [Nat.add_sub_cancel, hpow, Nat.mod_eq_of_lt hsmall]
          rw [if_neg (by omega)]
          have hrec := ih rest (k + 1 + 1)
            ((number + (b &&& 0x7f#8).toNat * 2 ^ (7 * k)) % UINTMAX_MOD) (by omega)
            hterm.2 (by simp only [List.length_cons, MAX_OCTETS]; omega)
          simp only [Nat.add_sub_cancel] at hrec
          rw [hrec, and_0x7f]
          refine Prod.ext ?_ ?_
          · simp only [List.length_cons]
            push_cast
            omega
          · show (_ % _ + _) % _ = _
            have hv : value (b :: c :: bs) = b.toNat % 128 + 128 * value (c :: bs) := rfl
            rw [Nat.mod_add_mod, hv, show 2 ^ (7 * (k + 1)) = 128 * 2 ^ (7 * k) by
              rw [show 7 * (k + 1) = 7 + 7 * k by omega, Nat.pow_add]]
            congr 1
            ring

/-- Decoding the octets of a number, whatever follows them. -/
theorem decode_number_numberOctets {p n : Nat} (first : Octet) (hp : 1 ≤ p ∧ p ≤ 8)
    (hn : n < UINTMAX_MOD) (rest : Bytes) :
    decode_number (numberOctets p first n ++ rest) p =
      (((numberOctets p first n).length : Int), n) := by
  have hpow : 2 ^ p ≤ 2 ^ 8 := Nat.pow_le_pow_right (by omega) hp.2
  have hpos : 2 ^ 1 ≤ 2 ^ p := Nat.pow_le_pow_right (by omega) hp.1
  have hmask : mask_from_bits p = BitVec.ofNat 8 (2 ^ p - 1) := by
    apply BitVec.eq_of_toNat_eq
    rw [mask_toNat hp.2, BitVec.toNat_ofNat, Nat.mod_eq_of_lt (by omega)]
  unfold numberOctets
  split
  · rename_i h
    rw [List.singleton_append, decode_number, if_neg (by omega)]
    simp only [prefixOctet_and_mask first hp.2 (show n < 2 ^ p by omega)]
    -- the number fits into the prefix
    have hne : BitVec.ofNat 8 n ≠ mask_from_bits p := by
      intro heq
      have := congrArg BitVec.toNat heq
      rw [mask_toNat hp.2, BitVec.toNat_ofNat, Nat.mod_eq_of_lt (by omega)] at this
      omega
    rw [if_pos hne, BitVec.toNat_ofNat, Nat.mod_eq_of_lt (by omega)]
    rfl
  · rename_i h
    rw [List.cons_append, decode_number, if_neg (by omega)]
    simp only [prefixOctet_and_mask first hp.2 (show 2 ^ p - 1 < 2 ^ p by omega)]
    rw [if_neg (by rw [hmask]; simp), BitVec.toNat_ofNat, Nat.mod_eq_of_lt (by omega)]
    -- the rest of it is in the groups behind the prefix
    have hlen : (varint (n - (2 ^ p - 1))).length ≤ 9 + 1 := by
      apply length_varint_le
      calc n - (2 ^ p - 1) ≤ n := Nat.sub_le _ _
        _ < UINTMAX_MOD := hn
        _ ≤ 128 ^ (9 + 1) := by decide
    have hloop := decode_number_loop_terminated (varint (n - (2 ^ p - 1))) rest 1 (2 ^ p - 1)
      (Nat.le_refl 1) (terminated_varint _) (by simp only [MAX_OCTETS]; omega)
    rw [show 2 ^ (7 * (1 - 1)) = 1 by rfl, value_varint, Nat.mul_one,
      show 2 ^ p - 1 + (n - (2 ^ p - 1)) = n by omega, Nat.mod_eq_of_lt hn] at hloop
    rw [hloop, List.length_cons]
    refine Prod.ext ?_ rfl
    show (1 : Int) + _ = _
    push_cast
    omega

/-! ## Encoding -/

/-- The loop writes the groups of the number right after offset `octet`. -/
theorem encode_number_loop_eq (number octet : Nat) (buf : Mem) (buflen : Nat)
    (hroom : octet + (varint number).length < buflen) :
    encode_number_loop number octet buf buflen =
      ((octet : Int) + 1 + (varint number).length,
        buf.write (octet + 1) (varint number)) := by
  fun_induction encode_number_loop number octet buf buflen with
  | case1 number octet buf h oct hfull =>
      have := length_varint_pos number
      omega
  | case2 number octet buf h oct hfull ih =>
      rw [varint_of_ge h, List.length_cons] at hroom
      rw [ih (by simp only [oct]; omega), varint_of_ge h, Mem.write_cons,
        List.length_cons, continuation_or]
      refine Prod.ext ?_ rfl
      simp only [oct]
      push_cast
      omega
  | case3 number octet buf h oct hfull =>
      have := length_varint_pos number
      omega
  | case4 number octet buf h oct hfull =>
      rw [varint_of_lt (by omega), Mem.write_cons, Mem.write_nil]
      refine Prod.ext ?_ rfl
      simp [oct]

/-- With room for it, `encode_number` writes the RFC form of the number, keeping
the bits of the first octet above the prefix. -/
theorem encode_number_eq {p : Nat} (hp : 1 ≤ p ∧ p ≤ 8) (n : Nat) (buf : Mem)
    (buflen : Nat) (hroom : (numberOctets p (buf 0) n).length ≤ buflen) :
    encode_number n p buf buflen =
      (((numberOctets p (buf 0) n).length : Int),
        buf.write 0 (numberOctets p (buf 0) n)) := by
  have hpos : 2 ^ 1 ≤ 2 ^ p := Nat.pow_le_pow_right (by omega) hp.1
  have hlen := length_numberOctets_pos p (buf 0) n
  rw [encode_number, if_neg (by omega)]
  simp only [mask_toNat hp.2]
  unfold numberOctets at *
  split
  · rename_i h
    rw [Mem.write_cons, Mem.write_nil]
    rfl
  · rename_i h
    rw [if_neg h, List.length_cons] at hroom
    rw [encode_number_loop_eq _ _ _ _ (by omega), Mem.write_cons, List.length_cons]
    have hfirst : buf 0 ||| mask_from_bits p = prefixOctet p (buf 0) (2 ^ p - 1) := by
      apply BitVec.eq_of_getLsbD_eq
      intro j hj
      by_cases hjp : j < p
      · have hbit : (BitVec.ofNat 8 (2 ^ p - 1)).getLsbD j = true := by
          rw [BitVec.getLsbD_ofNat, Nat.testBit_two_pow_sub_one]
          simp [hj, hjp]
        rw [prefixOctet, BitVec.getLsbD_or, BitVec.getLsbD_or, hbit, getLsbD_mask hp.2]
        simp [hjp]
      · rw [getLsbD_prefixOctet _ hp.2 (by omega) (by omega), BitVec.getLsbD_or,
          getLsbD_mask hp.2]
        simp [hjp]
    rw [hfirst]
    refine Prod.ext ?_ rfl
    push_cast
    omega

/-! ## The first octet and the others -/

theorem numberOctets_cons (p : Nat) (first : Octet) (n : Nat) :
    numberOctets p first n =
      prefixOctet p first (min n (2 ^ p - 1)) :: (numberOctets p first n).tail := by
  unfold numberOctets
  split
  · rw [Nat.min_eq_left (by omega), List.tail_cons]
  · rw [Nat.min_eq_right (by omega), List.tail_cons]

theorem numberOctets_tail (p : Nat) (first first' : Octet) (n : Nat) :
    (numberOctets p first n).tail = (numberOctets p first' n).tail := by
  unfold numberOctets
  split <;> rfl

theorem length_numberOctets (p : Nat) (first first' : Octet) (n : Nat) :
    (numberOctets p first n).length = (numberOctets p first' n).length := by
  rw [numberOctets_cons p first, numberOctets_cons p first', List.length_cons, List.length_cons,
    numberOctets_tail p first first']

/-- Ten octets are enough for any `ssize_t` on a seven-bit prefix. -/
theorem length_numberOctets_le {n : Nat} (first : Octet) (hn : n < 2 ^ 63) :
    (numberOctets 7 first n).length ≤ 10 := by
  unfold numberOctets
  split
  · simp
  · have hle : (varint (n - (2 ^ 7 - 1))).length ≤ 8 + 1 := by
      apply length_varint_le
      rw [show 128 ^ (8 + 1) = 2 ^ 63 by norm_num]
      omega
    rw [List.length_cons]
    omega

theorem numberLength_le_of_lt {n : Nat} (hn : n < 2 ^ 63) : numberLength 7 n ≤ 10 := by
  rw [← length_numberOctets_eq 7 0#8]
  exact length_numberOctets_le 0#8 hn

/-- A longer number is not encoded in fewer octets. -/
theorem numberLength_mono (p : Nat) {n m : Nat} (h : n ≤ m) :
    numberLength p n ≤ numberLength p m := by
  unfold numberLength
  by_cases hn : n < 2 ^ p - 1
  · rw [if_pos hn]
    split <;> omega
  · rw [if_neg hn, if_neg (by omega)]
    have hdigits := Nat.le_length_digits_le 128 _ _ (Nat.sub_le_sub_right h (2 ^ p - 1))
    omega

/-- RFC 7541 appendix C.1.2: 1337 on a five-bit prefix. -/
example : numberOctets 5 0#8 1337 = [31#8, 154#8, 10#8] := by
  simp [numberOctets, prefixOctet, mask_from_bits, varint]

end Shitty.Hpack
