import Shitty.Hpack.Number

/-!
# Integers there and back

What `encode_number` writes is read back by `decode_number`, in as many octets as RFC
7541 section 5.1 has for the number. What `decode_number` reads is exact unless the
tenth octet behind the first carries it past 64 bits. Both are stated for any prefix and
any number, with nothing assumed of what stands behind; the wrap-around is found by
following the shifts of the loop.
-/

namespace Shitty.Hpack

open Lib.Varint

/-! ## The encoder -/

/-- The loop gives up at the end of the buffer. -/
theorem encode_number_loop_full (number octet : Nat) (buf : Mem) (buflen : Nat)
    (hfull : buflen ≤ octet + (varint number).length) :
    (encode_number_loop number octet buf buflen).1 = -1 := by
  fun_induction encode_number_loop number octet buf buflen with
  | case1 number octet buf h oct hle => rfl
  | case2 number octet buf h oct hle ih =>
      rw [varint_of_ge h, List.length_cons] at hfull
      exact ih (by simp only [oct]; omega)
  | case3 number octet buf h oct hle => rfl
  | case4 number octet buf h oct hle =>
      rw [varint_of_lt (by omega), List.length_singleton] at hfull
      exact absurd hfull hle

theorem encode_number_full {p : Nat} (hp : 1 ≤ p ∧ p ≤ 8) (n : Nat) (buf : Mem) (buflen : Nat)
    (hfull : buflen < numberLength p n) : (encode_number n p buf buflen).1 = -1 := by
  unfold encode_number
  by_cases hzero : buflen = 0 ∨ 8 < p ∨ p < 1
  · rw [if_pos hzero]
  · rw [if_neg hzero]
    simp only [mask_toNat hp.2]
    unfold numberLength at hfull
    by_cases hsmall : n < 2 ^ p - 1
    · rw [if_pos hsmall] at hfull
      omega
    · rw [if_neg hsmall] at hfull ⊢
      refine encode_number_loop_full _ _ _ _ ?_
      rw [length_varint]
      omega

theorem numberLength_le {p n : Nat} (hn : n < UINTMAX_MOD) : numberLength p n ≤ 11 := by
  unfold numberLength
  split
  · omega
  · have hten := length_varint_le (k := 9) (n := n - (2 ^ p - 1)) <| by
      calc n - (2 ^ p - 1) ≤ n := Nat.sub_le _ _
        _ < UINTMAX_MOD := hn
        _ ≤ 128 ^ (9 + 1) := by decide
    rw [length_varint] at hten
    omega

/-- A number is encoded if there is room for it, into octets that are decoded to it. -/
theorem number_round_trip {n p : Nat} (hn : n < UINTMAX_MOD) (hp : 1 ≤ p ∧ p ≤ 8) (buf : Mem)
    (buflen : Nat) :
    numberLength p n ≤ 11 ∧
      (encode_number n p buf buflen).1 =
        (if numberLength p n ≤ buflen then (numberLength p n : Int) else -1) ∧
      (numberLength p n ≤ buflen →
        (∀ i, p ≤ i → ((encode_number n p buf buflen).2 0).getLsbD i = (buf 0).getLsbD i) ∧
        (∀ i, numberLength p n ≤ i → (encode_number n p buf buflen).2 i = buf i) ∧
        ∀ suffix,
          decode_number ((encode_number n p buf buflen).2.read 0 (numberLength p n) ++ suffix) p =
            ((numberLength p n : Int), n)) := by
  refine ⟨numberLength_le hn, ?_, ?_⟩
  · by_cases hroom : numberLength p n ≤ buflen
    · rw [if_pos hroom, encode_number_eq hp n buf buflen (by rwa [length_numberOctets_eq]),
        length_numberOctets_eq]
    · rw [if_neg hroom]
      exact encode_number_full hp n buf buflen (Nat.lt_of_not_le hroom)
  · intro hroom
    have hlength := length_numberOctets_eq p (buf 0) n
    rw [encode_number_eq hp n buf buflen (by rwa [hlength])]
    refine ⟨fun i hi => ?_, fun i hi => ?_, fun suffix => ?_⟩
    · have hsmall : min n (2 ^ p - 1) < 2 ^ p := by
        have := Nat.two_pow_pos p
        omega
      have hfirst : buf.write 0 (numberOctets p (buf 0) n) 0 =
          prefixOctet p (buf 0) (min n (2 ^ p - 1)) := by
        rw [numberOctets_cons]
        exact Mem.write_inside buf 0 _ 0 (by simp)
      exact (congrArg (BitVec.getLsbD · i) hfirst).trans (getLsbD_prefixOctet _ hp.2 hsmall hi)
    · exact Mem.write_after buf _ (by rw [Nat.zero_add, hlength]; exact hi)
    · rw [← hlength, Mem.read_write]
      exact decode_number_numberOctets (buf 0) hp hn suffix

/-- 1337 on a five-bit prefix, with three octets of room. -/
theorem number_round_trip_1337 :
    (encode_number 1337 5 (fun _ => 0) 3).1 = (if numberLength 5 1337 ≤ 3 then
      (numberLength 5 1337 : Int) else -1) :=
  (number_round_trip (by decide) (by decide) (fun _ => 0) 3).2.1

/-! ## The decoder -/

/-- The octets of a number on a `p`-bit prefix, whether or not it could have fewer. -/
def IsNumber (p : Nat) : Bytes → Prop
  | [] => False
  | first :: groups =>
      if first &&& mask_from_bits p = mask_from_bits p then Terminated groups else groups = []

/-- The integer RFC 7541 section 5.1 has for them. -/
def exactNumber (p : Nat) : Bytes → Nat
  | [] => 0
  | first :: groups => (first &&& mask_from_bits p).toNat + value groups

/-- A tenth octet behind the first that makes the number too large for 64 bits. -/
def Carries (p : Nat) (buf : Bytes) : Prop :=
  ∃ first groups last rest, buf = first :: (groups ++ last :: rest) ∧
    first &&& mask_from_bits p = mask_from_bits p ∧
    groups.length = 9 ∧ (∀ b ∈ groups, 128 ≤ b.toNat) ∧ last.toNat < 128 ∧
    (2 ≤ last.toNat ∨ (last.toNat = 1 ∧ 2 ^ 63 ≤ 2 ^ p - 1 + value groups))

/-- Where the loop finds the end of a number. -/
theorem decode_number_loop_pos {l : Bytes} : ∀ {i mult number : Nat}, 1 ≤ i →
    0 < (decode_number_loop l i mult number).1 →
      ∃ groups rest, l = groups ++ rest ∧ Terminated groups ∧
        i + groups.length ≤ MAX_OCTETS + 1 := by
  induction l with
  | nil =>
      intro i mult number hi h
      exact absurd h (by simp [decode_number_loop, PROTOCOL_ERROR])
  | cons b l ih =>
      intro i mult number hi h
      rw [decode_number_loop] at h
      split at h
      · exact absurd h (by simp [PROTOCOL_ERROR])
      · rename_i hmax
        simp only at h
        split at h
        · rename_i hlast
          exact ⟨[b], l, rfl, (and_0x80_eq_zero b).mp hlast, by
            rw [List.length_singleton]
            omega⟩
        · rename_i hmore
          split at h
          · exact absurd h (by simp [INTERNAL_ERROR])
          · obtain ⟨groups, rest, rfl, hterm, hlen⟩ := ih (by omega) h
            refine ⟨b :: groups, rest, rfl, terminated_cons ?_ hterm, ?_⟩
            · exact Nat.le_of_not_lt fun hlt => hmore ((and_0x80_eq_zero b).mpr hlt)
            · rw [List.length_cons]
              omega

/-- What is decoded, up to the width of `uintmax_t`. -/
theorem decode_number_pos {p : Nat} (hp : 1 ≤ p ∧ p ≤ 8) {buf : Bytes}
    (h : 0 < (decode_number buf p).1) :
    ∃ octets rest, buf = octets ++ rest ∧ IsNumber p octets ∧ octets.length ≤ MAX_OCTETS + 1 ∧
      decode_number buf p = ((octets.length : Int), exactNumber p octets % UINTMAX_MOD) := by
  unfold decode_number at h ⊢
  cases buf with
  | nil => exact absurd h (by simp [PROTOCOL_ERROR])
  | cons first tail =>
      simp only [if_neg (show ¬ 8 < p by omega)] at h ⊢
      have hfield := (first &&& mask_from_bits p).isLt
      by_cases hmask : first &&& mask_from_bits p = mask_from_bits p
      · rw [if_neg (not_not_intro hmask)] at h ⊢
        obtain ⟨groups, rest, rfl, hterm, hlen⟩ := decode_number_loop_pos (Nat.le_refl 1) h
        refine ⟨first :: groups, rest, rfl, ?_, ?_, ?_⟩
        · rw [IsNumber, if_pos hmask]
          exact hterm
        · rw [List.length_cons]
          omega
        · have hloop := decode_number_loop_terminated groups rest 1
            (first &&& mask_from_bits p).toNat (Nat.le_refl 1) hterm hlen
          rw [show 2 ^ (7 * (1 - 1)) = 1 by rfl, Nat.mul_one] at hloop
          rw [hloop, List.length_cons, exactNumber]
          refine Prod.ext ?_ rfl
          push_cast
          omega
      · rw [if_pos hmask]
        refine ⟨[first], tail, rfl, ?_, by simp [MAX_OCTETS], ?_⟩
        · rw [IsNumber, if_neg hmask]
        · rw [exactNumber, value, Nat.add_zero, Nat.mod_eq_of_lt (Nat.lt_trans hfield (by decide))]
          rfl

theorem IsNumber.unique {p : Nat} {octets octets' rest rest' : Bytes} (h : IsNumber p octets)
    (h' : IsNumber p octets') (heq : octets ++ rest = octets' ++ rest') : octets = octets' := by
  cases octets with
  | nil => exact h.elim
  | cons first groups =>
      cases octets' with
      | nil => exact h'.elim
      | cons first' groups' =>
          simp only [List.cons_append, List.cons.injEq] at heq
          obtain ⟨rfl, heq⟩ := heq
          simp only [IsNumber] at h h'
          by_cases hmask : first &&& mask_from_bits p = mask_from_bits p
          · rw [if_pos hmask] at h h'
            rw [h.unique h' heq]
          · rw [if_neg hmask] at h h'
            rw [h, h']

/-- A number in at most eleven octets is too large only by its last. -/
theorem carries_iff {p : Nat} (hp : 1 ≤ p ∧ p ≤ 8) {octets rest : Bytes} (h : IsNumber p octets)
    (hlen : octets.length ≤ MAX_OCTETS + 1) :
    UINTMAX_MOD ≤ exactNumber p octets ↔ Carries p (octets ++ rest) := by
  cases octets with
  | nil => exact h.elim
  | cons first groups =>
      have hfield : (first &&& mask_from_bits p).toNat < 2 ^ 8 := (first &&& mask_from_bits p).isLt
      rw [exactNumber]
      rw [List.length_cons, MAX_OCTETS] at hlen
      by_cases hmask : first &&& mask_from_bits p = mask_from_bits p
      · rw [IsNumber, if_pos hmask] at h
        obtain ⟨front, last, rfl⟩ : ∃ front last, groups = front ++ [last] :=
          (List.eq_nil_or_concat' groups).resolve_left h.ne_nil
        obtain ⟨hfront, hlast⟩ := terminated_concat_iff.mp h
        have hvalue : value [last] = last.toNat := by
          rw [value, value, Nat.mod_eq_of_lt hlast, Nat.mul_zero, Nat.add_zero]
        have hlow := value_lt front
        rw [List.length_append, List.length_singleton] at hlen
        rw [hmask, mask_toNat hp.2] at hfield ⊢
        rw [value_append, hvalue, UINTMAX_MOD]
        by_cases hnine : front.length = 9
        · rw [hnine] at hlow ⊢
          norm_num at hlow ⊢
          constructor
          · intro hbig
            exact ⟨first, front, last, rest, by simp, hmask, hnine, hfront, hlast, by omega⟩
          · rintro ⟨first', front', last', rest', heq, -, hnine', -, -, hcarry⟩
            obtain ⟨-, htail⟩ := List.cons_eq_cons.mp heq
            obtain ⟨rfl, hrest⟩ := List.append_inj htail (hnine.trans hnine'.symm)
            obtain ⟨rfl, -⟩ := List.cons_eq_cons.mp hrest
            omega
        · -- fewer octets hold less than 2 ^ 63 besides the prefix
          have hsmall : 128 ^ (front.length + 1) ≤ 128 ^ 9 :=
            Nat.pow_le_pow_right (by omega) (by omega)
          have hall := value_lt (front ++ [last])
          rw [value_append, hvalue, List.length_append, List.length_singleton] at hall
          refine iff_of_false (by omega) ?_
          rintro ⟨first', front', last', rest', heq, hmask', hnine', hfront', hlast', -⟩
          obtain ⟨-, htail⟩ := List.cons_eq_cons.mp heq
          have hterm : Terminated (front' ++ [last']) := terminated_concat_iff.mpr ⟨hfront', hlast'⟩
          rw [show front' ++ last' :: rest' = front' ++ [last'] ++ rest' by simp] at htail
          have hsame := h.unique hterm htail
          have := congrArg List.length hsame
          rw [List.length_append, List.length_append, List.length_singleton,
            List.length_singleton] at this
          omega
      · rw [IsNumber, if_neg hmask] at h
        subst h
        refine iff_of_false ?_ ?_
        · rw [value, UINTMAX_MOD]
          omega
        · rintro ⟨first', front', last', rest', heq, hmask', -⟩
          obtain ⟨rfl, -⟩ := List.cons_eq_cons.mp heq
          exact hmask hmask'

/-- What is decoded is exact, and what is too large is refused. -/
def Exact (p : Nat) (buf : Bytes) : Prop :=
  (∀ k : Nat, (decode_number buf p).1 = k → 0 < k →
    IsNumber p (buf.take k) ∧ (decode_number buf p).2 = exactNumber p (buf.take k)) ∧
  ∀ octets rest, buf = octets ++ rest → IsNumber p octets → UINTMAX_MOD ≤ exactNumber p octets →
    (decode_number buf p).1 < 0

theorem decode_number_loop_ne_zero {l : Bytes} : ∀ {i mult number : Nat},
    (decode_number_loop l i mult number).1 ≠ 0 := by
  induction l with
  | nil => simp [decode_number_loop, PROTOCOL_ERROR]
  | cons b l ih =>
      intro i mult number
      rw [decode_number_loop]
      split
      · simp [PROTOCOL_ERROR]
      · simp only
        split
        · show ((i : Int) + 1) ≠ 0
          omega
        · split
          · simp [INTERNAL_ERROR]
          · exact ih

theorem decode_number_ne_zero (buf : Bytes) (p : Nat) : (decode_number buf p).1 ≠ 0 := by
  unfold decode_number
  cases buf with
  | nil => simp [PROTOCOL_ERROR]
  | cons first tail =>
      simp only
      split
      · simp [PROTOCOL_ERROR]
      · split
        · simp
        · exact decode_number_loop_ne_zero

/-- Decoding is exact but where the last octet carries. -/
theorem decode_number_exact_iff {p : Nat} (hp : 1 ≤ p ∧ p ≤ 8) (buf : Bytes) :
    Exact p buf ↔ ¬ Carries p buf := by
  constructor
  · rintro ⟨-, hlarge⟩ hcarries
    -- the octets up to the one that carries are a number, which is decoded
    obtain ⟨first, groups, last, rest, rfl, hmask, hnine, hgroups, hlast, hcarry⟩ := id hcarries
    have hterm : Terminated (groups ++ [last]) := terminated_concat_iff.mpr ⟨hgroups, hlast⟩
    have hnumber : IsNumber p (first :: (groups ++ [last])) := by
      rw [IsNumber, if_pos hmask]
      exact hterm
    have hsplit : first :: (groups ++ last :: rest) = first :: (groups ++ [last]) ++ rest := by simp
    have hlen : (first :: (groups ++ [last])).length ≤ MAX_OCTETS + 1 := by
      simp [hnine, MAX_OCTETS]
    rw [hsplit] at hcarries hlarge
    have hbig := (carries_iff hp hnumber hlen).mpr hcarries
    have hneg := hlarge _ rest rfl hnumber hbig
    have hloop := decode_number_loop_terminated (groups ++ [last]) rest 1
      (first &&& mask_from_bits p).toNat (Nat.le_refl 1) hterm (by simp [hnine, MAX_OCTETS])
    rw [List.cons_append, decode_number, if_neg (by omega)] at hneg
    simp only [if_neg (not_not_intro hmask)] at hneg
    rw [show 2 ^ (7 * (1 - 1)) = 1 by rfl] at hloop
    rw [hloop] at hneg
    simp only at hneg
    omega
  · intro hnot
    refine ⟨fun k hk hpos => ?_, fun octets rest hbuf hnumber hbig => ?_⟩
    · obtain ⟨octets, rest, rfl, hnumber, hlen, hdecode⟩ :=
        decode_number_pos hp (by rw [hk]; omega)
      rw [hdecode] at hk ⊢
      obtain rfl : octets.length = k := by
        simpa using hk
      have hfits : exactNumber p octets < UINTMAX_MOD :=
        Nat.lt_of_not_le fun hle => hnot ((carries_iff hp hnumber hlen).mp hle)
      rw [List.take_left]
      exact ⟨hnumber, Nat.mod_eq_of_lt hfits⟩
    · have hne := decode_number_ne_zero buf p
      by_contra hge
      obtain ⟨octets', rest', hbuf', hnumber', hlen, -⟩ :=
        decode_number_pos hp (show 0 < (decode_number buf p).1 by omega)
      obtain rfl := hnumber.unique hnumber' (hbuf.symm.trans hbuf')
      rw [hbuf] at hnot
      exact hnot ((carries_iff hp hnumber hlen).mp hbig)

/-- The number 1337 on a five-bit prefix, the example of RFC 7541 appendix C. -/
theorem decode_number_exact_1337 :
    Exact 5 [0x1f#8, 0x9a#8, 0x0a#8] ↔ ¬ Carries 5 [0x1f#8, 0x9a#8, 0x0a#8] :=
  decode_number_exact_iff (by decide) _

/-- Eleven octets for 2 ^ 64 on a seven-bit prefix. -/
theorem decode_number_wraps :
    ¬ Exact 7 [0x7f#8, 0x81#8, 0xff#8, 0xff#8, 0xff#8, 0xff#8, 0xff#8, 0xff#8, 0xff#8, 0xff#8,
      0x01#8] := by
  intro h
  have hneg := h.2 _ [] (List.append_nil _).symm
    (by simp [IsNumber, mask_from_bits, Terminated]) (by decide)
  exact absurd hneg (by decide)

end Shitty.Hpack
