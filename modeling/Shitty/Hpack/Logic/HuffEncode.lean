import Shitty.Hpack.HuffEncode
import Shitty.Hpack.Logic.HuffmanCode

/-!
# What the encoder writes

The octets stored so far and the bits of the partial octet behind them are the code
words of the input so far; at the end the last octet is filled with ones. One symbol
keeps the invariant, and so the whole input does. What is written is then known octet by
octet, and so is when the functions return -1.
-/

namespace Shitty.Hpack

open Lib Lib.Bits

/-! ## The invariant -/

/-- `out` has been stored from `buf[base]` on, and `waiting` are the bits of the
partial octet. -/
structure Packs (buf₀ : Mem) (base buflen : Nat) (out : Bytes) (waiting : List Bool)
    (st : EncodeState) : Prop where
  outi : st.outi = out.length
  buf : st.buf = buf₀.write base out
  room : out.length ≤ buflen
  waits : waiting.length = st.existing_bits
  short : st.existing_bits ≤ 8
  octet : ofOctet st.partial_octet = waiting ++ List.replicate (8 - st.existing_bits) false

/-- The encoder has packed exactly `bits`. -/
def Packed (buf₀ : Mem) (base buflen : Nat) (bits : List Bool) (st : EncodeState) : Prop :=
  ∃ out waiting, Packs buf₀ base buflen out waiting st ∧ ofOctets out ++ waiting = bits

variable {buf₀ : Mem} {base buflen : Nat} {out : Bytes} {waiting : List Bool}
  {st st' : EncodeState} {huffcode bits : Nat}

/-- A full octet stored behind the others; nothing waits then. -/
theorem Packs.store (h : Packs buf₀ base buflen out waiting st) (hroom : ¬ buflen ≤ st.outi)
    (octet : Octet) :
    Packs buf₀ base buflen (out ++ [octet]) []
      { existing_bits := 0, partial_octet := 0, outi := st.outi + 1,
        buf := st.buf.store (base + st.outi) octet } := by
  refine ⟨by simp [h.outi], ?_, ?_, rfl, by simp, ?_⟩
  · show st.buf.store (base + st.outi) octet = _
    rw [h.outi, h.buf, Mem.store_write]
  · have := h.outi
    rw [List.length_append, List.length_singleton]
    omega
  · show ofOctet 0#8 = List.replicate 8 false
    decide

/-! ## One symbol -/

/-- The partial octet, filled to the end by the front of a code word. -/
theorem Packs.filled (h : Packs buf₀ base buflen out waiting st) {w : Nat}
    (hw : w < 2 ^ (8 - st.existing_bits)) :
    ofOctet (st.partial_octet ||| BitVec.ofNat 8 w) =
      waiting ++ Bits.ofNat (8 - st.existing_bits) w := by
  apply ofOctet_or_fill
  · rw [length_ofNat]
    exact h.octet
  · rw [ofOctet_of_lt (by omega) hw, h.waits, Nat.sub_sub_self h.short]

theorem fill_partial_octet_ok (h : Packs buf₀ base buflen out waiting st)
    (hv : huffcode < 2 ^ bits) {v' n' : Nat}
    (hok : fill_partial_octet huffcode bits st base buflen = .ok (v', n', st')) :
    n' ≤ bits ∧ ∃ out' waiting', Packs buf₀ base buflen out' waiting' st' ∧
      (waiting' = [] ∨ n' = 0) ∧
      ofOctets out ++ waiting ++ Bits.ofNat bits huffcode =
        ofOctets out' ++ waiting' ++ Bits.ofNat n' v' := by
  unfold fill_partial_octet at hok
  split at hok
  · rename_i h0
    obtain ⟨rfl, rfl, rfl⟩ : huffcode = v' ∧ bits = n' ∧ st = st' := by simpa using hok
    refine ⟨Nat.le_refl _, out, waiting, h, Or.inl ?_, rfl⟩
    rw [← List.length_eq_zero_iff, h.waits, h0]
  · split at hok
    · -- the code word reaches the end of the octet
      rename_i hreach
      have hshort := h.short
      simp only at hok
      split at hok
      · cases hok
      · rename_i hroom
        generalize hk : 8 - st.existing_bits = k at hok
        obtain ⟨rfl, rfl, rfl⟩ := by simpa using hok
        refine ⟨Nat.sub_le _ _, _, [], h.store hroom _, Or.inl rfl, ?_⟩
        have hw : huffcode >>> (bits - k) < 2 ^ (8 - st.existing_bits) := by
          rw [Nat.shiftRight_eq_div_pow, Nat.div_lt_iff_lt_mul (Nat.two_pow_pos _), ← Nat.pow_add,
            show 8 - st.existing_bits + (bits - k) = bits by omega]
          exact hv
        have hsplit : Bits.ofNat bits huffcode =
            Bits.ofNat k (huffcode >>> (bits - k)) ++ Bits.ofNat (bits - k) huffcode := by
          rw [← Bits.ofNat_add, show k + (bits - k) = bits by omega]
        rw [hsplit, ofOctets_append, ofOctets_cons, ofOctets_nil, h.filled hw, hk,
          Nat.one_shiftLeft, Nat.and_two_pow_sub_one_eq_mod, ofNat_mod]
        simp
    · -- the code word fits into the octet
      rename_i hreach
      have hnew : (if bits < 8 - st.existing_bits then bits else 8 - st.existing_bits) = bits :=
        if_pos (by omega)
      simp only [hnew, Nat.sub_self] at hok
      obtain ⟨rfl, rfl, rfl⟩ := by simpa using hok
      refine ⟨Nat.zero_le _, out, waiting ++ Bits.ofNat bits huffcode, ?_, Or.inr rfl, by simp⟩
      refine ⟨h.outi, h.buf, h.room, ?_, ?_, ?_⟩
      · show (waiting ++ Bits.ofNat bits huffcode).length = st.existing_bits + bits
        rw [List.length_append, h.waits, length_ofNat]
      · show st.existing_bits + bits ≤ 8
        omega
      · show ofOctet (st.partial_octet ||| _) = _
        have hlt : huffcode <<< (8 - (st.existing_bits + bits)) < 2 ^ (8 - st.existing_bits) := by
          rw [Nat.shiftLeft_eq, show 8 - st.existing_bits =
            bits + (8 - (st.existing_bits + bits)) by omega, Nat.pow_add]
          exact Nat.mul_lt_mul_of_pos_right hv (Nat.two_pow_pos _)
        have hzero : Bits.ofNat (8 - (st.existing_bits + bits)) 0 =
            List.replicate (8 - (st.existing_bits + bits)) false := by
          apply List.ext_getElem
          · simp
          · intro i h1 h2
            rw [List.getElem_replicate, getElem_ofNat, Nat.zero_testBit]
        rw [h.filled hlt, Nat.shiftLeft_eq, show 8 - st.existing_bits =
            bits + (8 - (st.existing_bits + bits)) by omega,
          ← Nat.add_zero (huffcode * _), ← ofNat_append _ _ _ (Nat.two_pow_pos _), hzero,
          List.append_assoc]

theorem fill_partial_octet_error (h : Packs buf₀ base buflen out waiting st) {m : Mem}
    (herr : fill_partial_octet huffcode bits st base buflen = .error m) :
    buflen ≤ out.length := by
  unfold fill_partial_octet at herr
  split at herr
  · cases herr
  · split at herr
    · simp only at herr
      split at herr
      · rw [← h.outi]
        assumption
      · cases herr
    · cases herr

/-- A full octet of the code stored while nothing waits. -/
theorem Packs.next (h : Packs buf₀ base buflen out [] st) (hroom : ¬ buflen ≤ st.outi)
    (v : Nat) :
    Packs buf₀ base buflen (out ++ [BitVec.ofNat 8 v]) []
      { st with
        outi := st.outi + 1
        buf := st.buf.store (base + st.outi) (BitVec.ofNat 8 v) } := by
  have hs := h.store hroom (BitVec.ofNat 8 v)
  exact ⟨hs.outi, hs.buf, hs.room, h.waits, h.short, h.octet⟩

/-- Full octets of the code, when nothing waits in front of it. -/
theorem write_full_ok {n : Nat} :
    ∀ {out : Bytes} {st : EncodeState}, Packs buf₀ base buflen out [] st → ∀ {n' : Nat},
      write_full huffcode n st base buflen = .ok (n', st') →
      n' ≤ 8 ∧ ∃ out', Packs buf₀ base buflen out' [] st' ∧
        ofOctets out ++ Bits.ofNat n huffcode = ofOctets out' ++ Bits.ofNat n' huffcode := by
  induction n using Nat.strong_induction_on with
  | _ n ih =>
      intro out st h n' hok
      by_cases hn : 8 < n
      · obtain ⟨m, rfl⟩ : ∃ m, n = m + 9 := ⟨n - 9, by omega⟩
        rw [write_full] at hok
        split at hok
        · cases hok
        · rename_i hroom
          obtain ⟨hle, out', hp, heq⟩ :=
            ih (m + 1) (by omega) (h.next hroom (huffcode >>> (m + 1))) hok
          refine ⟨hle, out', hp, ?_⟩
          rw [← heq, show m + 9 = 8 + (m + 1) by omega, Bits.ofNat_add 8 (m + 1), ofOctets_append,
            ofOctets_cons, ofOctets_nil, ofOctet, BitVec.toNat_ofNat, ofNat_mod]
          simp
      · have hstop : write_full huffcode n st base buflen = .ok (n, st) := by
          rw [write_full]
          rintro m rfl
          omega
        rw [hstop] at hok
        obtain ⟨rfl, rfl⟩ : n = n' ∧ st = st' := by simpa using hok
        exact ⟨by omega, out, h, rfl⟩

theorem write_full_error {n : Nat} :
    ∀ {out : Bytes} {st : EncodeState}, Packs buf₀ base buflen out [] st → ∀ {m : Mem},
      write_full huffcode n st base buflen = .error m → 8 * buflen < 8 * out.length + n := by
  induction n using Nat.strong_induction_on with
  | _ n ih =>
      intro out st h m herr
      by_cases hn : 8 < n
      · obtain ⟨k, rfl⟩ : ∃ k, n = k + 9 := ⟨n - 9, by omega⟩
        rw [write_full] at herr
        have hout := h.outi
        split at herr
        · omega
        · rename_i hroom
          have := ih (k + 1) (by omega) (h.next hroom (huffcode >>> (k + 1))) herr
          rw [List.length_append, List.length_singleton] at this
          omega
      · rw [write_full] at herr
        · cases herr
        · rintro k rfl
          omega

theorem write_full_zero : write_full huffcode 0 st base buflen = .ok (0, st) := rfl

/-- One symbol adds its code word. -/
theorem encode_symbol_ok {bs : List Bool} {c : Octet} (h : Packed buf₀ base buflen bs st)
    (hok : encode_symbol c st base buflen = .ok st') :
    Packed buf₀ base buflen (bs ++ huffmanWord c) st' := by
  obtain ⟨out, waiting, hp, rfl⟩ := h
  obtain ⟨hlow, -, hval⟩ := encvOf_bounds c
  unfold encode_symbol at hok
  obtain ⟨⟨v, n, st₁⟩, hfill, hok⟩ := bind_eq_ok.mp hok
  obtain ⟨⟨n₂, st₂⟩, hwrite, hok⟩ := bind_eq_ok.mp hok
  obtain ⟨hle, out₁, waiting₁, hp₁, hcase, heq₁⟩ :=
    fill_partial_octet_ok hp (show (encvOf c).value < 2 ^ (encvOf c).bits by omega) hfill
  rw [show huffmanWord c = Bits.ofNat (encvOf c).bits (encvOf c).value from rfl, heq₁]
  rcases hcase with rfl | rfl
  · obtain ⟨hle₂, out₂, hp₂, heq₂⟩ := write_full_ok hp₁ hwrite
    rw [List.append_nil, heq₂]
    by_cases hn₂ : n₂ = 0
    · subst hn₂
      obtain rfl : st₂ = st' := by simpa [pure, Except.pure] using hok
      exact ⟨out₂, [], hp₂, by simp⟩
    · obtain rfl : { st₂ with
          existing_bits := n₂
          partial_octet := BitVec.ofNat 8 (v <<< (8 - n₂)) } = st' := by
        simpa [hn₂, pure, Except.pure] using hok
      refine ⟨out₂, Bits.ofNat n₂ v, ⟨hp₂.outi, hp₂.buf, hp₂.room, by simp, hle₂, ?_⟩, rfl⟩
      show ofOctet (BitVec.ofNat 8 (v <<< (8 - n₂))) = _
      rw [ofOctet_shiftLeft (by omega), Nat.sub_sub_self hle₂]
  · obtain ⟨rfl, rfl⟩ : 0 = n₂ ∧ st₁ = st₂ := by simpa [write_full_zero] using hwrite
    obtain rfl : st₁ = st' := by simpa [pure, Except.pure] using hok
    exact ⟨out₁, waiting₁, hp₁, by simp⟩

theorem encode_symbol_error {bs : List Bool} {c : Octet} (h : Packed buf₀ base buflen bs st)
    {m : Mem} (herr : encode_symbol c st base buflen = .error m) :
    8 * buflen < bs.length + (huffmanWord c).length := by
  obtain ⟨out, waiting, hp, rfl⟩ := h
  obtain ⟨hlow, -, hval⟩ := encvOf_bounds c
  rw [List.length_append, length_ofOctets, length_huffmanWord]
  unfold encode_symbol at herr
  rcases bind_eq_error.mp herr with herr | ⟨⟨v, n, st₁⟩, hfill, herr⟩
  · have := fill_partial_octet_error hp herr
    omega
  · obtain ⟨hle, out₁, waiting₁, hp₁, hcase, heq₁⟩ :=
      fill_partial_octet_ok hp (show (encvOf c).value < 2 ^ (encvOf c).bits by omega) hfill
    have hlen := congrArg List.length heq₁
    simp only [List.length_append, length_ofOctets, length_ofNat] at hlen
    change 8 * out.length + waiting.length + (encvOf c).bits = _ at hlen
    rcases bind_eq_error.mp herr with herr | ⟨⟨n₂, st₂⟩, -, herr⟩
    · rcases hcase with rfl | rfl
      · have := write_full_error hp₁ herr
        rw [List.length_nil] at hlen
        omega
      · rw [write_full_zero] at herr
        cases herr
    · by_cases hn₂ : n₂ = 0 <;> simp [hn₂, pure, Except.pure] at herr

/-! ## The whole input -/

theorem encode_loop_ok {input : Bytes} :
    ∀ {bs : List Bool} {st : EncodeState}, Packed buf₀ base buflen bs st →
      encode_loop input st base buflen = .ok st' →
      Packed buf₀ base buflen (bs ++ huffmanCode.encode input) st' := by
  induction input with
  | nil =>
      intro bs st h hok
      obtain rfl : st = st' := by simpa [encode_loop] using hok
      simpa using h
  | cons c input ih =>
      intro bs st h hok
      rw [encode_loop] at hok
      obtain ⟨st₁, hsym, hok⟩ := bind_eq_ok.mp hok
      have := ih (encode_symbol_ok h hsym) hok
      rwa [List.append_assoc] at this

theorem encode_loop_error {input : Bytes} :
    ∀ {bs : List Bool} {st : EncodeState}, Packed buf₀ base buflen bs st → ∀ {m : Mem},
      encode_loop input st base buflen = .error m →
      8 * buflen < bs.length + (huffmanCode.encode input).length := by
  induction input with
  | nil =>
      intro bs st h m herr
      simp [encode_loop] at herr
  | cons c input ih =>
      intro bs st h m herr
      rw [encode_loop] at herr
      rw [PrefixCode.encode_cons, List.length_append]
      change _ < _ + ((huffmanWord c).length + _)
      rcases bind_eq_error.mp herr with herr | ⟨st₁, hsym, herr⟩
      · have := encode_symbol_error h herr
        omega
      · have := ih (encode_symbol_ok h hsym) herr
        rw [List.length_append] at this
        omega

/-- A Huffman string literal's octets: the code words, and ones up to the end
of the last octet. -/
def HuffmanBody (input body : Bytes) : Prop :=
  ∃ pad < 8, ofOctets body = huffmanCode.encode input ++ List.replicate pad true

theorem length_encode_le (input : Bytes) :
    (huffmanCode.encode input).length ≤ 30 * input.length := by
  induction input with
  | nil => simp
  | cons c input ih =>
      have hb := (encvOf_bounds c).2.1
      rw [PrefixCode.encode_cons, List.length_append, List.length_cons]
      change (huffmanWord c).length + _ ≤ _
      rw [length_huffmanWord]
      omega

theorem flush_partial_octet_ok {input : Bytes}
    (h : Packed buf₀ base buflen (huffmanCode.encode input) st)
    (hok : flush_partial_octet st base buflen = .ok st') :
    ∃ body, HuffmanBody input body ∧ body.length ≤ buflen ∧ st'.outi = body.length ∧
      st'.buf = buf₀.write base body := by
  obtain ⟨out, waiting, hp, heq⟩ := h
  have hshort := hp.short
  unfold flush_partial_octet at hok
  split at hok
  · rename_i hne
    split at hok
    · cases hok
    · rename_i hroom
      obtain rfl := by simpa using hok
      have hs := hp.store hroom
        (st.partial_octet ||| BitVec.ofNat 8 (1 <<< (8 - st.existing_bits) - 1))
      refine ⟨_, ⟨8 - st.existing_bits, by omega, ?_⟩, hs.room, hs.outi, hs.buf⟩
      have hlt : 1 <<< (8 - st.existing_bits) - 1 < 2 ^ (8 - st.existing_bits) := by
        have := Nat.two_pow_pos (8 - st.existing_bits)
        rw [Nat.one_shiftLeft]
        omega
      rw [ofOctets_append, ofOctets_cons, ofOctets_nil, List.append_nil, hp.filled hlt,
        Nat.one_shiftLeft, ← replicate_eq_ofNat, ← heq, List.append_assoc]
  · rename_i hzero
    obtain rfl : st = st' := by simpa using hok
    have hw : waiting = [] := by
      rw [← List.length_eq_zero_iff, hp.waits]
      omega
    refine ⟨out, ⟨0, by omega, ?_⟩, hp.room, hp.outi, hp.buf⟩
    rw [← heq, hw]
    simp

theorem packed_init (buf : Mem) (base buflen : Nat) :
    Packed buf base buflen [] { existing_bits := 0, partial_octet := 0, outi := 0, buf := buf } := by
  refine ⟨[], [], ⟨rfl, by simp, by simp, rfl, by simp, ?_⟩, rfl⟩
  show ofOctet 0#8 = List.replicate 8 false
  decide

/-- What `encode` stores when it returns a length. -/
theorem encode_ok {input : Bytes} {buf : Mem} {len : Int} {buf' : Mem}
    (h : encode input base buf buflen = (len, buf')) (hlen : 0 ≤ len) :
    ∃ body, HuffmanBody input body ∧ body.length ≤ buflen ∧ len = body.length ∧
      len ≤ SSIZE_MAX ∧ buf' = buf.write base body := by
  have hinit := packed_init buf base buflen
  unfold encode at h
  simp only at h
  split at h
  · simp only [Prod.mk.injEq] at h
    omega
  · rename_i st hloop
    split at h
    · simp only [Prod.mk.injEq] at h
      omega
    · rename_i st' hflush
      obtain ⟨body, hbody, hroom, hout, hbuf⟩ :=
        flush_partial_octet_ok (by simpa using encode_loop_ok hinit hloop) hflush
      split at h
      · simp only [Prod.mk.injEq] at h
        omega
      · obtain ⟨rfl, rfl⟩ := Prod.mk.inj h
        exact ⟨body, hbody, hroom, by rw [hout], by omega, hbuf⟩

/-- How many octets the code words of a string take. -/
def huffmanLength (s : Bytes) : Nat := ((huffmanCode.encode s).length + 7) / 8

theorem HuffmanBody.length_eq {input body : Bytes} (h : HuffmanBody input body) :
    body.length = huffmanLength input := by
  obtain ⟨pad, hpad, hbits⟩ := h
  have hlen := congrArg List.length hbits
  rw [length_ofOctets, List.length_append, List.length_replicate] at hlen
  unfold huffmanLength
  omega

/-- `encode` fails where the octets do not fit. -/
theorem encode_nonneg_iff {input : Bytes} {buf : Mem} :
    0 ≤ (encode input base buf buflen).1 ↔
      huffmanLength input ≤ buflen ∧ (huffmanLength input : Int) ≤ SSIZE_MAX := by
  constructor
  · intro h
    obtain ⟨body, hbody, hroom, hlen, hmax, -⟩ := encode_ok (Prod.eta _).symm h
    rw [← hbody.length_eq]
    exact ⟨hroom, by omega⟩
  · rintro ⟨hroom, hmax⟩
    have hinit := packed_init buf base buflen
    unfold huffmanLength at hroom hmax
    unfold encode
    simp only
    split
    · rename_i m herr
      -- no room for the code words
      have := encode_loop_error hinit herr
      rw [List.length_nil] at this
      omega
    · rename_i st hloop
      have hp : Packed buf base buflen (huffmanCode.encode input) st := by
        simpa using encode_loop_ok hinit hloop
      split
      · rename_i m herr
        obtain ⟨out, waiting, hp, heq⟩ := hp
        -- no room for the last octet
        have hlen := congrArg List.length heq
        rw [List.length_append, length_ofOctets] at hlen
        have hout := hp.outi
        have hwaits := hp.waits
        unfold flush_partial_octet at herr
        split at herr
        · split at herr
          · omega
          · cases herr
        · cases herr
      · rename_i st' hflush
        obtain ⟨body, hbody, hle, hout, -⟩ := flush_partial_octet_ok hp hflush
        -- the length is one of `ssize_t`
        have hlen := hbody.length_eq
        rw [huffmanLength] at hlen
        rw [if_neg (by omega)]
        show (0 : Int) ≤ (st'.outi : Int)
        omega

theorem huffmanLength_le (s : Bytes) : huffmanLength s ≤ 4 * s.length := by
  have := length_encode_le s
  unfold huffmanLength
  omega

/-! ## With the length in front -/

/-- The first octet of a Huffman string's length: whatever was in the local
array, the H bit is set in the end. -/
theorem prefixOctet_or_0x80 (x : Octet) {m : Nat} (hm : m < 2 ^ 7) :
    prefixOctet 7 x m ||| 0x80#8 = prefixOctet 7 0x80#8 m := by
  apply BitVec.eq_of_getLsbD_eq
  intro j hj
  rw [prefixOctet, prefixOctet]
  simp only [BitVec.getLsbD_or, BitVec.getLsbD_and, BitVec.getLsbD_not, getLsbD_mask (p := 7)
    (by omega : 7 ≤ 8)]
  by_cases hj7 : j < 7
  · have h80 : ∀ k : Fin 7, (0x80#8).getLsbD k = false := by decide
    simp [hj7, h80 ⟨j, hj7⟩]
  · obtain rfl : j = 7 := by omega
    rw [getLsbD_ofNat_above hm (Nat.le_refl 7)]
    simp

/-- The octets of a Huffman-coded string literal. -/
def huffmanOctets (body : Bytes) : Bytes := numberOctets 7 0x80#8 body.length ++ body

/-- The octets of the string are behind those of its length, moved there or not. -/
theorem read_moved (buf : Mem) (body : Bytes) {nums : Bytes} (hn : 1 ≤ nums.length) :
    (if 1 < (nums.length : Int)
      then (buf.write 1 body).write nums.length ((buf.write 1 body).read 1 body.length)
      else buf.write 1 body).read nums.length body.length = body := by
  split
  · rw [Mem.read_write buf]
    exact Mem.read_write _ _ _
  · rw [show nums.length = 1 by omega]
    exact Mem.read_write _ _ _

/-- With the H bit set, it does not matter what was in the local array. -/
theorem store_hBit (m : Mem) (x : Octet) (n : Nat) :
    (m.write 0 (numberOctets 7 x n)).store 0 ((m.write 0 (numberOctets 7 x n)) 0 ||| 0x80#8) =
      m.write 0 (numberOctets 7 0x80#8 n) := by
  have hfirst : (m.write 0 (numberOctets 7 x n)) 0 ||| 0x80#8 =
      prefixOctet 7 0x80#8 (min n (2 ^ 7 - 1)) := by
    rw [numberOctets_cons]
    have h0 := Mem.write_inside m 0
      (prefixOctet 7 x (min n (2 ^ 7 - 1)) :: (numberOctets 7 x n).tail) 0 (by simp)
    rw [Nat.add_zero] at h0
    rw [h0, List.getElem_cons_zero, prefixOctet_or_0x80 _ (by omega)]
  rw [hfirst, numberOctets_cons, Mem.store_write_first, numberOctets_cons 7 0x80#8,
    numberOctets_tail 7 x 0x80#8]

/-- What `huffman_encode` leaves in a large enough buffer. -/
theorem huffman_encode_ok {input : Bytes} {encoded_number buf : Mem} {r : Int} {buf' : Mem}
    (h : huffman_encode input encoded_number buf buflen = (r, buf')) (hr : 0 ≤ r) :
    ∃ body, HuffmanBody input body ∧ (body.length : Int) ≤ SSIZE_MAX ∧
      r = (huffmanOctets body).length ∧ buf'.read 0 r.toNat = huffmanOctets body := by
  unfold huffman_encode at h
  split at h
  · simp only [Prod.mk.injEq] at h
    omega
  · generalize henc : encode input 1 buf (buflen - 1) = e at h
    obtain ⟨len, buf₁⟩ := e
    simp only at h
    split at h
    · simp only [Prod.mk.injEq] at h
      omega
    · rename_i hlen
      obtain ⟨body, hbody, -, rfl, hmax, rfl⟩ := encode_ok henc (by omega)
      simp only [SSIZE_MAX] at hmax
      have hnum := encode_number_eq (p := 7) (by omega) body.length encoded_number 10
        (length_numberOctets_le _ (by omega))
      rw [Int.toNat_natCast, hnum] at h
      have hn := length_numberOctets_pos 7 (encoded_number 0) body.length
      generalize hnums : numberOctets 7 (encoded_number 0) body.length = nums at h hn
      simp only at h
      split at h
      · simp only [Prod.mk.injEq] at h
        omega
      · split at h
        · simp only [Prod.mk.injEq] at h
          omega
        · obtain ⟨rfl, rfl⟩ := Prod.mk.inj h
          have hlen' : nums.length = (numberOctets 7 0x80#8 body.length).length := by
            rw [← hnums, length_numberOctets 7 _ 0x80#8]
          refine ⟨body, hbody, by simp only [SSIZE_MAX]; omega, ?_, ?_⟩
          · rw [huffmanOctets, List.length_append, ← hlen']
            push_cast
            rfl
          · rw [Int.toNat_natCast, Mem.read_write encoded_number, ← hnums, store_hBit, hnums,
              ← Nat.cast_add, Int.toNat_natCast, hlen']
            apply Mem.read_write_append
            rw [← hlen']
            exact read_moved buf body hn

/-- `huffman_encode` fails where the string does not fit behind the first octet. Whether it
fits behind its length is not looked at. -/
theorem huffman_encode_nonneg_iff {input : Bytes} {encoded_number buf : Mem}
    (hbuf : 1 ≤ buflen) :
    0 ≤ (huffman_encode input encoded_number buf buflen).1 ↔
      huffmanLength input ≤ buflen - 1 ∧
        (numberLength 7 (huffmanLength input) + huffmanLength input : Int) ≤ SSIZE_MAX := by
  have hiff : 0 ≤ (encode input 1 buf (buflen - 1)).1 ↔
      huffmanLength input ≤ buflen - 1 ∧ (huffmanLength input : Int) ≤ SSIZE_MAX :=
    encode_nonneg_iff
  unfold huffman_encode
  rw [if_neg (by omega)]
  generalize henc : encode input 1 buf (buflen - 1) = e at hiff ⊢
  obtain ⟨len, buf₁⟩ := e
  simp only at hiff ⊢
  by_cases hneg : len < 0
  · rw [if_pos hneg]
    refine iff_of_false (by simp only; omega) fun h => ?_
    have := hiff.mpr ⟨h.1, by omega⟩
    omega
  · rw [if_neg hneg]
    obtain ⟨body, hbody, hroom, rfl, hmax, -⟩ := encode_ok henc (Int.not_lt.mp hneg)
    rw [← hbody.length_eq]
    simp only [SSIZE_MAX] at hmax ⊢
    have hlength := length_numberOctets_eq 7 (encoded_number 0) body.length
    have hnum := encode_number_eq (p := 7) (by omega) body.length encoded_number 10
      (length_numberOctets_le _ (by omega))
    have hpos := numberLength_pos 7 body.length
    rw [Int.toNat_natCast, hnum, hlength]
    simp only
    rw [if_neg (by omega), and_iff_right hroom]
    split
    · exact iff_of_false (by simp only; omega) (by omega)
    · exact iff_of_true (by simp only; omega) (by omega)

theorem HuffmanBody.length_le {input body : Bytes} (h : HuffmanBody input body) :
    body.length ≤ 4 * input.length + 1 := by
  obtain ⟨pad, hpad, hbits⟩ := h
  have hlen := congrArg List.length hbits
  rw [length_ofOctets, List.length_append, List.length_replicate] at hlen
  have := length_encode_le input
  omega

/-- Four octets for each of the input's, and eleven more, are a large enough
buffer. -/
theorem huffman_encode_nonneg {input : Bytes} (encoded_number buf : Mem)
    (hroom : 4 * input.length + 11 ≤ buflen) (hmax : (buflen : Int) ≤ SSIZE_MAX) :
    0 ≤ (huffman_encode input encoded_number buf buflen).1 := by
  have hle := huffmanLength_le input
  have hten := numberLength_le_of_lt (n := huffmanLength input)
    (by simp only [SSIZE_MAX] at hmax; omega)
  rw [huffman_encode_nonneg_iff (by omega)]
  exact ⟨by omega, by omega⟩

end Shitty.Hpack
