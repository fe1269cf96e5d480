import Shitty.Hpack.Logic.HuffEncode
import Shitty.Hpack.Shifts

/-!
# No shift is out of range

With at most eight bits waiting, a code of at most thirty bits is taken apart by shifts
that C defines, and so the encoder whose shifts are checked is the encoder. The bounds
on the bits that wait and on a code word are what every shift needs. They hold in front
of each symbol, and are handed on from one to the next.
-/

namespace Shitty.Hpack.Shifts

open Lib Lib.Checked

variable {ε : Type} {v k : Nat} {i : Int}

/-! ## Shifts -/

theorem shr_of (hi : i = k) (hk : k < 32) : (shr v i : Shift ε Nat) = .ok (v >>> k) := by
  subst hi
  exact check_bind (by omega) _

theorem shl_of (hi : i = k) (hk : k < 32) : (shl v i : Shift ε Nat) = .ok (v <<< k % 2 ^ 32) := by
  subst hi
  exact check_bind (by omega) _

theorem shl_int_of (hi : i = k) (hk : k < 32) (hv : v <<< k < 2 ^ 31) :
    (shl_int v i : Shift ε Nat) = .ok (v <<< k) := by
  subst hi
  exact check_bind ⟨by omega, by omega, hv⟩ _

theorem uint8_of (hi : i = k) (hk : k < 2 ^ 8) : uint8 i = k := by
  subst hi
  unfold uint8
  omega

/-- The bits that an octet has of a `uint32_t`. -/
theorem ofNat_mod_uint32 (v : Nat) : BitVec.ofNat 8 (v % 2 ^ 32) = BitVec.ofNat 8 v := by
  apply BitVec.eq_of_toNat_eq
  rw [BitVec.toNat_ofNat, BitVec.toNat_ofNat]
  exact Nat.mod_mod_of_dvd v ⟨2 ^ 24, rfl⟩

/-! ## The bit reader -/

/-- The mask of the end test, for as many bits as are left. -/
theorem ofNat_mask {left : Nat} (hleft : left ≤ 8) :
    BitVec.ofNat 8 (0xff <<< (8 - left)) = 0xff#8 <<< (8 - left) := by
  have hall : ∀ k : Fin 9, BitVec.ofNat 8 (0xff <<< k.val) = 0xff#8 <<< k.val := by decide
  exact hall ⟨8 - left, by omega⟩

/-- With eight bits left at most, the mask is shifted by none to seven bits. -/
theorem bb_eos_eq {r : BbReader} (hlow : -1 ≤ r.bb.eos_after_bits)
    (hhigh : ¬ 8 < r.bb.eos_after_bits) : (bb_eos r : Shift ε Bool) = .ok (Hpack.bb_eos r) := by
  unfold bb_eos Hpack.bb_eos next_ones
  by_cases hnone : r.bb.eos_after_bits = -1
  · rw [if_pos hnone, if_pos hnone]
    rfl
  · rw [if_neg hnone, if_neg hnone]
    by_cases hend : r.bb.eos_after_bits = 0
    · rw [if_pos hend, if_pos hend]
      rfl
    · -- one to eight bits are left
      obtain ⟨left, hleft⟩ : ∃ left : Nat, r.bb.eos_after_bits = left :=
        ⟨r.bb.eos_after_bits.toNat, by omega⟩
      have hmask : 0xff <<< (8 - left) < 2 ^ 31 := by
        have hall : ∀ k : Fin 9, 0xff <<< k.val < 2 ^ 31 := by decide
        exact hall ⟨8 - left, by omega⟩
      rw [if_neg hend, if_neg hend, if_neg hhigh]
      show (shl_int 0xff (8 - r.bb.eos_after_bits) >>= _ : Shift ε Bool) = _
      rw [shl_int_of (k := 8 - left) (by omega) (by omega) hmask, ok_bind, ofNat_mask (by omega)]
      dsimp only
      rw [show r.bb.eos_after_bits.toNat = left by omega, if_neg (by omega)]
      rfl

/-! ## The encoder -/

variable {huffcode bits base buflen : Nat} {st : EncodeState}

theorem fill_partial_octet_eq (hshort : st.existing_bits ≤ 8) (hbits : bits ≤ 30) :
    fill_partial_octet huffcode bits st base buflen =
      lift (Hpack.fill_partial_octet huffcode bits st base buflen) := by
  unfold fill_partial_octet Hpack.fill_partial_octet
  by_cases hnone : st.existing_bits = 0
  · rw [if_pos hnone, if_pos hnone]
    rfl
  · rw [if_neg hnone, if_neg hnone]
    by_cases hreach : 8 ≤ bits + st.existing_bits
    · -- the code word reaches the end of the octet
      have hleft : (bits - (8 - st.existing_bits : Int)) = (bits - (8 - st.existing_bits) : Nat) := by
        omega
      have hmask : 1 <<< (bits - (8 - st.existing_bits)) < 2 ^ 31 := by
        rw [Nat.one_shiftLeft]
        exact Nat.pow_lt_pow_right (by omega) (by omega)
      rw [if_pos hreach, if_pos hreach, shr_of hleft (by omega), ok_bind]
      dsimp only
      rw [uint8_of hleft (by omega), shl_int_of rfl (by omega) hmask, ok_bind]
      by_cases hfull : buflen ≤ st.outi
      · rw [if_pos hfull, if_pos hfull]
        rfl
      · rw [if_neg hfull, if_neg hfull]
        rfl
    · -- the code word fits into the octet
      have hroom : (8 - (st.existing_bits + bits : Int)) = (8 - (st.existing_bits + bits) : Nat) := by
        omega
      have hnew : uint8 (8 - st.existing_bits) = 8 - st.existing_bits :=
        uint8_of (by omega) (by omega)
      rw [if_neg hreach, if_neg hreach]
      dsimp only
      rw [shl_of hroom (by omega), ok_bind, hnew, if_pos (by omega), uint8_of (k := bits - bits)
        (by omega) (by omega), uint8_of (k := st.existing_bits + bits) (by omega) (by omega),
        ofNat_mod_uint32]
      rfl

theorem write_full_eq : ∀ {bits : Nat} {st : EncodeState}, bits ≤ 30 →
    write_full huffcode bits st base buflen =
      lift (Hpack.write_full huffcode bits st base buflen) := by
  intro bits
  induction bits using Nat.strong_induction_on with
  | _ bits ih =>
      intro st hbits
      by_cases hmore : 8 < bits
      · obtain ⟨n, rfl⟩ : ∃ n, bits = n + 9 := ⟨bits - 9, by omega⟩
        rw [write_full, Hpack.write_full]
        by_cases hfull : buflen ≤ st.outi
        · rw [if_pos hfull, if_pos hfull]
          rfl
        · rw [if_neg hfull, if_neg hfull, shr_of (k := n + 1) (by omega) (by omega), ok_bind]
          exact ih (n + 1) (by omega) (by omega)
      · rw [write_full, Hpack.write_full]
        · rfl
        · rintro n rfl
          omega
        · rintro n rfl
          omega

theorem encode_symbol_eq {buf₀ : Mem} {bs : List Bool} {c : Octet}
    (h : Packed buf₀ base buflen bs st) :
    encode_symbol c st base buflen = lift (Hpack.encode_symbol c st base buflen) := by
  obtain ⟨out, waiting, hp, rfl⟩ := h
  obtain ⟨hlow, hhigh, hval⟩ := encvOf_bounds c
  have hcode : (encvOf c).value < 2 ^ (encvOf c).bits := by omega
  have hvalue : (encvOf c).value % 2 ^ 32 = (encvOf c).value :=
    Nat.mod_eq_of_lt (hcode.trans (Nat.pow_lt_pow_right (by omega) (by omega)))
  unfold encode_symbol Hpack.encode_symbol
  show (fill_partial_octet ((encvOf c).value % 2 ^ 32) (encvOf c).bits st base buflen >>= _) =
    lift (Hpack.fill_partial_octet (encvOf c).value (encvOf c).bits st base buflen >>= _)
  rw [hvalue, fill_partial_octet_eq hp.short hhigh, lift_bind]
  cases hfill : Hpack.fill_partial_octet (encvOf c).value (encvOf c).bits st base buflen with
  | error m => rfl
  | ok filled =>
      obtain ⟨huffcode, bits, st₁⟩ := filled
      obtain ⟨hle, out₁, waiting₁, hp₁, hcase, -⟩ := fill_partial_octet_ok hp hcode hfill
      rw [lift_ok, ok_bind, ok_bind]
      dsimp only
      rw [write_full_eq (by omega), lift_bind]
      cases hwrite : Hpack.write_full huffcode bits st₁ base buflen with
      | error m => rfl
      | ok written =>
          obtain ⟨rest, st₂⟩ := written
          -- full octets are only taken off a code that nothing waits in front of
          have hrest : rest ≤ 8 := by
            rcases hcase with rfl | rfl
            · exact (write_full_ok hp₁ hwrite).1
            · obtain ⟨rfl, -⟩ : 0 = rest ∧ st₁ = st₂ := by simpa [write_full_zero] using hwrite
              omega
          rw [lift_ok, ok_bind, ok_bind]
          dsimp only
          by_cases hnone : rest = 0
          · rw [if_neg (by omega), if_neg (by omega)]
            rfl
          · rw [if_pos hnone, if_pos hnone, shl_of (k := 8 - rest) (by omega) (by omega), ok_bind,
              ofNat_mod_uint32]
            rfl

theorem encode_loop_eq {buf₀ : Mem} {input : Bytes} :
    ∀ {bs : List Bool} {st : EncodeState}, Packed buf₀ base buflen bs st →
      encode_loop input st base buflen = lift (Hpack.encode_loop input st base buflen) := by
  induction input with
  | nil =>
      intro bs st h
      rfl
  | cons c input ih =>
      intro bs st h
      rw [encode_loop, Hpack.encode_loop, encode_symbol_eq h, lift_bind]
      cases hsym : Hpack.encode_symbol c st base buflen with
      | error m => rfl
      | ok st₁ => exact ih (encode_symbol_ok h hsym)

theorem flush_partial_octet_eq (hshort : st.existing_bits ≤ 8) :
    flush_partial_octet st base buflen = lift (Hpack.flush_partial_octet st base buflen) := by
  unfold flush_partial_octet Hpack.flush_partial_octet
  by_cases hnone : st.existing_bits = 0
  · rw [if_neg (by omega), if_neg (by omega)]
    rfl
  · rw [if_pos hnone, if_pos hnone]
    by_cases hfull : buflen ≤ st.outi
    · rw [if_pos hfull, if_pos hfull]
      rfl
    · have hmask : 1 <<< (8 - st.existing_bits) < 2 ^ 31 := by
        rw [Nat.one_shiftLeft]
        exact Nat.pow_lt_pow_right (by omega) (by omega)
      rw [if_neg hfull, if_neg hfull, shl_int_of (by omega) (by omega) hmask]
      rfl

/-- The encoder shifts by what its types allow, whatever it encodes. -/
theorem encode_eq (input : Bytes) (base : Nat) (buf : Mem) (buflen : Nat) :
    encode input base buf buflen = .ok (Hpack.encode input base buf buflen) := by
  have hinit := packed_init buf base buflen
  unfold encode Hpack.encode
  dsimp only
  rw [encode_loop_eq hinit]
  cases hloop : Hpack.encode_loop input _ base buflen with
  | error m => rfl
  | ok st =>
      obtain ⟨out, waiting, hp, -⟩ := encode_loop_ok hinit hloop
      rw [lift_ok, ok_bind, flush_partial_octet_eq hp.short]
      dsimp only
      cases Hpack.flush_partial_octet st base buflen with
      | error m => rfl
      | ok st => rfl

end Shitty.Hpack.Shifts
