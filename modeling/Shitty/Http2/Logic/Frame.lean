import Shitty.Http2.Frame

/-!
# Frame headers read with signed octets

Which octets of a header come back out of the shifts and the ors, and so which headers
are read as they were written. An octet with its top bit set fills everything in front
of it with ones. It does no harm only where ones are there already, and these are the
headers that survive.
-/

namespace Shitty.Http2

/-! ## Octets widened with their sign -/

/-- Octets put together most significant first lose nothing to a sign: each one
whose top bit is set has only 0xff in front of it. -/
def SignSafe : List Octet → Prop
  | [] => True
  | a :: rest => (a ≠ 0xff#8 → ∀ b ∈ rest, b.msb = false) ∧ SignSafe rest

instance decidableSignSafe : (os : List Octet) → Decidable (SignSafe os)
  | [] => isTrue trivial
  | _ :: rest =>
      have := decidableSignSafe rest
      inferInstanceAs (Decidable (_ ∧ _))

theorem getLsbD_widen (c : Octet) (i : Nat) :
    (widen c).getLsbD i = (decide (i < 32) && if i < 8 then c.getLsbD i else c.msb) := by
  rw [widen, BitVec.getLsbD_signExtend]

theorem eq_ff_iff (a : Octet) : a = 0xff#8 ↔ ∀ i < 8, a.getLsbD i = true := by
  constructor
  · rintro rfl i hi
    have hall : ∀ j : Fin 8, (0xff#8).getLsbD j = true := by decide
    exact hall ⟨i, hi⟩
  · intro h
    apply BitVec.eq_of_getLsbD_eq
    intro i hi
    have hall : ∀ j : Fin 8, (0xff#8).getLsbD j = true := by decide
    rw [h i hi, hall ⟨i, hi⟩]

/-- The length field of three octets. -/
def lengthOf (a b c : Octet) : BitVec 24 :=
  ((widen a <<< 16) ||| (widen b <<< 8) ||| (widen c <<< 0)).setWidth 24

theorem getLsbD_lengthOf (a b c : Octet) {i : Nat} (hi : i < 24) :
    (lengthOf a b c).getLsbD i =
      if i < 8 then c.getLsbD i
      else if i < 16 then (b.getLsbD (i - 8) || c.msb)
      else (a.getLsbD (i - 16) || b.msb || c.msb) := by
  simp only [lengthOf, BitVec.getLsbD_setWidth, BitVec.getLsbD_or, BitVec.getLsbD_shiftLeft,
    getLsbD_widen, Nat.sub_zero]
  by_cases h8 : i < 8
  · simp [h8, show i < 16 by omega, show i < 24 by omega, show i < 32 by omega]
  · by_cases h16 : i < 16
    · simp [h8, h16, show i < 24 by omega, show i < 32 by omega, show i - 8 < 32 by omega,
        show i - 8 < 8 by omega]
    · simp [h8, h16, hi, show i < 32 by omega, show i - 8 < 32 by omega,
        show ¬ i - 8 < 8 by omega, show i - 16 < 32 by omega, show i - 16 < 8 by omega]

/-- The reserved bit and stream id of four octets. -/
def streamOf (a b c d : Octet) : BitVec 32 :=
  (widen a <<< 24) ||| (widen b <<< 16) ||| (widen c <<< 8) ||| (widen d <<< 0)

theorem getLsbD_streamOf (a b c d : Octet) {i : Nat} (hi : i < 32) :
    (streamOf a b c d).getLsbD i =
      if i < 8 then d.getLsbD i
      else if i < 16 then (c.getLsbD (i - 8) || d.msb)
      else if i < 24 then (b.getLsbD (i - 16) || c.msb || d.msb)
      else (a.getLsbD (i - 24) || b.msb || c.msb || d.msb) := by
  simp only [streamOf, BitVec.getLsbD_or, BitVec.getLsbD_shiftLeft, getLsbD_widen, Nat.sub_zero]
  by_cases h8 : i < 8
  · simp [h8, show i < 16 by omega, show i < 24 by omega, show i < 32 by omega]
  · by_cases h16 : i < 16
    · simp [h8, h16, show i < 24 by omega, show i < 32 by omega, show i - 8 < 32 by omega,
        show i - 8 < 8 by omega]
    · by_cases h24 : i < 24
      · simp [h8, h16, h24, show i < 32 by omega, show i - 8 < 32 by omega,
          show ¬ i - 8 < 8 by omega, show i - 16 < 32 by omega, show i - 16 < 8 by omega]
      · simp [h8, h16, h24, hi, show i - 8 < 32 by omega, show ¬ i - 8 < 8 by omega,
          show i - 16 < 32 by omega, show ¬ i - 16 < 8 by omega, show i - 24 < 32 by omega,
          show i - 24 < 8 by omega]

/-! ## When the fields come back -/

/-- Each bit of an octet is set, or nothing behind the octet has its top bit set. -/
theorem or_eq_self_iff (a : Octet) (s : Bool) :
    (∀ i < 8, (a.getLsbD i || s) = a.getLsbD i) ↔ (a ≠ 0xff#8 → s = false) := by
  cases s with
  | false => simp
  | true =>
      simp only [Bool.or_true, Bool.true_eq_false, imp_false, not_not, eq_ff_iff]
      exact ⟨fun h i hi => (h i hi).symm, fun h i hi => (h i hi).symm⟩

theorem getLsbD_byte {w : Nat} (v : BitVec w) (k i : Nat) :
    (FrameHeader.byte (v >>> k)).getLsbD i = (decide (i < 8) && v.getLsbD (k + i)) := by
  rw [FrameHeader.byte, BitVec.getLsbD_setWidth, BitVec.getLsbD_ushiftRight]

theorem byte_eq_iff {w : Nat} (v : BitVec w) (k : Nat) (a : Octet) :
    FrameHeader.byte (v >>> k) = a ↔ ∀ i < 8, v.getLsbD (k + i) = a.getLsbD i := by
  constructor
  · rintro rfl i hi
    rw [getLsbD_byte, decide_eq_true hi, Bool.true_and]
  · intro h
    apply BitVec.eq_of_getLsbD_eq
    intro i hi
    rw [getLsbD_byte, decide_eq_true hi, Bool.true_and, h i hi]

/-- The octets of the length field read from three octets. -/
theorem length_octets_iff (a b c : Octet) :
    (FrameHeader.byte (lengthOf a b c >>> 16) = a ∧ FrameHeader.byte (lengthOf a b c >>> 8) = b ∧
      FrameHeader.byte (lengthOf a b c >>> 0) = c) ↔ SignSafe [a, b, c] := by
  have ha : FrameHeader.byte (lengthOf a b c >>> 16) = a ↔ (a ≠ 0xff#8 → (b.msb || c.msb) = false) := by
    rw [byte_eq_iff, ← or_eq_self_iff]
    refine forall₂_congr fun i hi => ?_
    rw [getLsbD_lengthOf _ _ _ (by omega), if_neg (by omega), if_neg (by omega),
      Nat.add_sub_cancel_left, Bool.or_assoc]
  have hb : FrameHeader.byte (lengthOf a b c >>> 8) = b ↔ (b ≠ 0xff#8 → c.msb = false) := by
    rw [byte_eq_iff, ← or_eq_self_iff]
    refine forall₂_congr fun i hi => ?_
    rw [getLsbD_lengthOf _ _ _ (by omega), if_neg (by omega), if_pos (by omega),
      Nat.add_sub_cancel_left]
  have hc : FrameHeader.byte (lengthOf a b c >>> 0) = c := by
    rw [byte_eq_iff]
    intro i hi
    rw [getLsbD_lengthOf _ _ _ (by omega), if_pos (by omega), Nat.zero_add]
  rw [ha, hb, and_iff_left hc]
  simp [SignSafe]

/-- The octets of the reserved bit and stream id read from four octets. -/
theorem stream_octets_iff (a b c d : Octet) :
    (FrameHeader.byte (streamOf a b c d >>> 24) = a ∧
      FrameHeader.byte (streamOf a b c d >>> 16) = b ∧
      FrameHeader.byte (streamOf a b c d >>> 8) = c ∧
      FrameHeader.byte (streamOf a b c d >>> 0) = d) ↔ SignSafe [a, b, c, d] := by
  have ha : FrameHeader.byte (streamOf a b c d >>> 24) = a ↔
      (a ≠ 0xff#8 → (b.msb || (c.msb || d.msb)) = false) := by
    rw [byte_eq_iff, ← or_eq_self_iff]
    refine forall₂_congr fun i hi => ?_
    rw [getLsbD_streamOf _ _ _ _ (by omega), if_neg (by omega), if_neg (by omega),
      if_neg (by omega), Nat.add_sub_cancel_left, Bool.or_assoc, Bool.or_assoc]
  have hb : FrameHeader.byte (streamOf a b c d >>> 16) = b ↔
      (b ≠ 0xff#8 → (c.msb || d.msb) = false) := by
    rw [byte_eq_iff, ← or_eq_self_iff]
    refine forall₂_congr fun i hi => ?_
    rw [getLsbD_streamOf _ _ _ _ (by omega), if_neg (by omega), if_neg (by omega),
      if_pos (by omega), Nat.add_sub_cancel_left, Bool.or_assoc]
  have hc : FrameHeader.byte (streamOf a b c d >>> 8) = c ↔ (c ≠ 0xff#8 → d.msb = false) := by
    rw [byte_eq_iff, ← or_eq_self_iff]
    refine forall₂_congr fun i hi => ?_
    rw [getLsbD_streamOf _ _ _ _ (by omega), if_neg (by omega), if_pos (by omega),
      Nat.add_sub_cancel_left]
  have hd : FrameHeader.byte (streamOf a b c d >>> 0) = d := by
    rw [byte_eq_iff]
    intro i hi
    rw [getLsbD_streamOf _ _ _ _ (by omega), if_pos (by omega), Nat.zero_add]
  rw [ha, hb, hc, and_iff_left hd]
  simp [SignSafe]

/-- A number is determined by its octets. -/
theorem eq_of_bytes {w n : Nat} (hw : w = 8 * n) {v v' : BitVec w}
    (h : ∀ k < n, FrameHeader.byte (v >>> (8 * k)) = FrameHeader.byte (v' >>> (8 * k))) :
    v = v' := by
  apply BitVec.eq_of_getLsbD_eq
  intro i hi
  have hbit := (byte_eq_iff v (8 * (i / 8)) _).mp (h (i / 8) (by omega)) (i % 8) (by omega)
  rw [getLsbD_byte, decide_eq_true (by omega), Bool.true_and,
    show 8 * (i / 8) + i % 8 = i by omega] at hbit
  exact hbit

/-- The two fields behind one 32-bit number. -/
def packed (reserved : BitVec 1) (streamId : BitVec 31) : BitVec 32 :=
  (reserved.setWidth 32 <<< 31) ||| streamId.setWidth 32

theorem getLsbD_packed (reserved : BitVec 1) (streamId : BitVec 31) {i : Nat} (hi : i < 32) :
    (packed reserved streamId).getLsbD i =
      if i < 31 then streamId.getLsbD i else reserved.getLsbD (i - 31) := by
  rw [packed, BitVec.getLsbD_or, BitVec.getLsbD_shiftLeft, BitVec.getLsbD_setWidth,
    BitVec.getLsbD_setWidth]
  by_cases h : i < 31
  · simp [h, hi]
  · rw [BitVec.getLsbD_of_ge streamId i (by omega)]
    simp [h, hi, show i - 31 < 32 by omega]

theorem getLsbD_mask31 {i : Nat} (hi : i < 32) : (0x7fffffff#32).getLsbD i = decide (i < 31) := by
  rw [BitVec.getLsbD_ofNat, show 0x7fffffff = 2 ^ 31 - 1 by norm_num, Nat.testBit_two_pow_sub_one]
  simp [hi]

theorem packed_split (v : BitVec 32) :
    packed ((v >>> 31).setWidth 1) ((v &&& 0x7fffffff#32).setWidth 31) = v := by
  apply BitVec.eq_of_getLsbD_eq
  intro i hi
  rw [getLsbD_packed _ _ hi]
  split
  · rename_i h
    rw [BitVec.getLsbD_setWidth, BitVec.getLsbD_and, getLsbD_mask31 hi]
    simp [h]
  · rw [BitVec.getLsbD_setWidth, BitVec.getLsbD_ushiftRight, show 31 + (i - 31) = i by omega]
    simp [show i - 31 < 1 by omega]

theorem split_packed (reserved : BitVec 1) (streamId : BitVec 31) :
    (packed reserved streamId >>> 31).setWidth 1 = reserved ∧
      (packed reserved streamId &&& 0x7fffffff#32).setWidth 31 = streamId := by
  constructor
  · apply BitVec.eq_of_getLsbD_eq
    intro i hi
    rw [BitVec.getLsbD_setWidth, BitVec.getLsbD_ushiftRight, getLsbD_packed _ _ (by omega),
      if_neg (by omega), Nat.add_sub_cancel_left, decide_eq_true hi, Bool.true_and]
  · apply BitVec.eq_of_getLsbD_eq
    intro i hi
    rw [BitVec.getLsbD_setWidth, BitVec.getLsbD_and, getLsbD_mask31 (by omega),
      getLsbD_packed _ _ (by omega), if_pos hi, decide_eq_true hi, Bool.true_and, Bool.and_true]

/-! ## The codec -/

/-- No octet of a multi-octet field is damaged by the sign of one behind it. -/
def Survives (octets : Bytes) : Prop :=
  SignSafe [dataAt octets 0, dataAt octets 1, dataAt octets 2] ∧
    SignSafe [dataAt octets 5, dataAt octets 6, dataAt octets 7, dataAt octets 8]

instance (octets : Bytes) : Decidable (Survives octets) :=
  inferInstanceAs (Decidable (_ ∧ _))

@[simp] theorem length_writeTo (h : FrameHeader) : h.writeTo.length = 9 := rfl

/-- What is read from nine octets and more. -/
theorem readFrameHeader_eq (a b c d e f g h i : Octet) (rest : Bytes) :
    readFrameHeader ([a, b, c, d, e, f, g, h, i] ++ rest) =
      .ok ({ length := lengthOf a b c
             type := d
             flags := e
             reserved := (streamOf f g h i >>> 31).setWidth 1
             streamId := (streamOf f g h i &&& 0x7fffffff#32).setWidth 31 }, rest) := by
  rfl

theorem lengthOf_bytes_iff (v : BitVec 24) :
    lengthOf (FrameHeader.byte (v >>> 16)) (FrameHeader.byte (v >>> 8))
        (FrameHeader.byte (v >>> 0)) = v ↔
      SignSafe [FrameHeader.byte (v >>> 16), FrameHeader.byte (v >>> 8),
        FrameHeader.byte (v >>> 0)] := by
  rw [← length_octets_iff]
  constructor
  · intro h
    rw [h]
    exact ⟨rfl, rfl, rfl⟩
  · rintro ⟨h16, h8, h0⟩
    refine eq_of_bytes (n := 3) rfl ?_
    intro k hk
    match k with
    | 0 => exact h0
    | 1 => exact h8
    | 2 => exact h16

theorem streamOf_bytes_iff (v : BitVec 32) :
    streamOf (FrameHeader.byte (v >>> 24)) (FrameHeader.byte (v >>> 16))
        (FrameHeader.byte (v >>> 8)) (FrameHeader.byte (v >>> 0)) = v ↔
      SignSafe [FrameHeader.byte (v >>> 24), FrameHeader.byte (v >>> 16),
        FrameHeader.byte (v >>> 8), FrameHeader.byte (v >>> 0)] := by
  rw [← stream_octets_iff]
  constructor
  · intro h
    rw [h]
    exact ⟨rfl, rfl, rfl, rfl⟩
  · rintro ⟨h24, h16, h8, h0⟩
    refine eq_of_bytes (n := 4) rfl ?_
    intro k hk
    match k with
    | 0 => exact h0
    | 1 => exact h8
    | 2 => exact h16
    | 3 => exact h24

/-- Reading a written header back, whatever follows it. -/
theorem readFrameHeader_writeTo (h : FrameHeader) (rest : Bytes) :
    readFrameHeader (h.writeTo ++ rest) = .ok (h, rest) ↔ Survives h.writeTo := by
  obtain ⟨length, type, flags, reserved, streamId⟩ := h
  have hlength := lengthOf_bytes_iff length
  have hstream := streamOf_bytes_iff (packed reserved streamId)
  rw [FrameHeader.writeTo, readFrameHeader_eq, ← packed]
  simp only [Except.ok.injEq, Prod.mk.injEq, and_true, FrameHeader.mk.injEq, FrameHeader.byte,
    BitVec.setWidth_eq, true_and] at hlength hstream ⊢
  rw [hlength]
  refine and_congr Iff.rfl (Iff.trans ?_ hstream)
  constructor
  · rintro ⟨hreserved, hid⟩
    rw [← packed_split (streamOf _ _ _ _), hreserved, hid]
  · intro heq
    rw [heq]
    exact split_packed reserved streamId

/-- Writing the header read from nine octets. -/
theorem writeTo_readFrameHeader (a b c d e f g h i : Octet) :
    (∃ header, readFrameHeader [a, b, c, d, e, f, g, h, i] = .ok (header, []) ∧
      header.writeTo = [a, b, c, d, e, f, g, h, i]) ↔ Survives [a, b, c, d, e, f, g, h, i] := by
  have hread := readFrameHeader_eq a b c d e f g h i []
  rw [List.append_nil] at hread
  have hlength := length_octets_iff a b c
  have hstream := stream_octets_iff f g h i
  constructor
  · rintro ⟨header, hheader, hwrite⟩
    rw [hread] at hheader
    cases hheader
    rw [FrameHeader.writeTo, ← packed, packed_split] at hwrite
    simp only [List.cons.injEq, and_true] at hwrite
    obtain ⟨h0, h1, h2, -, -, h5, h6, h7, h8⟩ := hwrite
    exact ⟨hlength.mp ⟨h0, h1, h2⟩, hstream.mp ⟨h5, h6, h7, h8⟩⟩
  · rintro ⟨hl, hs⟩
    obtain ⟨h0, h1, h2⟩ := hlength.mpr hl
    obtain ⟨h5, h6, h7, h8⟩ := hstream.mpr hs
    refine ⟨_, hread, ?_⟩
    have hbyte : ∀ o : Octet, FrameHeader.byte o = o := fun o => BitVec.setWidth_eq o
    rw [FrameHeader.writeTo, ← packed, packed_split]
    show [FrameHeader.byte (lengthOf a b c >>> 16), FrameHeader.byte (lengthOf a b c >>> 8),
      FrameHeader.byte (lengthOf a b c >>> 0), FrameHeader.byte d, FrameHeader.byte e,
      FrameHeader.byte (streamOf f g h i >>> 24), FrameHeader.byte (streamOf f g h i >>> 16),
      FrameHeader.byte (streamOf f g h i >>> 8), FrameHeader.byte (streamOf f g h i >>> 0)] = _
    rw [h0, h1, h2, h5, h6, h7, h8, hbyte d, hbyte e]

/-! ## Numbers on the wire -/

/-- A number on the wire, its most significant octet first. -/
def wireNumber (octets : Bytes) : Nat := octets.foldl (fun n octet => 256 * n + octet.toNat) 0

/-- Four octets of a number, most significant first. -/
theorem wireNumber_bytes (r : BitVec 32) :
    wireNumber [FrameHeader.byte (r >>> 24), FrameHeader.byte (r >>> 16),
      FrameHeader.byte (r >>> 8), FrameHeader.byte (r >>> 0)] = r.toNat := by
  have hr := r.isLt
  simp only [wireNumber, List.foldl_cons, List.foldl_nil, FrameHeader.byte, BitVec.toNat_setWidth,
    BitVec.toNat_ushiftRight, Nat.shiftRight_eq_div_pow]
  omega

end Shitty.Http2
