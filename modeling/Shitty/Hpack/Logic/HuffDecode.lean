import Shitty.Hpack.HuffDecode
import Shitty.Hpack.Logic.HuffmanCode

/-!
# What the decoder finds

At any bit offset, one turn of the decoder's loop finds the symbol whose code the input,
followed by ones, shows there, and moves behind that code; or it finds the end-of-string
code, thirty ones. That the lookup tables hold the code is checked by evaluation, entry
by entry. Everything else about a turn follows from what an entry says about the bits in
front of the reader.
-/

namespace Shitty.Hpack

open Lib Lib.Bits

/-! ## The tables hold the code -/

/-- The entry at index `i` of a table, for an index of `w` bits behind `kw`
known bits, belongs to a code word those bits begin with. -/
def entryOk (known kw w lo hi i : Nat) (e : FastFindSymbol) : Bool :=
  let encv := encvOf e.octet
  (known * 2 ^ w + i) / 2 ^ (kw + w - e.bits) == encv.value && encv.bits == e.bits &&
    decide (lo ≤ e.bits) && decide (e.bits ≤ hi)

/-- Every entry is right, except for sentinels, which start at index `sent`. -/
def tableOk (known kw w lo hi sent : Nat) (table : List FastFindSymbol) : Bool :=
  table.zipIdx.all fun p =>
    if p.1.octet == SENTINEL then decide (sent ≤ p.2)
    else entryOk known kw w lo hi p.2 p.1

/-- All of them are right. No sentinel stands in the way of the octet 255 in `shortbits23`. -/
structure TablesOk : Prop where
  shortbits0 : tableOk 0 0 8 1 8 0xfe shortbits0 = true
  shortbits1_ff : tableOk 0xff 8 8 9 15 0xfe shortbits1_ff = true
  shortbits2_fffe : tableOk 0xfffe 16 8 17 23 256 shortbits2_fffe = true
  shortbits2_ffff : tableOk 0xffff 16 8 17 24 0xf6 shortbits2_ffff = true
  shortbits23 : shortbits23.zipIdx.all (fun p =>
    decide (p.2 < 96) || entryOk 0xfffff 20 8 25 27 p.2 p.1) = true
  shortbits3 : tableOk 0x7fffff 23 7 25 30 127 shortbits3 = true

theorem tables_ok : TablesOk := by
  constructor <;> decide +kernel

theorem table_lengths :
    shortbits0.length = 256 ∧ shortbits1_ff.length = 256 ∧ shortbits2_fffe.length = 256 ∧
      shortbits2_ffff.length = 256 ∧ shortbits23.length = 224 ∧ shortbits3.length = 128 := by
  decide +kernel

/-- Bits that lead to a right entry show the code word of its octet. -/
theorem showsAt_of_entryOk {s : Nat → Bool} {o known kw w lo hi i : Nat} {e : FastFindSymbol}
    (hknown : slice s o kw = Bits.ofNat kw known) (hindex : slice s (o + kw) w = Bits.ofNat w i)
    (hlt : i < 2 ^ w) (hle : hi ≤ kw + w) (h : entryOk known kw w lo hi i e = true) :
    huffmanCode.ShowsAt s o e.octet ∧ (huffmanWord e.octet).length = e.bits ∧
      lo ≤ e.bits ∧ e.bits ≤ hi := by
  simp only [entryOk, Bool.and_eq_true, beq_iff_eq, decide_eq_true_eq] at h
  obtain ⟨⟨⟨hvalue, hbits⟩, hlo⟩, hhi⟩ := h
  have hlen : (huffmanWord e.octet).length = e.bits := by rw [length_huffmanWord, hbits]
  refine ⟨?_, hlen, hlo, hhi⟩
  show slice s o (huffmanWord e.octet).length = huffmanWord e.octet
  rw [hlen, ← take_slice s o (show e.bits ≤ kw + w by omega),
    slice_ofNat_append hknown hindex hlt, take_ofNat (by omega), hvalue, huffmanWord, hbits]

theorem at_eq_getElem {table : List FastFindSymbol} {b : Octet} (h : b.toNat < table.length) :
    FastFindSymbol.at table b = table[b.toNat] := by
  simp [FastFindSymbol.at, List.getD, h]

theorem mem_zipIdx_at {table : List FastFindSymbol} {b : Octet} (h : b.toNat < table.length) :
    (FastFindSymbol.at table b, b.toNat) ∈ table.zipIdx := by
  rw [at_eq_getElem h]
  exact List.mk_mem_zipIdx_iff_getElem?.mpr (List.getElem?_eq_getElem h)

/-- A lookup that does not hit a sentinel finds a right entry. -/
theorem entryOk_at {known kw w lo hi sent : Nat} {table : List FastFindSymbol} {b : Octet}
    (h : tableOk known kw w lo hi sent table = true) (hlen : b.toNat < table.length)
    (hne : (FastFindSymbol.at table b).octet ≠ SENTINEL) :
    entryOk known kw w lo hi b.toNat (FastFindSymbol.at table b) = true := by
  have hp := List.all_eq_true.mp h _ (mem_zipIdx_at hlen)
  rwa [if_neg (by simpa using hne)] at hp

theorem sentinel_at {known kw w lo hi sent : Nat} {table : List FastFindSymbol} {b : Octet}
    (h : tableOk known kw w lo hi sent table = true) (hlen : b.toNat < table.length)
    (heq : ¬ (FastFindSymbol.at table b).octet ≠ SENTINEL) : sent ≤ b.toNat := by
  have hp := List.all_eq_true.mp h _ (mem_zipIdx_at hlen)
  rw [if_pos (by simpa using heq)] at hp
  simpa using hp

theorem entryOk_at23 {b : Octet} (hlo : 96 ≤ b.toNat) (hhi : b.toNat < 224) :
    entryOk 0xfffff 20 8 25 27 b.toNat (FastFindSymbol.at shortbits23 b) = true := by
  have hlen : b.toNat < shortbits23.length := by
    rw [table_lengths.2.2.2.2.1]
    exact hhi
  have hp := List.all_eq_true.mp tables_ok.shortbits23 _ (mem_zipIdx_at hlen)
  simp only [Bool.or_eq_true, decide_eq_true_eq] at hp
  rcases hp with hp | hp
  · omega
  · exact hp

/-- An octet whose lookup is a sentinel at or behind 0xfe, and which is not 0xfe. -/
theorem eq_ff_of_ge {b : Octet} (h : 0xfe ≤ b.toNat) (hne : b ≠ 0xfe#8) : b.toNat = 0xff := by
  have hlt := b.isLt
  have hfe : b.toNat ≠ 0xfe := by
    intro heq
    exact hne (BitVec.eq_of_toNat_eq heq)
  omega

/-- The codes behind 0xfe are told apart by the two bits that follow it. -/
theorem fe_branches (k : Nat) (hk : k < 4) :
    encvOf ([0x21#8, 0x22#8, 0x28#8, 0x29#8].getD k 0) = ⟨0xfe * 2 ^ 2 + k, 10⟩ := by
  have hall : ∀ j : Fin 4,
      encvOf ([0x21#8, 0x22#8, 0x28#8, 0x29#8].getD j 0) = ⟨0xfe * 2 ^ 2 + j.val, 10⟩ := by
    decide +kernel
  exact hall ⟨k, hk⟩

/-! ## The shared octets -/

/-- The index into `shortbits23`, as a number made of the two octets. -/
theorem toNat_index23 (b c : Octet) :
    ((b <<< 4) ||| (c >>> 4)).toNat = b.toNat % 16 * 16 + c.toNat / 16 := by
  have hc : c.toNat / 16 < 2 ^ 4 := by
    have := c.isLt
    omega
  rw [BitVec.toNat_or, BitVec.toNat_shiftLeft, BitVec.toNat_ushiftRight,
    Nat.shiftLeft_eq, Nat.shiftRight_eq_div_pow,
    show b.toNat * 2 ^ 4 % 2 ^ 8 = 2 ^ 4 * (b.toNat % 16) by omega,
    ← Nat.two_pow_add_eq_or_of_lt hc]
  omega

/-- The index into `shortbits3`, as a number made of the two octets. -/
theorem toNat_index3 (b c : Octet) :
    (((b <<< 6) &&& 64#8) ||| (c >>> 2)).toNat = b.toNat % 2 * 64 + c.toNat / 4 := by
  have hc : c.toNat / 4 < 2 ^ 6 := by
    have := c.isLt
    omega
  have hb : ((b <<< 6) &&& 64#8).toNat = 2 ^ 6 * (b.toNat % 2) := by
    revert b
    decide
  rw [BitVec.toNat_or, hb, BitVec.toNat_ushiftRight, Nat.shiftRight_eq_div_pow,
    ← Nat.two_pow_add_eq_or_of_lt hc]
  omega

/-- Known bits and the octet the reader looks ahead to. -/
theorem ReadsAt.known {buf : Bytes} {o kw known : Nat} {r : BbReader}
    (h : ReadsAt buf (o + kw) r) (hknown : slice (inputBits buf) o kw = Bits.ofNat kw known) :
    slice (inputBits buf) o (kw + 8) =
      Bits.ofNat (kw + 8) (known * 2 ^ 8 + (bb_peek r).toNat) :=
  slice_ofNat_append hknown h.peek.symm (bb_peek r).isLt

/-! ## One turn of the loop -/

/-- What a turn of the loop at offset `o` is right about. -/
def Found (buf : Bytes) (o : Nat) : Option (Octet × BbReader) → Prop
  | some (a, r) =>
      huffmanCode.ShowsAt (inputBits buf) o a ∧ ReadsAt buf (o + (huffmanWord a).length) r
  | none => slice (inputBits buf) o 30 = List.replicate 30 true

/-- A right entry, and the reader moved on by the bits of the code not yet
consumed. -/
theorem found_of_entryOk {buf : Bytes} {o known kw w lo hi i used d : Nat}
    {e : FastFindSymbol} {r : BbReader} (hr : ReadsAt buf (o + used) r)
    (hknown : slice (inputBits buf) o kw = Bits.ofNat kw known)
    (hindex : slice (inputBits buf) (o + kw) w = Bits.ofNat w i) (hlt : i < 2 ^ w)
    (hle : hi ≤ kw + w) (h : entryOk known kw w lo hi i e = true)
    (hd : lo ≤ e.bits → e.bits ≤ hi → used + d = e.bits ∧ 1 ≤ d ∧ d ≤ 8) :
    Found buf o (some (e.octet, bb_next r d)) := by
  obtain ⟨hshow, hlen, hlo, hhi⟩ := showsAt_of_entryOk hknown hindex hlt hle h
  obtain ⟨hsum, hd1, hd8⟩ := hd hlo hhi
  refine ⟨hshow, ?_⟩
  rw [hlen, ← hsum, ← Nat.add_assoc]
  exact hr.bb_next ⟨hd1, hd8⟩

/-- The turn behind 0xfe finds the symbol whose code word the input shows. -/
theorem found_fe {buf : Bytes} {o : Nat} {r : BbReader} (h : ReadsAt buf (o + 8) r)
    (hknown : slice (inputBits buf) o 8 = Bits.ofNat 8 0xfe) :
    Found buf o (some
      ([0x21#8, 0x22#8, 0x28#8, 0x29#8].getD (bb_peek r >>> 6).toNat 0, bb_next r 2)) := by
  have hk : (bb_peek r >>> 6).toNat = (bb_peek r).toNat / 2 ^ 6 := by
    rw [BitVec.toNat_ushiftRight, Nat.shiftRight_eq_div_pow]
  have hlt : (bb_peek r).toNat / 2 ^ 6 < 2 ^ 2 := by
    have := (bb_peek r).isLt
    omega
  have hword := fe_branches _ hlt
  have hindex : slice (inputBits buf) (o + 8) 2 = Bits.ofNat 2 ((bb_peek r).toNat / 2 ^ 6) := by
    rw [← take_slice _ _ (show 2 ≤ 8 by omega), ← h.peek, ofOctet, take_ofNat (by omega)]
  rw [hk]
  have hlen : (huffmanWord ([0x21#8, 0x22#8, 0x28#8, 0x29#8].getD
      ((bb_peek r).toNat / 2 ^ 6) 0)).length = 10 := by
    rw [length_huffmanWord, hword]
  refine ⟨?_, ?_⟩
  · show slice (inputBits buf) o (huffmanWord _).length = huffmanWord _
    rw [hlen, huffmanWord, hword]
    exact slice_ofNat_append hknown hindex hlt
  · rw [hlen]
    have hd : 1 ≤ 2 ∧ 2 ≤ 8 := by omega
    exact h.bb_next hd

/-- The bits in front of the index in the third octet, behind those in front of it. -/
theorem slice_known {buf : Bytes} {o : Nat} {b : Octet} (k : Nat) (hk : k ≤ 8) {known : Nat}
    (hknown : slice (inputBits buf) o 16 = Bits.ofNat 16 known)
    (hthird : slice (inputBits buf) (o + 16) 8 = ofOctet b) :
    slice (inputBits buf) o (16 + k) =
      Bits.ofNat (16 + k) (known * 2 ^ k + b.toNat / 2 ^ (8 - k)) := by
  have hfront : slice (inputBits buf) (o + 16) k = Bits.ofNat k (b.toNat / 2 ^ (8 - k)) := by
    rw [← take_slice _ _ hk, hthird, ofOctet, take_ofNat hk]
  refine slice_ofNat_append hknown hfront ?_
  rw [Nat.div_lt_iff_lt_mul (Nat.two_pow_pos _), ← Nat.pow_add, show k + (8 - k) = 8 by omega]
  exact b.isLt

/-- The index is the rest of the third octet and the front of the fourth. -/
theorem slice_index {buf : Bytes} {o : Nat} {b : Octet} {r : BbReader}
    (h : ReadsAt buf (o + 24) r) (hthird : slice (inputBits buf) (o + 16) 8 = ofOctet b)
    (k m n : Nat) (hkm : k + m = 8) (hn : n ≤ 8) :
    slice (inputBits buf) (o + (16 + k)) (m + n) =
      Bits.ofNat (m + n) (b.toNat % 2 ^ m * 2 ^ n + (bb_peek r).toNat / 2 ^ (8 - n)) := by
  have hlow : slice (inputBits buf) (o + (16 + k)) m = Bits.ofNat m (b.toNat % 2 ^ m) := by
    have hdrop := drop_slice (inputBits buf) (o + 16) k m
    have hbits := drop_ofNat k m b.toNat
    rw [hkm] at hdrop hbits
    rw [← Nat.add_assoc, ← hdrop, hthird, ofOctet, hbits, ofNat_mod]
  have hhigh : slice (inputBits buf) (o + (16 + k) + m) n =
      Bits.ofNat n ((bb_peek r).toNat / 2 ^ (8 - n)) := by
    rw [show o + (16 + k) + m = o + 24 by omega, ← take_slice _ _ hn, ← h.peek, ofOctet,
      take_ofNat hn]
  refine slice_ofNat_append hlow hhigh ?_
  rw [Nat.div_lt_iff_lt_mul (Nat.two_pow_pos _), ← Nat.pow_add, show n + (8 - n) = 8 by omega]
  exact (bb_peek r).isLt

/-- The turns that look at the third and fourth octet together. -/
theorem found_third {buf : Bytes} {o : Nat} {b : Octet} {r : BbReader}
    (h : ReadsAt buf (o + 24) r) (hb : 0xf6 ≤ b.toNat)
    (hknown : slice (inputBits buf) o 16 = Bits.ofNat 16 0xffff)
    (hthird : slice (inputBits buf) (o + 16) 8 = ofOctet b) :
    Found buf o
      (if b ≠ 0xfe#8 ∧ b ≠ 0xff#8 then
        let sym := FastFindSymbol.at shortbits23 ((b <<< 4) ||| (bb_peek r >>> 4))
        some (sym.octet, bb_next r (sym.bits % 8))
      else
        let sym := FastFindSymbol.at shortbits3 (((b <<< 6) &&& 64#8) ||| (bb_peek r >>> 2))
        if sym.octet ≠ SENTINEL then some (sym.octet, bb_next r (sym.bits % 8)) else none) := by
  have hlt := b.isLt
  have hpeek := (bb_peek r).isLt
  split
  · rename_i hcase
    -- four bits of the third octet, and four of the fourth
    have hfd : b.toNat < 0xfe := by
      by_contra hc
      have hff := eq_ff_of_ge (by omega) hcase.1
      exact hcase.2 (BitVec.eq_of_toNat_eq hff)
    have h20 := slice_known 4 (by omega) hknown hthird
    rw [show 0xffff * 2 ^ 4 + b.toNat / 2 ^ (8 - 4) = 0xfffff by omega] at h20
    have hindex := slice_index h hthird 4 4 4 rfl (by omega)
    rw [show b.toNat % 2 ^ 4 * 2 ^ 4 + (bb_peek r).toNat / 2 ^ (8 - 4) =
      b.toNat % 16 * 16 + (bb_peek r).toNat / 16 from rfl, ← toNat_index23] at hindex
    exact found_of_entryOk h h20 hindex (BitVec.isLt _) (by omega)
      (entryOk_at23 (by rw [toNat_index23]; omega) (by rw [toNat_index23]; omega)) (by omega)
  · rename_i hcase
    -- its last bit, and six of the fourth
    have hfe : b.toNat = 0xfe ∨ b.toNat = 0xff := by
      by_cases hb : b = 0xfe#8
      · exact Or.inl (by rw [hb]; rfl)
      · right
        by_contra hc
        exact hcase ⟨hb, fun hff => hc (by rw [hff]; rfl)⟩
    have h23 := slice_known 7 (by omega) hknown hthird
    rw [show 0xffff * 2 ^ 7 + b.toNat / 2 ^ (8 - 7) = 0x7fffff by omega] at h23
    have hindex := slice_index h hthird 7 1 6 rfl (by omega)
    rw [show b.toNat % 2 ^ 1 * 2 ^ 6 + (bb_peek r).toNat / 2 ^ (8 - 6) =
      b.toNat % 2 * 64 + (bb_peek r).toNat / 4 from rfl, ← toNat_index3] at hindex
    generalize hidx : ((b <<< 6) &&& 64#8) ||| (bb_peek r >>> 2) = idx at hindex ⊢
    have hidxlt : idx.toNat < 2 ^ 7 := by
      rw [← hidx, toNat_index3]
      omega
    have hidxlen : idx.toNat < shortbits3.length := by
      rw [table_lengths.2.2.2.2.2]
      exact hidxlt
    by_cases hs : (FastFindSymbol.at shortbits3 idx).octet ≠ SENTINEL
    · simp only [if_pos hs]
      exact found_of_entryOk h h23 hindex hidxlt (by omega) (entryOk_at tables_ok.shortbits3 hidxlen hs)
        (by omega)
    · simp only [if_neg hs]
      -- the only entry without a symbol is that of thirty ones
      have h127 : idx.toNat = 127 := by
        have := sentinel_at tables_ok.shortbits3 hidxlen hs
        omega
      show slice (inputBits buf) o 30 = List.replicate 30 true
      rw [slice_ofNat_append h23 hindex hidxlt, h127, replicate_eq_ofNat]
      rfl

/-- One turn of the loop, at any offset of any input. -/
theorem decode_symbol_found {buf : Bytes} {o : Nat} {r : BbReader} (h : ReadsAt buf o r) :
    Found buf o (decode_symbol r) := by
  obtain ⟨hl0, hl1, hlfe, hlff, hl23, hl3⟩ := table_lengths
  have hoct : ∀ b : Octet, b.toNat < 256 := fun b => b.isLt
  have hempty : slice (inputBits buf) o 0 = Bits.ofNat 0 0 := rfl
  have hk8 := ReadsAt.known (show ReadsAt buf (o + 0) r from h) hempty
  have hd : 1 ≤ 8 ∧ 8 ≤ 8 := by omega
  have h1 := h.bb_next hd
  have h2 : ReadsAt buf (o + 16) (bb_next (bb_next r 8) 8) :=
    h1.bb_next hd
  have h3 : ReadsAt buf (o + 24) (bb_next (bb_next (bb_next r 8) 8) 8) :=
    h2.bb_next hd
  simp only [decode_symbol]
  by_cases hs0 : (FastFindSymbol.at shortbits0 (bb_peek r)).octet ≠ SENTINEL
  · -- codes of up to eight bits
    rw [if_pos hs0]
    exact found_of_entryOk (show ReadsAt buf (o + 0) r from h) hempty h.peek.symm (hoct _) (by omega)
      (entryOk_at tables_ok.shortbits0 (by rw [hl0]; exact hoct _) hs0) (by omega)
  rw [if_neg hs0]
  have hge := sentinel_at tables_ok.shortbits0 (by rw [hl0]; exact hoct _) hs0
  by_cases hfe : bb_peek r = 0xfe#8
  · rw [if_pos hfe]
    rw [hfe] at hk8
    exact found_fe h1 hk8
  rw [if_neg hfe]
  -- the first octet is 0xff
  rw [eq_ff_of_ge hge hfe] at hk8
  have hk16 := h1.known hk8
  generalize bb_next r 8 = r1 at *
  by_cases hs1 : (FastFindSymbol.at shortbits1_ff (bb_peek r1)).octet ≠ SENTINEL
  · rw [if_pos hs1]
    exact found_of_entryOk h1 hk8 h1.peek.symm (hoct _) (by omega)
      (entryOk_at tables_ok.shortbits1_ff (by rw [hl1]; exact hoct _) hs1) (by omega)
  rw [if_neg hs1]
  have hge1 := sentinel_at tables_ok.shortbits1_ff (by rw [hl1]; exact hoct _) hs1
  by_cases hfe1 : bb_peek r1 = 0xfe#8
  · rw [if_pos hfe1]
    rw [hfe1] at hk16
    have hs2 : (FastFindSymbol.at shortbits2_fffe (bb_peek (bb_next r1 8))).octet ≠ SENTINEL := by
      intro hs
      have hlt := hoct (bb_peek (bb_next r1 8))
      have := sentinel_at tables_ok.shortbits2_fffe (by rw [hlfe]; exact hlt) (not_not.mpr hs)
      omega
    exact found_of_entryOk h2 hk16 h2.peek.symm (hoct _) (by omega)
      (entryOk_at tables_ok.shortbits2_fffe (by rw [hlfe]; exact hoct _) hs2) (by omega)
  rw [if_neg hfe1]
  -- the first two octets are 0xffff
  rw [eq_ff_of_ge hge1 hfe1] at hk16
  generalize bb_next r1 8 = r2 at *
  by_cases hs2 : (FastFindSymbol.at shortbits2_ffff (bb_peek r2)).octet ≠ SENTINEL
  · rw [if_pos hs2]
    exact found_of_entryOk h2 hk16 h2.peek.symm (hoct _) (by omega)
      (entryOk_at tables_ok.shortbits2_ffff (by rw [hlff]; exact hoct _) hs2) (by omega)
  rw [if_neg hs2]
  have hge2 := sentinel_at tables_ok.shortbits2_ffff (by rw [hlff]; exact hoct _) hs2
  exact found_third h3 hge2 hk16 h2.peek.symm

end Shitty.Hpack
