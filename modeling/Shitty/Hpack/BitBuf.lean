import Shitty.Core.Octet
import Shitty.Lib.Bits

/-!
# The bit reader

`hpack/huffy/bitbuf.c`: an octet of look-ahead and the octet behind it, shifted left by
up to eight bits at a time. `pos` is what is left of the input, so `pos == end` is `pos
= []`. What the reader stands for is an offset into the bits of the input, which go on
as ones behind their end; the functions of the source move it and show what is there.
-/

namespace Shitty.Hpack

open Lib.Bits

/-! ## `huffy/bitbuf.h` -/

structure BitBuf where
  octet : Octet
  next : Octet
  next_bits : Nat
  /-- `-1` until the end of the input is met. -/
  eos_after_bits : Int
  deriving DecidableEq, Repr

structure BbReader where
  bb : BitBuf
  pos : Bytes
  deriving DecidableEq, Repr

/-! ## `huffy/bitbuf.c` -/

/-- `discard_bits` must be in `[1, 8]`. -/
def bb_load_next (bb : BitBuf) (discard_bits : Nat) (pos : Bytes) : BbReader :=
  let octet := bb.octet <<< discard_bits
  let r : BbReader :=
    if bb.next_bits ≤ discard_bits then
      let eos_after_bits :=
        if pos = [] ∧ bb.eos_after_bits = -1 then 8 + (bb.next_bits : Int)
        else bb.eos_after_bits
      let loaded := pos.headD 0xff#8
      { bb :=
          { octet := octet ||| (bb.next >>> (8 - discard_bits)) |||
              (loaded >>> (8 - discard_bits + bb.next_bits))
            next := loaded <<< (discard_bits - bb.next_bits)
            next_bits := 8 - (discard_bits - bb.next_bits)
            eos_after_bits := eos_after_bits }
        pos := pos.tail }
    else
      { bb :=
          { octet := octet ||| (bb.next >>> (8 - discard_bits))
            next := bb.next <<< discard_bits
            next_bits := bb.next_bits - discard_bits
            eos_after_bits := bb.eos_after_bits }
        pos := pos }
  let eos_after_bits :=
    if r.bb.eos_after_bits ≠ -1 then
      if r.bb.eos_after_bits < discard_bits then 0
      else r.bb.eos_after_bits - discard_bits
    else -1
  { r with bb := { r.bb with eos_after_bits := eos_after_bits } }

def bb_eos (bbr : BbReader) : Bool :=
  if bbr.bb.eos_after_bits = -1 then false
  else if bbr.bb.eos_after_bits = 0 then true
  else
    let left := bbr.bb.eos_after_bits.toNat
    let nextMask := 0xff#8 <<< (8 - left % 8)
    if 8 < left ∧ bbr.bb.next &&& nextMask ≠ nextMask then false
    else
      let mask := 0xff#8 <<< (8 - left)
      bbr.bb.octet &&& mask = mask

def bb_peek (bbr : BbReader) : Octet := bbr.bb.octet

def bb_next (bbr : BbReader) (seek_bits : Nat) : BbReader :=
  bb_load_next bbr.bb seek_bits bbr.pos

def bb_reader_init (buf : Bytes) : BbReader :=
  let bb : BitBuf := { octet := 0, next := 0, next_bits := 8, eos_after_bits := -1 }
  bb_next (bb_next { bb := bb, pos := buf } 8) 8

/-! ## What the reader stands for -/

/-- The input followed by ones forever. -/
def inputBits (buf : Bytes) : Nat → Bool := extend (ofOctets buf)

/-- Bits of the input at and after offset `o`. -/
def bitsLeft (buf : Bytes) (o : Nat) : Nat := 8 * buf.length - o

/-- The reader has moved `o` bits into `buf`. -/
structure ReadsAt (buf : Bytes) (o : Nat) (r : BbReader) : Prop where
  octet : ∀ i < 8, r.bb.octet.getMsbD i = inputBits buf (o + i)
  next : ∀ i < r.bb.next_bits, r.bb.next.getMsbD i = inputBits buf (o + 8 + i)
  blank : ∀ i, r.bb.next_bits ≤ i → r.bb.next.getMsbD i = false
  nextPos : 1 ≤ r.bb.next_bits
  nextLe : r.bb.next_bits ≤ 8
  aligned : 8 ∣ o + 8 + r.bb.next_bits
  pos : r.pos = buf.drop ((o + 8 + r.bb.next_bits) / 8)
  eos : r.bb.eos_after_bits = if bitsLeft buf o ≤ 8 then (bitsLeft buf o : Int) else -1

/-- The octet loaded at position `k` of the input carries the input's bits. -/
theorem getMsbD_loaded (buf : Bytes) (k i : Nat) (hi : i < 8) :
    ((buf.drop k).headD 0xff#8).getMsbD i = inputBits buf (8 * k + i) := by
  by_cases hk : k < buf.length
  · have hlen : i < (ofOctet buf[k]).length := by simpa using hi
    rw [List.drop_eq_getElem_cons hk, List.headD_cons, ← getElem_ofOctet _ _ hlen]
    have hsplit : ofOctets buf =
        ofOctets (buf.take k) ++ (ofOctet buf[k] ++ ofOctets (buf.drop (k + 1))) := by
      conv_lhs => rw [← List.take_append_drop k buf]
      rw [ofOctets_append, List.drop_eq_getElem_cons hk, ofOctets_cons]
    have htake : (ofOctets (buf.take k)).length = 8 * k := by
      rw [length_ofOctets, List.length_take, Nat.min_eq_left (by omega)]
    have hin : 8 * k + i < (ofOctets buf).length := by
      rw [length_ofOctets]
      omega
    rw [inputBits, extend_of_lt hin]
    simp only [hsplit]
    rw [List.getElem_append_right (by omega), List.getElem_append_left (by simp; omega)]
    congr 1
    omega
  · rw [List.drop_eq_nil_of_le (by omega), List.headD_nil, inputBits,
      extend_of_le (by rw [length_ofOctets]; omega)]
    have hall : ∀ j : Fin 8, (0xff#8).getMsbD j = true := by decide
    exact hall ⟨i, hi⟩

/-- The end-of-string counter after a move, whether or not this move met the
end of the input. -/
theorem eos_step (buf : Bytes) {o nb d k : Nat} (hd : 1 ≤ d ∧ d ≤ 8) (hnb : 1 ≤ nb ∧ nb ≤ 8)
    (hk : o + 8 + nb = 8 * k) :
    (let eos : Int := if bitsLeft buf o ≤ 8 then (bitsLeft buf o : Int) else -1
     let met : Int :=
       if nb ≤ d ∧ buf.length ≤ k ∧ eos = -1 then 8 + (nb : Int) else eos
     if met ≠ -1 then if met < d then 0 else met - d else -1) =
      if bitsLeft buf (o + d) ≤ 8 then (bitsLeft buf (o + d) : Int) else -1 := by
  simp only [bitsLeft]
  split_ifs <;> omega

/-- An octet shifted on by some bits, which come from the one behind it. -/
theorem getMsbD_shifted (octet next : Octet) {d i : Nat} (hd : d ≤ 8) (hi : i < 8) :
    (octet <<< d ||| next >>> (8 - d)).getMsbD i =
      if i + d < 8 then octet.getMsbD (d + i) else next.getMsbD (d + i - 8) := by
  simp only [BitVec.getMsbD_or, BitVec.getMsbD_shiftLeft, BitVec.getMsbD_ushiftRight, hi,
    decide_true, Bool.true_and]
  by_cases hin : i + d < 8
  · have hbefore : i < 8 - d := by omega
    rw [if_pos hin, decide_eq_true hbefore, Nat.add_comm i d]
    simp
  · have hbehind : ¬ i < 8 - d := by omega
    rw [if_neg hin, BitVec.getMsbD_of_ge _ _ (by omega), decide_eq_false hbehind,
      show i - (8 - d) = d + i - 8 by omega]
    simp

/-- The bits of `octet` and those of `next` behind them, moved on: the input's, as far as
`next` reaches. -/
theorem getMsbD_window {buf : Bytes} {o nb : Nat} {octet next : Octet}
    (hoctet : ∀ i < 8, octet.getMsbD i = inputBits buf (o + i))
    (hnext : ∀ i < nb, next.getMsbD i = inputBits buf (o + 8 + i)) {d i : Nat} (hd : d ≤ 8)
    (hi : i < 8) (hreach : i + d < 8 + nb) :
    (octet <<< d ||| next >>> (8 - d)).getMsbD i = inputBits buf (o + d + i) := by
  rw [getMsbD_shifted octet next hd hi]
  by_cases hin : i + d < 8
  · rw [if_pos hin, hoctet _ (by omega), ← Nat.add_assoc]
  · rw [if_neg hin, hnext _ (by omega)]
    congr 1
    omega

/-- One move of the reader: what `bb_load_next` does at any offset. -/
theorem ReadsAt.bb_next {buf : Bytes} {o : Nat} {r : BbReader} (h : ReadsAt buf o r)
    {d : Nat} (hd : 1 ≤ d ∧ d ≤ 8) : ReadsAt buf (o + d) (bb_next r d) := by
  obtain ⟨⟨octet, next, nb, eos⟩, pos⟩ := r
  obtain ⟨hoctet, hnext, hblank, hpos, hle, hal, hp, heos⟩ := h
  simp only at hoctet hnext hblank hpos hle hal hp heos
  subst hp
  subst heos
  obtain ⟨k, hk⟩ := hal
  have hdiv : (o + 8 + nb) / 8 = k := by omega
  have hstep := eos_step buf hd ⟨hpos, hle⟩ hk
  have hload := getMsbD_loaded buf k
  simp only [Hpack.bb_next, bb_load_next, hdiv]
  by_cases hcase : nb ≤ d
  · -- the next octet of the input is loaded behind what is left of `next`
    simp only [hcase, if_true, true_and] at hstep ⊢
    exact
      { octet := by
          intro i hi
          rw [BitVec.getMsbD_or, BitVec.getMsbD_ushiftRight, decide_eq_true hi, Bool.true_and]
          by_cases hbefore : i < 8 - d + nb
          · rw [getMsbD_window hoctet hnext hd.2 hi (by omega), decide_eq_true hbefore,
              Bool.not_true, Bool.false_and, Bool.or_false]
          · rw [getMsbD_shifted octet next hd.2 hi, if_neg (show ¬ i + d < 8 by omega),
              hblank _ (by omega), Bool.false_or, decide_eq_false hbefore, Bool.not_false,
              Bool.true_and, hload _ (by omega)]
            congr 1
            omega
        next := by
          intro i hi
          have hi : i < 8 - (d - nb) := hi
          rw [BitVec.getMsbD_shiftLeft, hload _ (by omega)]
          congr 1
          omega
        blank := by
          intro i hi
          have hi : 8 - (d - nb) ≤ i := hi
          rw [BitVec.getMsbD_shiftLeft, BitVec.getMsbD_of_ge _ _ (by omega)]
        nextPos := by
          show 1 ≤ 8 - (d - nb)
          omega
        nextLe := by
          show 8 - (d - nb) ≤ 8
          omega
        aligned := ⟨k + 1, by show o + d + 8 + (8 - (d - nb)) = _; omega⟩
        pos := by
          show (buf.drop k).tail = buf.drop ((o + d + 8 + (8 - (d - nb))) / 8)
          rw [List.tail_drop]
          congr 1
          omega
        eos := by
          rw [← hstep]
          simp only [List.drop_eq_nil_iff] }
  · -- enough bits are left in `next`
    simp only [hcase, if_false, false_and] at hstep ⊢
    exact
      { octet := fun i hi => getMsbD_window hoctet hnext hd.2 hi (by omega)
        next := by
          intro i hi
          have hi : i < nb - d := hi
          rw [BitVec.getMsbD_shiftLeft, hnext _ (by omega)]
          congr 1
          omega
        blank := by
          intro i hi
          have hi : nb - d ≤ i := hi
          rw [BitVec.getMsbD_shiftLeft, hblank _ (by omega)]
        nextPos := by
          show 1 ≤ nb - d
          omega
        nextLe := by
          show nb - d ≤ 8
          omega
        aligned := ⟨k, by show o + d + 8 + (nb - d) = _; omega⟩
        pos := by
          show buf.drop k = buf.drop ((o + d + 8 + (nb - d)) / 8)
          congr 1
          omega
        eos := by
          rw [← hstep] }

/-- Octets in front of the input only shift the offset. -/
theorem ReadsAt.drop_front (front : Bytes) {buf : Bytes} {o : Nat} {r : BbReader}
    (h : ReadsAt (front ++ buf) (8 * front.length + o) r) : ReadsAt buf o r := by
  have hbits : ∀ j, inputBits (front ++ buf) (8 * front.length + j) = inputBits buf j := by
    intro j
    rw [inputBits, ofOctets_append, ← length_ofOctets, extend_append_right, inputBits]
  have hleft : bitsLeft (front ++ buf) (8 * front.length + o) = bitsLeft buf o := by
    simp only [bitsLeft, List.length_append]
    omega
  obtain ⟨k, hk⟩ := h.aligned
  exact
    { octet := by
        intro i hi
        rw [h.octet i hi, Nat.add_assoc, hbits]
      next := by
        intro i hi
        rw [h.next i hi, Nat.add_assoc, Nat.add_assoc, hbits, Nat.add_assoc]
      blank := h.blank
      nextPos := h.nextPos
      nextLe := h.nextLe
      aligned := ⟨k - front.length, by omega⟩
      pos := by
        rw [h.pos, show (8 * front.length + o + 8 + r.bb.next_bits) / 8 =
          front.length + (o + 8 + r.bb.next_bits) / 8 by omega, List.drop_append]
        simp
      eos := by
        rw [h.eos, hleft] }

/-- `bb_reader_init` leaves the reader at the start of the input. The reader it
starts from is one that stands on two zero octets put in front. -/
theorem readsAt_init (buf : Bytes) : ReadsAt buf 0 (bb_reader_init buf) := by
  have h0 : ReadsAt ([0#8, 0#8] ++ buf) 0
      { bb := { octet := 0, next := 0, next_bits := 8, eos_after_bits := -1 }, pos := buf } := by
    have hbits : ∀ i, i < 16 → inputBits ([0#8, 0#8] ++ buf) i = false := by
      intro i hi
      have hlen : i < (ofOctets [0#8, 0#8]).length := by simpa using hi
      rw [inputBits, ofOctets_append, extend_append_left _ hlen]
      have hall : ∀ b ∈ ofOctets [0#8, 0#8], b = false := by decide
      exact hall _ (List.getElem_mem hlen)
    exact
      { octet := by
          intro i hi
          rw [hbits _ (by omega)]
          simp
        next := by
          intro i hi
          rw [hbits _ (by simp only at hi; omega)]
          simp
        blank := by
          intro i _
          simp
        nextPos := by simp
        nextLe := by simp
        aligned := ⟨2, rfl⟩
        pos := by simp
        eos := by
          rw [if_neg (by simp [bitsLeft])] }
  have h16 := (h0.bb_next ⟨by omega, Nat.le_refl 8⟩).bb_next ⟨by omega, Nat.le_refl 8⟩
  exact ReadsAt.drop_front [0#8, 0#8] h16

/-- The look-ahead is the next eight bits. -/
theorem ReadsAt.peek {buf : Bytes} {o : Nat} {r : BbReader} (h : ReadsAt buf o r) :
    ofOctet (bb_peek r) = slice (inputBits buf) o 8 := by
  rw [ofOctet_eq_iff _ _ (by simp)]
  intro i hi
  rw [bb_peek, h.octet i hi, getElem_slice]

theorem getMsbD_topMask {n i : Nat} (hn : n ≤ 8) :
    (0xff#8 <<< (8 - n)).getMsbD i = decide (i < n) := by
  rw [BitVec.getMsbD_shiftLeft]
  by_cases h : i < n
  · have hall : ∀ j : Fin 8, (0xff#8).getMsbD j = true := by decide
    simpa [h] using hall ⟨i + (8 - n), by omega⟩
  · rw [BitVec.getMsbD_of_ge _ _ (by omega)]
    simp [h]

/-- The end of the string: at most eight bits are left, and all are ones. -/
theorem ReadsAt.eos_iff {buf : Bytes} {o : Nat} {r : BbReader} (h : ReadsAt buf o r) :
    bb_eos r = true ↔
      bitsLeft buf o ≤ 8 ∧ ∀ i < bitsLeft buf o, inputBits buf (o + i) = true := by
  have heos := h.eos
  unfold bb_eos
  by_cases hle : bitsLeft buf o ≤ 8
  · rw [if_pos hle] at heos
    rw [heos, if_neg (by omega)]
    by_cases h0 : bitsLeft buf o = 0
    · simp [h0]
    · rw [if_neg (by omega)]
      simp only [Int.toNat_natCast]
      rw [if_neg (by omega)]
      simp only [decide_eq_true_eq, hle, true_and]
      constructor
      · intro hmask i hi
        have hbit := congrArg (fun b => b.getMsbD i) hmask
        simp only [BitVec.getMsbD_and, getMsbD_topMask hle, hi, decide_true,
          Bool.and_true] at hbit
        rw [← h.octet i (by omega), hbit]
      · intro hones
        apply BitVec.eq_of_getMsbD_eq
        intro i hi
        rw [BitVec.getMsbD_and, getMsbD_topMask hle]
        by_cases hin : i < bitsLeft buf o
        · rw [h.octet i hi, hones i hin]
          simp
        · simp [hin]
  · rw [if_neg hle] at heos
    rw [heos, if_pos rfl]
    simp [hle]

end Shitty.Hpack
