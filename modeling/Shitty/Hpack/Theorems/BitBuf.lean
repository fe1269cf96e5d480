import Shitty.Hpack.Logic.Shifts

/-!
# What the bit reader stands for

Wherever moves of one to eight bits have left it, the reader shows the input, which goes
on as ones behind its end, and knows when eight bits of it or fewer are left. What it
denotes is stated for all its observers at once, and kept by a move; from that, by
induction on the moves, it holds wherever the reader can be.
-/

namespace Shitty.Hpack

open Lib.Bits

/-- The reader stands `o` bits into the input. -/
structure Denotes (buf : Bytes) (o : Nat) (r : BbReader) : Prop where
  peek : ofOctet (bb_peek r) = slice (inputBits buf) o 8
  next_bits : 1 ≤ r.bb.next_bits ∧ r.bb.next_bits ≤ 8
  eos_after_bits : r.bb.eos_after_bits = if 8 < bitsLeft buf o then -1 else (bitsLeft buf o : Int)
  eos : bb_eos r = true ↔
    bitsLeft buf o ≤ 8 ∧ ∀ i < bitsLeft buf o, inputBits buf (o + i) = true
  /-- The end test does not look at more than eight bits. -/
  near : ¬ 8 < r.bb.eos_after_bits
  /-- Its mask is not shifted by a negative amount, nor out of the type. -/
  shifts : Shifts.bb_eos r = (.ok (bb_eos r) : Shifts.Shift Unit Bool)

theorem ReadsAt.denotes {buf : Bytes} {o : Nat} {r : BbReader} (h : ReadsAt buf o r) :
    Denotes buf o r := by
  have heos : r.bb.eos_after_bits = if 8 < bitsLeft buf o then -1 else (bitsLeft buf o : Int) := by
    rw [h.eos]
    by_cases hfar : 8 < bitsLeft buf o
    · rw [if_pos hfar, if_neg (by omega)]
    · rw [if_neg hfar, if_pos (by omega)]
  have hbounds : -1 ≤ r.bb.eos_after_bits ∧ ¬ 8 < r.bb.eos_after_bits := by
    rw [heos]
    split <;> omega
  exact
    { peek := h.peek
      next_bits := ⟨h.nextPos, h.nextLe⟩
      eos_after_bits := heos
      eos := h.eos_iff
      near := hbounds.2
      shifts := Shifts.bb_eos_eq hbounds.1 hbounds.2 }

/-- Moves add up: behind some of them, the reader stands as far on as they are long together. -/
theorem ReadsAt.seeks {buf : Bytes} {seeks : List Nat} (hseeks : ∀ d ∈ seeks, 1 ≤ d ∧ d ≤ 8) :
    ∀ {o : Nat} {r : BbReader}, ReadsAt buf o r →
      ReadsAt buf (o + seeks.sum) (seeks.foldl Hpack.bb_next r) := by
  induction seeks with
  | nil => exact fun h => h
  | cons d seeks ih =>
      intro o r h
      have hstep := h.bb_next (hseeks d List.mem_cons_self)
      have hrest := ih (fun d hd => hseeks d (List.mem_cons_of_mem _ hd)) hstep
      rw [List.sum_cons, ← Nat.add_assoc]
      exact hrest

/-- Whatever the input, and however it is moved through. -/
theorem bb_reader_denotes (buf : Bytes) (seeks : List Nat) (h : ∀ d ∈ seeks, 1 ≤ d ∧ d ≤ 8) :
    Denotes buf seeks.sum (seeks.foldl bb_next (bb_reader_init buf)) := by
  have hreads := (readsAt_init buf).seeks h
  rw [Nat.zero_add] at hreads
  exact hreads.denotes

/-- The octets of `bitbuf-test.c`, and the lengths of its symbols. -/
theorem bb_reader_denotes_example :
    Denotes [0xf1, 0xe3, 0xc2, 0xe5, 0xf2, 0x3a, 0x6b, 0xa0, 0xab, 0x90, 0xf4, 0xff]
      [7, 7, 7, 6, 5, 7, 5, 6, 6, 6, 5, 6, 5, 5, 6].sum
      ([7, 7, 7, 6, 5, 7, 5, 6, 6, 6, 5, 6, 5, 5, 6].foldl bb_next
        (bb_reader_init
          [0xf1, 0xe3, 0xc2, 0xe5, 0xf2, 0x3a, 0x6b, 0xa0, 0xab, 0x90, 0xf4, 0xff])) :=
  bb_reader_denotes _ _ (by decide)

end Shitty.Hpack
