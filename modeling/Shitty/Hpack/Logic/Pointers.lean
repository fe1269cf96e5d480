import Shitty.Hpack.Accesses
import Shitty.Hpack.Logic.HuffDecode

/-!
# The pointers of the Huffman decoder

The bit reader loads an octet only in front of the end of its input, and every octet is
stored in front of the end of the destination: with pointers, `huffman_decode` computes
what it does without them. The view of a reader with pointers is the one without, and
each of its moves keeps the pointer inside. So the two loops go through the same turns
and store the same octets.
-/

namespace Shitty.Hpack.Accesses

open Lib Lib.Checked

/-! ## The bit reader -/

/-- The reader as it is without an index. -/
def BbReader.view (buf : Bytes) (r : BbReader) : Hpack.BbReader :=
  { bb := r.bb, pos := buf.drop r.pos }

theorem bb_eos_view (buf : Bytes) (r : BbReader) : Hpack.bb_eos (r.view buf) = bb_eos r := rfl

theorem bb_peek_view (buf : Bytes) (r : BbReader) : Hpack.bb_peek (r.view buf) = bb_peek r := rfl

/-- At most one octet is loaded. -/
theorem bb_load_next_eq (bb : BitBuf) (d : Nat) (pos : Bytes) :
    Hpack.bb_load_next bb d pos =
      if bb.next_bits ≤ d then
        { bb := (Hpack.bb_load_next bb d (pos.take 1)).bb, pos := pos.tail }
      else { bb := (Hpack.bb_load_next bb d []).bb, pos := pos } := by
  unfold Hpack.bb_load_next
  cases pos <;> by_cases hload : bb.next_bits ≤ d <;> simp [hload]

/-- The pointer stays inside of the coded octets or right behind them. -/
theorem bb_next_view {buf : Bytes} {r : BbReader} (hpos : r.pos ≤ buf.length) (d : Nat) :
    ∃ r', bb_next buf r d = .ok r' ∧ r'.pos ≤ buf.length ∧
      r'.view buf = Hpack.bb_next (r.view buf) d := by
  obtain ⟨bb, pos⟩ := r
  have hpos : pos ≤ buf.length := hpos
  rw [bb_next, bb_load_next, BbReader.view, Hpack.bb_next, bb_load_next_eq bb d (buf.drop pos)]
  dsimp only
  by_cases hload : bb.next_bits ≤ d ∧ pos ≠ buf.length
  · have hlt : pos < buf.length := by omega
    have hsplit : buf.drop pos = buf.getD pos 0 :: buf.drop (pos + 1) := by
      rw [List.drop_eq_getElem_cons hlt]
      simp [hlt]
    rw [if_pos hload, check_bind hlt, if_pos hload.1, hsplit]
    exact ⟨_, rfl, hlt, rfl⟩
  · rw [if_neg hload]
    refine ⟨_, rfl, hpos, ?_⟩
    by_cases hbits : bb.next_bits ≤ d
    · obtain rfl : pos = buf.length := by
        by_contra hne
        exact hload ⟨hbits, hne⟩
      rw [if_pos hbits, BbReader.view, List.drop_length]
      rfl
    · rw [if_neg hbits, BbReader.view]

theorem bb_reader_init_view (buf : Bytes) :
    ∃ r, bb_reader_init buf = .ok r ∧ r.pos ≤ buf.length ∧
      r.view buf = Hpack.bb_reader_init buf := by
  let bb : BitBuf := { octet := 0, next := 0, next_bits := 8, eos_after_bits := -1 }
  obtain ⟨r, hr, hpos, hview⟩ := @bb_next_view buf { bb := bb, pos := 0 } (Nat.zero_le _) 8
  obtain ⟨r', hr', hpos', hview'⟩ := bb_next_view hpos 8
  refine ⟨r', ?_, hpos', ?_⟩
  · rw [bb_reader_init, hr, ok_bind, hr']
  · rw [hview', hview]
    rfl

/-! ## The Huffman decoder -/

theorem symbol_of {table : List FastFindSymbol} {octet : Octet} (h : octet.toNat < table.length) :
    symbol table octet = .ok (FastFindSymbol.at table octet) := check_bind h _

/-- Every octet is an index into the table. -/
theorem symbol_octet {table : List FastFindSymbol} (h : table.length = 256) (octet : Octet) :
    symbol table octet = .ok (FastFindSymbol.at table octet) :=
  symbol_of (by rw [h]; exact octet.isLt)

/-- The same symbol is found, with the pointer inside behind it. -/
def Finds (buf : Bytes) (x : Access (Option (Octet × BbReader)))
    (y : Option (Octet × Hpack.BbReader)) : Prop :=
  ∃ found, x = .ok found ∧ (∀ p ∈ found, p.2.pos ≤ buf.length) ∧
    found.map (fun p => (p.1, p.2.view buf)) = y

theorem Finds.bb_next {buf : Bytes} {r : BbReader} (hpos : r.pos ≤ buf.length) {d : Nat}
    {g : BbReader → Access (Option (Octet × BbReader))} {y : Option (Octet × Hpack.BbReader)}
    (h : ∀ r', r'.pos ≤ buf.length → r'.view buf = Hpack.bb_next (r.view buf) d →
      Finds buf (g r') y) : Finds buf (Accesses.bb_next buf r d >>= g) y := by
  obtain ⟨r', hr', hpos', hview⟩ := bb_next_view hpos d
  rw [hr', ok_bind]
  exact h r' hpos' hview

/-- A symbol, and the reader moved on. -/
theorem Finds.last {buf : Bytes} {r : BbReader} (hpos : r.pos ≤ buf.length) (d : Nat) (a : Octet) :
    Finds buf (Accesses.bb_next buf r d >>= fun r' => pure (some (a, r')))
      (some (a, Hpack.bb_next (r.view buf) d)) := by
  refine Finds.bb_next hpos fun r' hpos' hview => ⟨_, rfl, ?_, ?_⟩
  · simp [hpos']
  · rw [Option.map_some, hview]

theorem decode_symbol_finds {buf : Bytes} {r : BbReader} (hpos : r.pos ≤ buf.length) :
    Finds buf (decode_symbol buf r) (Hpack.decode_symbol (r.view buf)) := by
  obtain ⟨h0, h1, h2, h2', h23, h3⟩ := table_lengths
  unfold decode_symbol Hpack.decode_symbol
  simp only [symbol_octet h0, ok_bind, bb_peek_view]
  by_cases hs0 : (FastFindSymbol.at shortbits0 (bb_peek r)).octet ≠ SENTINEL
  · rw [if_pos hs0, if_pos hs0]
    exact Finds.last hpos _ _
  rw [if_neg hs0, if_neg hs0]
  refine Finds.bb_next hpos fun r₁ hpos₁ hview₁ => ?_
  rw [← hview₁, bb_peek_view]
  by_cases hfe : bb_peek r = 0xfe#8
  · rw [if_pos hfe, if_pos hfe, check_bind]
    · exact Finds.last hpos₁ _ _
    · have := (bb_peek r₁).isLt
      rw [BitVec.toNat_ushiftRight, Nat.shiftRight_eq_div_pow]
      simp only [List.length_cons, List.length_nil]
      omega
  rw [if_neg hfe, if_neg hfe, symbol_octet h1, ok_bind]
  by_cases hs1 : (FastFindSymbol.at shortbits1_ff (bb_peek r₁)).octet ≠ SENTINEL
  · rw [if_pos hs1, if_pos hs1]
    exact Finds.last hpos₁ _ _
  rw [if_neg hs1, if_neg hs1]
  refine Finds.bb_next hpos₁ fun r₂ hpos₂ hview₂ => ?_
  rw [← hview₂, bb_peek_view]
  by_cases hfe₁ : bb_peek r₁ = 0xfe#8
  · rw [if_pos hfe₁, if_pos hfe₁, symbol_octet h2, ok_bind]
    exact Finds.last hpos₂ _ _
  rw [if_neg hfe₁, if_neg hfe₁, symbol_octet h2', ok_bind]
  by_cases hs2 : (FastFindSymbol.at shortbits2_ffff (bb_peek r₂)).octet ≠ SENTINEL
  · rw [if_pos hs2, if_pos hs2]
    exact Finds.last hpos₂ _ _
  rw [if_neg hs2, if_neg hs2]
  -- the sentinels of this table are at its end
  have hlarge : 0xf6 ≤ (bb_peek r₂).toNat := by
    refine sentinel_at tables_ok.shortbits2_ffff ?_ hs2
    rw [h2']
    exact (bb_peek r₂).isLt
  refine Finds.bb_next hpos₂ fun r₃ hpos₃ hview₃ => ?_
  rw [← hview₃, bb_peek_view]
  have hpeek := (bb_peek r₃).isLt
  by_cases hthird : bb_peek r₂ ≠ 0xfe#8 ∧ bb_peek r₂ ≠ 0xff#8
  · rw [if_pos hthird, if_pos hthird, symbol_of, ok_bind]
    · exact Finds.last hpos₃ _ _
    · have hfe₂ : (bb_peek r₂).toNat ≠ 0xfe := fun h => hthird.1 (BitVec.eq_of_toNat_eq h)
      have hff₂ : (bb_peek r₂).toNat ≠ 0xff := fun h => hthird.2 (BitVec.eq_of_toNat_eq h)
      have := (bb_peek r₂).isLt
      rw [toNat_index23, h23]
      omega
  · rw [if_neg hthird, if_neg hthird, symbol_of, ok_bind]
    · by_cases hs3 : (FastFindSymbol.at shortbits3
          (((bb_peek r₂ <<< 6) &&& 64#8) ||| (bb_peek r₃ >>> 2))).octet ≠ SENTINEL
      · rw [if_pos hs3, if_pos hs3]
        exact Finds.last hpos₃ _ _
      · rw [if_neg hs3, if_neg hs3]
        exact ⟨none, rfl, by simp, rfl⟩
    · rw [toNat_index3, h3]
      omega

/-- What has been stored stays where it is, however many turns follow. -/
theorem decode_loop_keeps (room : Nat) :
    ∀ reader dest, dest <+: (Hpack.decode_loop room reader dest).2 := by
  induction room with
  | zero => exact fun reader dest => List.prefix_rfl
  | succ room ih =>
      intro reader dest
      rw [Hpack.decode_loop]
      split
      · exact List.prefix_rfl
      · cases Hpack.decode_symbol reader with
        | none => exact List.prefix_rfl
        | some found => exact (List.prefix_append _ _).trans (ih found.2 (dest ++ [found.1]))

/-- The destination behind the loop: what is stored, and what was there behind it. -/
def decoded (buf : Bytes) (st : DecodeState) : Access (Int × Bytes) :=
  let (result, stored) := Hpack.decode_loop (st.s.length - st.dest) (st.reader.view buf)
    (st.s.take st.dest)
  return (result, stored ++ st.s.drop stored.length)

/-- The pointers are inside or right behind. -/
structure DecodeState.Inside (buf : Bytes) (st : DecodeState) : Prop where
  pos : st.reader.pos ≤ buf.length
  dest : st.dest ≤ st.s.length

/-- One more octet is stored, in front of the end of the destination. -/
theorem decoded_store {buf : Bytes} {st : DecodeState} (hdest : st.dest < st.s.length)
    (octet : Octet) (reader : BbReader) :
    decoded buf { reader := reader, dest := st.dest + 1, s := st.s.set st.dest octet } =
      (let (result, stored) := Hpack.decode_loop (st.s.length - (st.dest + 1))
        (reader.view buf) (st.s.take st.dest ++ [octet])
      return (result, stored ++ st.s.drop stored.length)) := by
  have htake : (st.s.set st.dest octet).take (st.dest + 1) = st.s.take st.dest ++ [octet] := by
    rw [List.take_add_one, List.take_set_of_le (Nat.le_refl _)]
    simp [hdest]
  have hlong := (decode_loop_keeps (st.s.length - (st.dest + 1)) (reader.view buf)
    (st.s.take st.dest ++ [octet])).length_le
  rw [List.length_append, List.length_take, List.length_singleton] at hlong
  simp only [decoded, List.length_set, htake]
  rw [List.drop_set, if_pos (by omega)]

theorem decode_turn_of {buf : Bytes} {st : DecodeState} (h : st.Inside buf)
    (hdest : st.dest ≠ st.s.length) :
    TurnOf (DecodeState.Inside buf) (fun st => st.s.length - st.dest) (decoded buf) st
      (decode_turn buf st) := by
  have hlt : st.dest < st.s.length := Nat.lt_of_le_of_ne h.dest hdest
  obtain ⟨room, hroom⟩ : ∃ room, st.s.length - st.dest = room + 1 :=
    ⟨st.s.length - (st.dest + 1), by omega⟩
  have hstored : (st.s.take st.dest).length = st.dest := by
    rw [List.length_take]
    omega
  have hwhole : st.s.take st.dest ++ st.s.drop (st.s.take st.dest).length = st.s := by
    rw [hstored, List.take_append_drop]
  obtain ⟨found, hfound, hin, hsame⟩ := decode_symbol_finds h.pos
  rw [decode_turn]
  by_cases heos : bb_eos st.reader
  · rw [if_pos heos]
    show decoded buf st = .ok (st.dest, st.s)
    rw [decoded, hroom, Hpack.decode_loop, bb_eos_view, if_pos heos]
    dsimp only
    rw [hwhole, hstored]
    rfl
  · rw [if_neg heos]
    rw [hfound, ok_bind]
    cases found with
    | none =>
        show decoded buf st = .ok (st.dest, st.s)
        rw [decoded, hroom, Hpack.decode_loop, bb_eos_view, if_neg heos, ← hsame, Option.map_none]
        dsimp only
        rw [hwhole, hstored]
        rfl
    | some found =>
        obtain ⟨octet, reader⟩ := found
        dsimp only
        rw [check_bind hlt]
        refine ⟨?_, ⟨hin _ rfl, ?_⟩, ?_⟩
        · rw [decoded_store hlt, show st.s.length - (st.dest + 1) = room by omega, decoded, hroom,
            Hpack.decode_loop, bb_eos_view, if_neg heos, ← hsame, Option.map_some]
        · simp only [List.length_set]
          omega
        · simp only [List.length_set]
          omega

theorem decode_loop_eq {buf : Bytes} {st : DecodeState} (h : st.Inside buf) :
    decode_loop buf (st.s.length - st.dest) st = decoded buf st := by
  refine whileLoop_eq (DecodeState.Inside buf) (fun st => st.s.length - st.dest) (decoded buf)
    ?_ ?_ _ st h (Nat.le_refl _)
  · intro st h hend
    have hdest : st.dest = st.s.length := by simpa using hend
    simp [decoded, hdest, Hpack.decode_loop, bb_eos_view]
    rfl
  · intro st h hmore
    have hdest : st.dest ≠ st.s.length := by simpa using hmore
    have hle := h.dest
    exact ⟨by omega, decode_turn_of h hdest⟩

/-- `huffman_decode` with pointers computes what the one without them does, and leaves the
destination with it. -/
theorem huffman_decode_eq (buf : Bytes) (first_octet_bits : Nat) (s : Bytes) :
    huffman_decode buf first_octet_bits s =
      (let (result, stored) := Hpack.huffman_decode buf first_octet_bits s.length
      return (result, stored ++ s.drop stored.length)) := by
  rw [huffman_decode, Hpack.huffman_decode]
  by_cases hbits : first_octet_bits < 1 ∨ 8 < first_octet_bits
  · rw [if_pos hbits, if_pos hbits]
    rfl
  · rw [if_neg hbits, if_neg hbits]
    obtain ⟨r, hr, hpos, hview⟩ := bb_reader_init_view buf
    rw [hr, ok_bind]
    by_cases h8 : first_octet_bits ≠ 8
    · obtain ⟨r', hr', hpos', hview'⟩ := bb_next_view hpos (8 - first_octet_bits)
      rw [if_pos h8, hr', ok_bind]
      dsimp only
      rw [if_pos h8, ← hview, ← hview']
      exact @decode_loop_eq buf { reader := r', dest := 0, s := s } ⟨hpos', Nat.zero_le _⟩
    · rw [if_neg h8]
      dsimp only
      rw [if_neg h8, ← hview]
      exact @decode_loop_eq buf { reader := r, dest := 0, s := s } ⟨hpos, Nat.zero_le _⟩

end Shitty.Hpack.Accesses
