import Shitty.Hpack.Logic.HuffDecode
import Shitty.Hpack.Logic.HuffEncode

/-!
# Huffman coding

Whatever the decoder returns was read off the input followed by ones; decoding what the
encoder wrote gives the string back. What it returns is told apart by how it stops: at
the end of the input, in front of the end-of-string code, or with its destination full
before either of them.
-/

namespace Shitty.Hpack

open Lib Lib.Bits

/-! ## Where the decoder stops -/

/-- At most eight bits of the input are left, and all of them are ones. -/
def OnesLeft (buf : Bytes) (o : Nat) : Prop :=
  bitsLeft buf o ≤ 8 ∧ ∀ i < bitsLeft buf o, inputBits buf (o + i) = true

/-- The input shows the end-of-string code from an offset on: thirty ones. -/
def ShowsEos (buf : Bytes) (o : Nat) : Prop :=
  slice (inputBits buf) o 30 = List.replicate 30 true

/-- No code word consists of ones only. -/
theorem huffmanWord_ne_ones (a : Octet) :
    huffmanWord a ≠ List.replicate (huffmanWord a).length true := by
  obtain ⟨-, -, hval⟩ := encvOf_bounds a
  intro h
  rw [length_huffmanWord, replicate_eq_ofNat, huffmanWord] at h
  have hpos := Nat.two_pow_pos (encvOf a).bits
  have := ofNat_inj (by omega) (by omega) h
  omega

/-- No symbol is shown at an end-of-string code. -/
theorem ShowsEos.not_showsAt {buf : Bytes} {o : Nat} (h : ShowsEos buf o) (a : Octet) :
    ¬ huffmanCode.ShowsAt (inputBits buf) o a := by
  intro ha
  have hlen : (huffmanWord a).length ≤ 30 := by
    rw [length_huffmanWord]
    exact (encvOf_bounds a).2.1
  apply huffmanWord_ne_ones a
  have ha : slice (inputBits buf) o (huffmanWord a).length = huffmanWord a := ha
  have hones : slice (inputBits buf) o (huffmanWord a).length =
      List.replicate (huffmanWord a).length true := by
    rw [← take_slice _ _ hlen, h, List.take_replicate, Nat.min_eq_left hlen]
  rw [← hones]
  exact ha.symm

/-- When all that is left are ones, so is the stream from there on. -/
theorem OnesLeft.showsEos {buf : Bytes} {o : Nat} (h : OnesLeft buf o) : ShowsEos buf o := by
  unfold ShowsEos
  apply List.ext_getElem
  · simp
  · intro i h1 h2
    rw [getElem_slice, List.getElem_replicate]
    by_cases hi : i < bitsLeft buf o
    · exact h.2 i hi
    · apply extend_of_le
      rw [length_ofOctets]
      simp only [bitsLeft] at hi
      omega

/-- A run of the loop: the symbols it stores are shown one behind the other, and
it ends where nothing but padding is left, at an end-of-string code, or with -1
when the room is used up. -/
theorem decode_loop_run {buf : Bytes} :
    ∀ (room : Nat) (dest : Bytes) {o : Nat} {r : BbReader}, ReadsAt buf o r →
      ∃ l, (decode_loop room r dest).2 = dest ++ l ∧ l.length ≤ room ∧
        huffmanCode.Shows (inputBits buf) (8 * buf.length) o l ∧
        ((decode_loop room r dest).1 = ((dest ++ l).length : Int) ∧
            (OnesLeft buf (o + (huffmanCode.encode l).length) ∨
              l.length < room ∧ ShowsEos buf (o + (huffmanCode.encode l).length)) ∨
          (decode_loop room r dest).1 = -1 ∧ l.length = room ∧
            ¬ OnesLeft buf (o + (huffmanCode.encode l).length)) := by
  intro room
  induction room with
  | zero =>
      intro dest o r h
      refine ⟨[], by simp [decode_loop], Nat.le_refl 0, trivial, ?_⟩
      by_cases heos : bb_eos r = true
      · exact Or.inl ⟨by simp [decode_loop, heos], Or.inl (h.eos_iff.mp heos)⟩
      · exact Or.inr ⟨by simp [decode_loop, heos], rfl, fun hl => heos (h.eos_iff.mpr hl)⟩
  | succ room ih =>
      intro dest o r h
      rw [decode_loop]
      by_cases heos : bb_eos r = true
      · rw [if_pos heos]
        exact ⟨[], by simp, by simp, trivial, Or.inl ⟨by simp, Or.inl (h.eos_iff.mp heos)⟩⟩
      · rw [if_neg heos]
        have hfound := decode_symbol_found h
        cases hsym : decode_symbol r with
        | none =>
            rw [hsym] at hfound
            exact ⟨[], by simp, by simp, trivial,
              Or.inl ⟨by simp, Or.inr ⟨by simp, hfound⟩⟩⟩
        | some p =>
            obtain ⟨a, r'⟩ := p
            rw [hsym] at hfound
            obtain ⟨hshow, hreads⟩ := hfound
            -- behind the input there are ones only, and the loop has stopped
            have hin : o < 8 * buf.length := by
              by_contra hout
              apply heos
              rw [h.eos_iff]
              have h0 : bitsLeft buf o = 0 := by
                simp only [bitsLeft]
                omega
              rw [h0]
              exact ⟨by omega, by omega⟩
            -- the rest of the string, from where the code word of `a` ends
            obtain ⟨l, hl, hroom, hshows, hend⟩ := ih (dest ++ [a]) hreads
            have hsum : o + (huffmanWord a).length + (huffmanCode.encode l).length =
                o + (huffmanCode.encode (a :: l)).length := by
              rw [PrefixCode.encode_cons, List.length_append, ← Nat.add_assoc]
              rfl
            rw [hsum] at hend
            refine ⟨a :: l, by simpa using hl, by simpa using hroom, ⟨hin, hshow, hshows⟩, ?_⟩
            rcases hend with ⟨hn, hstop⟩ | ⟨hn, hfull, hstop⟩
            · refine Or.inl ⟨by simpa using hn, ?_⟩
              rcases hstop with hstop | ⟨hlt, hstop⟩
              · exact Or.inl hstop
              · exact Or.inr ⟨by simpa using hlt, hstop⟩
            · exact Or.inr ⟨hn, by simpa using hfull, hstop⟩

/-- The loop's run lemma, for `huffman_decode` from the first octet on. -/
theorem huffman_decode_run (buf : Bytes) (destlen : Nat) :
    ∃ l, (huffman_decode buf 8 destlen).2 = l ∧ l.length ≤ destlen ∧
      huffmanCode.Shows (inputBits buf) (8 * buf.length) 0 l ∧
      ((huffman_decode buf 8 destlen).1 = (l.length : Int) ∧
          (OnesLeft buf (huffmanCode.encode l).length ∨
            l.length < destlen ∧ ShowsEos buf (huffmanCode.encode l).length) ∨
        (huffman_decode buf 8 destlen).1 = -1 ∧ l.length = destlen ∧
          ¬ OnesLeft buf (huffmanCode.encode l).length) := by
  have hloop : huffman_decode buf 8 destlen = decode_loop destlen (bb_reader_init buf) [] := rfl
  have hrun := decode_loop_run destlen [] (readsAt_init buf)
  simpa only [hloop, List.nil_append, Nat.zero_add] using hrun

/-- Where an end-of-string code stands, no longer string is shown. -/
theorem prefix_of_showsEos {buf l m : Bytes} {bound : Nat}
    (hl : huffmanCode.Shows (inputBits buf) bound 0 l)
    (hm : huffmanCode.Shows (inputBits buf) bound 0 m)
    (heos : ShowsEos buf (huffmanCode.encode m).length) : l <+: m := by
  rcases hl.comparable huffmanCode hm with h | h
  · exact h
  · obtain ⟨t, rfl⟩ := h
    cases t with
    | nil => simp
    | cons a t =>
        have hnext := hl.drop_front huffmanCode
        rw [Nat.zero_add] at hnext
        exact absurd hnext.2.1 (heos.not_showsAt a)

/-! ## Soundness -/

/-- The decoder returns `n` having stored `dest` exactly when the input followed
by ones shows the codes of `dest` one behind the other, each starting inside the
input, and behind them at most eight bits of the input are left, all ones, or an
end-of-string code stands there that a longer destination would have hidden. -/
theorem huffman_decode_returns_iff (buf : Bytes) (destlen : Nat) (n : Int) (dest : Bytes) :
    huffman_decode buf 8 destlen = (n, dest) ∧ 0 ≤ n ↔
      n = dest.length ∧ dest.length ≤ destlen ∧
        huffmanCode.Shows (inputBits buf) (8 * buf.length) 0 dest ∧
        (OnesLeft buf (huffmanCode.encode dest).length ∨
          dest.length < destlen ∧ ShowsEos buf (huffmanCode.encode dest).length) := by
  obtain ⟨l, hl, hroom, hshows, hend⟩ := huffman_decode_run buf destlen
  constructor
  · rintro ⟨h, hn⟩
    rw [h] at hl hend
    simp only at hl hend
    subst hl
    rcases hend with ⟨hn', hstop⟩ | ⟨hn', -, -⟩
    · exact ⟨hn', hroom, hshows, hstop⟩
    · omega
  · rintro ⟨rfl, hdest, hshows', hstop⟩
    have heos : ShowsEos buf (huffmanCode.encode dest).length := by
      rcases hstop with h | ⟨-, h⟩
      · exact h.showsEos
      · exact h
    have hpre := prefix_of_showsEos hshows hshows' heos
    rcases hend with ⟨hn, hstop'⟩ | ⟨hn, hfull, hnot⟩
    · have heos' : ShowsEos buf (huffmanCode.encode l).length := by
        rcases hstop' with h | ⟨-, h⟩
        · exact h.showsEos
        · exact h
      have hback := prefix_of_showsEos hshows' hshows heos'
      obtain rfl := hpre.eq_of_length_le hback.length_le
      exact ⟨Prod.ext hn hl, by omega⟩
    · obtain rfl : l = dest := by
        apply hpre.eq_of_length_le
        omega
      rcases hstop with h | ⟨h, -⟩
      · exact absurd h hnot
      · omega

/-- The code of `)`, cut short after eight of its ten bits, is accepted. -/
theorem huffman_decode_cut_short :
    ¬ ∀ (buf : Bytes) (destlen : Nat) (n : Int) (dest : Bytes),
      huffman_decode buf 8 destlen = (n, dest) → 0 ≤ n → HuffmanBody dest buf := by
  intro h
  obtain ⟨pad, -, hbits⟩ := h [0xfe#8] 1 1 [0x29#8] (by decide +kernel) (by decide)
  have hlen := congrArg List.length hbits
  have hcode : (huffmanCode.encode [0x29#8]).length = 10 := by decide +kernel
  rw [List.length_append, hcode, List.length_replicate] at hlen
  simp at hlen
  omega

/-! ## Round trip -/

/-- What the encoder wrote shows the string, and only padding behind it. -/
theorem HuffmanBody.shows {s body : Bytes} (h : HuffmanBody s body) :
    huffmanCode.Shows (inputBits body) (8 * body.length) 0 s ∧
      OnesLeft body (huffmanCode.encode s).length := by
  obtain ⟨pad, hpad, hbits⟩ := h
  have hlen := congrArg List.length hbits
  rw [length_ofOctets, List.length_append, List.length_replicate] at hlen
  have hpos : ∀ a, 0 < (huffmanCode.code a).length := by
    intro a
    show 0 < (huffmanWord a).length
    rw [length_huffmanWord]
    have := (encvOf_bounds a).1
    omega
  constructor
  · have hshows := huffmanCode.shows_encode (8 * body.length) hpos s
      (List.replicate pad true) [] (by rw [List.nil_append]; omega)
    rw [List.nil_append, ← hbits] at hshows
    exact hshows
  · refine ⟨by simp only [bitsLeft]; omega, ?_⟩
    intro i hi
    simp only [bitsLeft] at hi
    rw [inputBits, hbits, extend_append_right, extend_of_lt (by simp; omega),
      List.getElem_replicate]

/-- Decoding the body of a coded string, with or without room for it. -/
theorem HuffmanBody.huffman_decode {s body : Bytes} (h : HuffmanBody s body) (destlen : Nat) :
    (s.length ≤ destlen → Hpack.huffman_decode body 8 destlen = ((s.length : Int), s)) ∧
      (destlen < s.length →
        ∃ stored, Hpack.huffman_decode body 8 destlen = (-1, stored) ∧
          stored.length ≤ destlen) := by
  obtain ⟨hshows, hones⟩ := h.shows
  obtain ⟨l, hl, hroom, hshows', hend⟩ := huffman_decode_run body destlen
  have hpre := prefix_of_showsEos hshows' hshows hones.showsEos
  rcases hend with ⟨hn, hstop⟩ | ⟨hn, hfull, hnot⟩
  · have heos : ShowsEos body (huffmanCode.encode l).length := by
      rcases hstop with h | ⟨-, h⟩
      · exact h.showsEos
      · exact h
    have hback := prefix_of_showsEos hshows hshows' heos
    obtain rfl := hpre.eq_of_length_le hback.length_le
    exact ⟨fun _ => Prod.ext hn hl, fun _ => by omega⟩
  · constructor
    · intro hle
      obtain rfl : l = s := by
        apply hpre.eq_of_length_le
        omega
      exact absurd hones hnot
    · intro _
      exact ⟨l, Prod.ext hn hl, hroom⟩

/-- Huffman coding round trip. A buffer of four octets for each of the string's
and eleven more is large enough; and whenever `huffman_encode` succeeds, the
octets behind the length it wrote decode to the string, or to -1 and no store
past `destlen` when the destination is too short. -/
theorem huffman_round_trip (s : Bytes) (encoded_number buf : Mem) (buflen : Nat) :
    (4 * s.length + 11 ≤ buflen → (buflen : Int) ≤ SSIZE_MAX →
        0 ≤ (huffman_encode s encoded_number buf buflen).1 ∧
          (huffman_encode s encoded_number buf buflen).1 ≤ buflen) ∧
      ∀ (r : Int) (buf' : Mem), huffman_encode s encoded_number buf buflen = (r, buf') → 0 ≤ r →
        ∃ nlen len : Nat, decode_number (buf'.read 0 r.toNat) 7 = ((nlen : Int), len) ∧
          r = nlen + len ∧ ∀ destlen,
            (s.length ≤ destlen →
              huffman_decode (buf'.read nlen len) 8 destlen = ((s.length : Int), s)) ∧
            (destlen < s.length →
              ∃ stored, huffman_decode (buf'.read nlen len) 8 destlen = (-1, stored) ∧
                stored.length ≤ destlen) := by
  constructor
  · intro hroom hmax
    have hr := huffman_encode_nonneg encoded_number buf hroom hmax
    refine ⟨hr, ?_⟩
    obtain ⟨body, hbody, hlen, hr', -⟩ := huffman_encode_ok (Prod.eta _).symm hr
    have hle := hbody.length_le
    have hten := length_numberOctets_le 0x80#8 (n := body.length)
      (by simp only [SSIZE_MAX] at hlen; omega)
    rw [hr', huffmanOctets, List.length_append]
    push_cast
    omega
  · intro r buf' henc hr
    obtain ⟨body, hbody, hlen, rfl, hread⟩ := huffman_encode_ok henc hr
    rw [Int.toNat_natCast] at hread ⊢
    have hnum := decode_number_numberOctets (p := 7) 0x80#8 (by omega)
      (show body.length < UINTMAX_MOD by simp only [SSIZE_MAX, UINTMAX_MOD] at *; omega) body
    refine ⟨(numberOctets 7 0x80#8 body.length).length, body.length, ?_, ?_, ?_⟩
    · rw [hread]
      exact hnum
    · rw [huffmanOctets, List.length_append]
      push_cast
      rfl
    · -- behind the length there is the body
      have hbodyRead : buf'.read (numberOctets 7 0x80#8 body.length).length body.length = body := by
        rw [huffmanOctets, List.length_append, Mem.read_add, Nat.zero_add] at hread
        exact (List.append_inj hread (by simp)).2
      rw [hbodyRead]
      exact hbody.huffman_decode

/-- `a` in a buffer of twenty octets. -/
theorem huffman_round_trip_a :
    0 ≤ (huffman_encode [0x61#8] (fun _ => 0) (fun _ => 0) 20).1 ∧
      ∃ nlen len : Nat,
        huffman_decode ((huffman_encode [0x61#8] (fun _ => 0) (fun _ => 0) 20).2.read nlen len)
          8 1 = (1, [0x61#8]) := by
  obtain ⟨hfits, hback⟩ := huffman_round_trip [0x61#8] (fun _ => 0) (fun _ => 0) 20
  have hr := (hfits (by decide) (by decide)).1
  refine ⟨hr, ?_⟩
  obtain ⟨nlen, len, -, -, hdec⟩ := hback _ _ (Prod.eta _).symm hr
  exact ⟨nlen, len, (hdec 1).1 (by decide)⟩

end Shitty.Hpack
