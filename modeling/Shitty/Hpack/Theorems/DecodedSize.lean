import Shitty.Hpack.Theorems.Acceptance

/-!
# The size of decoded strings

Every symbol starts inside the input and takes five bits of it, whether or not the input
is what an encoder wrote: eight fifths of its length are room enough, and with more the
same is returned. The shortest code words have five bits, and the bits behind the end
are ones, which are no symbol. Nothing is asked of the input, so this holds for whatever
a peer sends.
-/

namespace Shitty.Hpack

/-- Symbols that start inside the input are not more than a fifth of its bits. -/
theorem shows_length {buf l : Bytes}
    (h : huffmanCode.Shows (inputBits buf) (8 * buf.length) 0 l) :
    l.length ≤ (8 * buf.length + 4) / 5 := by
  rcases Nat.eq_zero_or_pos l.length with hzero | hpos
  · omega
  · -- where the last one starts
    have hlast : l.length - 1 < l.length := by omega
    have hat := (h.at huffmanCode hlast).1
    have hfront := length_encode_ge (l.take (l.length - 1))
    rw [List.length_take] at hfront
    omega

/-- As many symbols leave nothing of the input. -/
theorem onesLeft_of_length {buf l : Bytes} (h : 8 * buf.length / 5 + 1 ≤ l.length) :
    OnesLeft buf (huffmanCode.encode l).length := by
  have hcode := length_encode_ge l
  have hnone : bitsLeft buf (huffmanCode.encode l).length = 0 := by
    unfold bitsLeft
    omega
  refine ⟨by omega, fun i hi => ?_⟩
  omega

theorem huffman_decode_size {buf : Bytes} {destlen : Nat} (h : 8 * buf.length / 5 + 1 ≤ destlen) :
    0 ≤ (huffman_decode buf 8 destlen).1 ∧
      (huffman_decode buf 8 destlen).1 ≤ ((8 * buf.length + 4) / 5 : Nat) := by
  obtain ⟨l, -, -, hshows, ⟨hlen, -⟩ | ⟨-, hfull, hleft⟩⟩ := huffman_decode_run buf destlen
  · have hsize := shows_length hshows
    rw [hlen]
    omega
  · exact absurd (onesLeft_of_length (by omega)) hleft

/-- What is returned with that room is returned with any. -/
theorem huffman_decode_same {buf : Bytes} {destlen destlen' : Nat}
    (h : 8 * buf.length / 5 + 1 ≤ destlen) (h' : 8 * buf.length / 5 + 1 ≤ destlen') :
    huffman_decode buf 8 destlen = huffman_decode buf 8 destlen' := by
  have hnonneg := (huffman_decode_size h).1
  obtain ⟨hn, -, hshows, hstop⟩ :=
    (huffman_decode_returns_iff buf destlen _ _).mp ⟨(Prod.eta _).symm, hnonneg⟩
  have hsize := shows_length hshows
  refine ((huffman_decode_returns_iff buf destlen' _ _).mpr ⟨hn, by omega, hshows, ?_⟩).1.symm
  -- with no room behind the symbols there is nothing left to be seen
  by_cases hroom : (huffman_decode buf 8 destlen).2.length < destlen'
  · exact hstop.imp_right fun heos => ⟨hroom, heos.2⟩
  · exact .inl (onesLeft_of_length (by omega))

/-- Eight fifths of the input, and one octet more, are room enough: with that or more
`huffman_decode` returns one and the same length, not more than eight fifths rounded up.
So the size that `decode_huff_string_from_rbuf` gives its string is never changed to a
negative one; a buffer in memory has less than 2^61 octets. -/
theorem decoded_size (buf : Bytes) :
    (∀ destlen, 8 * buf.length / 5 + 1 ≤ destlen →
      0 ≤ (huffman_decode buf 8 destlen).1 ∧
        (huffman_decode buf 8 destlen).1 ≤ ((8 * buf.length + 4) / 5 : Nat) ∧
        huffman_decode buf 8 destlen = huffman_decode buf 8 (8 * buf.length / 5 + 1)) ∧
    (buf.length * 8 < UINTMAX_MOD →
      ∀ what, decode_huff_string_from_rbuf buf ≠ .error (.length_error what)) := by
  constructor
  · intro destlen h
    obtain ⟨hnonneg, hle⟩ := huffman_decode_size h
    exact ⟨hnonneg, hle, huffman_decode_same h (Nat.le_refl _)⟩
  · intro hbuf what herror
    unfold decode_huff_string_from_rbuf at herror
    rcases bind_eq_error.mp herror with hnumber | ⟨⟨coded_len, encoded, octets⟩, hnumber, hrest⟩
    · unfold read_number at hnumber
      split at hnumber
      split at hnumber <;> cases hnumber
    · obtain ⟨-, rfl, -⟩ := read_number_local hnumber
      rw [List.length_append] at hbuf
      simp only at hrest
      split at hrest
      · cases hrest
      · rename_i hle
        have hcoded : (octets.take coded_len).length = coded_len := by
          rw [List.length_take]
          omega
        have hnonneg := huffman_decode_nonneg (octets.take coded_len) (by omega)
        rw [hcoded] at hnonneg
        rw [if_neg (not_not.mpr (huffman_decode_le _ _ _)), if_neg (not_lt.mpr hnonneg)] at hrest
        cases hrest

/-- The two octets of `0xff`, where no symbol is found. -/
theorem decoded_size_ones :
    huffman_decode [0xff#8, 0xff#8] 8 100 = huffman_decode [0xff#8, 0xff#8] 8 4 :=
  ((decoded_size [0xff#8, 0xff#8]).1 100 (by simp)).2.2

end Shitty.Hpack
