import Shitty.Hpack.Logic.Shifts
import Shitty.Hpack.Theorems.EncodedSize

/-!
# What `encode` writes

The code words of the input one behind the other and ones up to the end of the last
octet, when that many octets fit into the buffer and into the type of the result.
Otherwise it returns -1, and has written nothing outside of the buffer. The words
themselves are those of the table, each of five to thirty bits, as the shifts of the
source need it.
-/

namespace Shitty.Hpack

/-- `encode` into a buffer that is large enough or not. -/
structure PacksCodes (input : Bytes) (base : Nat) (buf : Mem) (buflen : Nat) (fits : Prop) :
    Prop where
  codes : ∀ c ∈ input, 5 ≤ (encvOf c).bits ∧ (encvOf c).bits ≤ 30 ∧
    (encvOf c).value < 2 ^ (encvOf c).bits
  /-- The octets of the code words are written from the base on, and no other ones. -/
  encoded : fits → ∃ body, HuffmanBody input body ∧ body.length = huffmanLength input ∧
    encode input base buf buflen = ((huffmanLength input : Int), buf.write base body)
  refused : ¬ fits → (encode input base buf buflen).1 = -1 ∧
    StoredInside buf base buflen (encode input base buf buflen).2
  shifts : Shifts.encode input base buf buflen = .ok (encode input base buf buflen)

/-- `encode` writes the code words of any string into any buffer that has room for them, and
fails for any other buffer. -/
theorem encode_packs_codes (input : Bytes) (base : Nat) (buf : Mem) (buflen : Nat) :
    PacksCodes input base buf buflen
      (huffmanLength input ≤ buflen ∧ (huffmanLength input : Int) ≤ SSIZE_MAX) where
  codes := by
    intro c _
    obtain ⟨hlow, hhigh, hval⟩ := encvOf_bounds c
    exact ⟨hlow, hhigh, by omega⟩
  encoded := by
    intro hfits
    have hnonneg : 0 ≤ (encode input base buf buflen).1 := encode_nonneg_iff.mpr hfits
    obtain ⟨body, hbody, -, hlen, -, hbuf⟩ := encode_ok (Prod.eta _).symm hnonneg
    refine ⟨body, hbody, hbody.length_eq, Prod.ext ?_ hbuf⟩
    rw [hlen, hbody.length_eq]
  refused := by
    intro hfits
    obtain ⟨hinside, hneg⟩ := encode_inside input base buflen buf
    have hfails : ¬ 0 ≤ (encode input base buf buflen).1 := fun h =>
      hfits (encode_nonneg_iff.mp h)
    exact ⟨hneg (by omega), hinside⟩
  shifts := Shifts.encode_eq input base buf buflen

/-! ## A result that is too large -/

/-- An octet whose code word has eight bits, repeated, is coded in as many octets as there are. -/
theorem huffmanLength_replicate {c : Octet} (hbits : (encvOf c).bits = 8) (n : Nat) :
    huffmanLength (List.replicate n c) = n := by
  rw [huffmanLength, length_encode_replicate, hbits]
  omega

/-- 2^63 octets for as many that are `X` fit into such a buffer, but not into `ssize_t`. -/
theorem encode_too_long : ¬ ∀ (input : Bytes) (base : Nat) (buf : Mem) (buflen : Nat),
    PacksCodes input base buf buflen (huffmanLength input ≤ buflen) := by
  intro h
  -- the length is known without the string
  have hlen : ∀ n, huffmanLength (List.replicate n 0x58) = n :=
    huffmanLength_replicate (by decide +kernel)
  obtain ⟨body, -, -, hencode⟩ :=
    (h (List.replicate (2 ^ 63) 0x58) 0 (fun _ => 0) (2 ^ 63)).encoded (Nat.le_of_eq (hlen _))
  have hnonneg : 0 ≤ (encode (List.replicate (2 ^ 63) 0x58) 0 (fun _ => 0) (2 ^ 63)).1 := by
    rw [hencode]
    exact Int.natCast_nonneg _
  have hmax := (encode_nonneg_iff.mp hnonneg).2
  rw [hlen] at hmax
  exact absurd hmax (by decide)

end Shitty.Hpack
