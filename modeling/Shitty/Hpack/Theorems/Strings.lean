import Shitty.Hpack.Encoded
import Shitty.Hpack.Logic.Decoder
import Shitty.Hpack.Logic.OwnCoding
import Shitty.Hpack.Theorems.Number

/-!
# String literals there and back

Which of its three ways `hpack_encode_string` takes, and when the literal is decoded to
the string again. A raw literal is decoded to its string when its first octet has no
stray bit at the top; a coded one is when the room that is made for it can be counted in
64 bits.
-/

namespace Shitty.Hpack

open Lib Lib.Bits

/-! ## The three ways -/

/-- The length of a Huffman-coded literal. -/
def codedLength (s : Bytes) : Nat := numberLength 7 (huffmanLength s) + huffmanLength s

/-- The length of a raw literal. -/
def rawLength (s : Bytes) : Nat := numberLength 7 s.length + s.length

/-- The code words fit into `coded`, but not behind their length. -/
def Overruns (s : Bytes) : Prop :=
  huffmanLength s ≤ s.length + 9 ∧ s.length + 10 < codedLength s

theorem huffmanLength_lt_codedLength (s : Bytes) : huffmanLength s < codedLength s := by
  have := numberLength_pos 7 (huffmanLength s)
  unfold codedLength
  omega

/-- A string that is not shorter raw is longer than its code words. -/
theorem huffmanLength_gt {s : Bytes} (h : rawLength s < codedLength s) :
    s.length < huffmanLength s := by
  by_contra hle
  have := numberLength_mono 7 (Nat.le_of_not_lt hle)
  unfold rawLength codedLength at h
  omega

/-- What `huffman_encode` comes to in the buffer it is given. -/
inductive Coded (encoded_number : Mem) (s : Bytes) (len : Int) (coded : Mem) : Prop
  | fails (negative : len < 0)
      (room : s.length + 9 < huffmanLength s ∨ SSIZE_MAX < (codedLength s : Int))
  | fits (room : huffmanLength s ≤ s.length + 9) (size : (codedLength s : Int) ≤ SSIZE_MAX)
      (len_eq : len = codedLength s) (body : Bytes) (coding : HuffmanBody s body)
      (read : coded.read 0 (codedLength s) = huffmanOctets body)

theorem huffman_encode_coded {encoded_number : Mem} {s : Bytes} {len : Int} {coded : Mem}
    (h : huffman_encode s encoded_number (fun _ => 0) (10 + s.length) = (len, coded)) :
    Coded encoded_number s len coded := by
  have hiff : 0 ≤ (huffman_encode s encoded_number (fun _ => 0) (10 + s.length)).1 ↔
      huffmanLength s ≤ 10 + s.length - 1 ∧
        (numberLength 7 (huffmanLength s) + huffmanLength s : Int) ≤ SSIZE_MAX :=
    huffman_encode_nonneg_iff (by omega)
  rw [h] at hiff
  simp only at hiff
  have hlength : (codedLength s : Int) = numberLength 7 (huffmanLength s) + huffmanLength s := by
    rw [codedLength]
    push_cast
    rfl
  by_cases hlen : 0 ≤ len
  · obtain ⟨hroom, hsize⟩ := hiff.mp hlen
    obtain ⟨body, hbody, -, rfl, hread⟩ := huffman_encode_ok h hlen
    have hcoded : (huffmanOctets body).length = codedLength s := by
      rw [huffmanOctets, List.length_append, length_numberOctets_eq, hbody.length_eq, codedLength]
    rw [hcoded] at hread ⊢
    exact .fits (by omega) (by omega) rfl body hbody hread
  · exact .fails (by omega) (by omega)

/-- The strings for which `hpack_encode_string` returns a literal that is Huffman-coded. -/
def TakesCoded (s : Bytes) : Prop :=
  (rawLength s < UINT_MOD ∧ codedLength s ≤ rawLength s) ∨
    (codedLength s ≤ s.length ∧ (codedLength s : Int) ≤ SSIZE_MAX)

/-- The strings for which `hpack_encode_string` returns a literal with the octets as they are. -/
def TakesRaw (s : Bytes) : Prop :=
  rawLength s < UINT_MOD ∧ rawLength s < codedLength s ∧ ¬ Overruns s

/-- What `hpack_encode_string` comes to: a coded literal, a raw one, or a length that cannot be
written. -/
inductive Encodes (raws_length_prefix₀ : Mem) (s : Bytes) : Except EncodeError Bytes → Prop
  | coded (takes : TakesCoded s) (body : Bytes) (coding : HuffmanBody s body) :
      Encodes raws_length_prefix₀ s (.ok (huffmanOctets body))
  | raw (takes : TakesRaw s) :
      Encodes raws_length_prefix₀ s (.ok (numberOctets 7 (raws_length_prefix₀ 0) s.length ++ s))
  | fails (not_coded : ¬ TakesCoded s) (not_raw : ¬ TakesRaw s) (e : EncodeError) :
      Encodes raws_length_prefix₀ s (.error e)

/-- The length in front of a raw string. -/
theorem raw_length_cases (raws_length_prefix₀ : Mem) (s : Bytes) :
    (2 ^ 63 ≤ s.length ∧ (encode_number s.length 7 raws_length_prefix₀ 10).1 = -1) ∨
      (numberLength 7 s.length ≤ 10 ∧
        (encode_number s.length 7 raws_length_prefix₀ 10).1 = numberLength 7 s.length ∧
        (encode_number s.length 7 raws_length_prefix₀ 10).2.read 0 (numberLength 7 s.length) =
          numberOctets 7 (raws_length_prefix₀ 0) s.length) := by
  have hlength := length_numberOctets_eq 7 (raws_length_prefix₀ 0) s.length
  by_cases hten : numberLength 7 s.length ≤ 10
  · rw [encode_number_eq (by omega) s.length raws_length_prefix₀ 10 (by rwa [hlength]), hlength]
    refine .inr ⟨hten, rfl, ?_⟩
    rw [← hlength, Mem.read_write]
  · refine .inl ⟨?_, encode_number_full (by omega) _ _ _ (by omega)⟩
    by_contra hlt
    exact hten (numberLength_le_of_lt (Nat.lt_of_not_le hlt))

theorem hpack_encode_string_encodes (raws_length_prefix₀ encoded_number : Mem) (s : Bytes) :
    Encodes raws_length_prefix₀ s (hpack_encode_string raws_length_prefix₀ encoded_number s) := by
  have hpos := huffmanLength_lt_codedLength s
  have hle := huffmanLength_le s
  have hcoded : codedLength s = numberLength 7 (huffmanLength s) + huffmanLength s := rfl
  have hraw : rawLength s = numberLength 7 s.length + s.length := rfl
  have hcases := raw_length_cases raws_length_prefix₀ s
  unfold hpack_encode_string
  rcases henc : huffman_encode s encoded_number (fun _ => 0) (10 + s.length) with ⟨len, coded⟩
  rcases hnum : encode_number s.length 7 raws_length_prefix₀ 10 with ⟨plen, octets⟩
  rw [hnum] at hcases
  simp only [henc] at hcases ⊢
  cases huffman_encode_coded henc with
  | fails negative room =>
      -- there is no coding: the raw string, if its length can be written
      rw [if_neg (by omega), if_neg (by omega)]
      rcases hcases with ⟨hhuge, rfl⟩ | ⟨hten, rfl, hread⟩
      · rw [if_pos (by omega), if_neg (by omega)]
        refine .fails ?_ ?_ _ <;> simp only [TakesCoded, TakesRaw, UINT_MOD, SSIZE_MAX] at * <;>
          omega
      · rw [if_neg (by omega), Int.toNat_natCast, hread, length_numberOctets_eq, ← hraw,
          if_pos (.inl negative)]
        by_cases hwrap : rawLength s % UINT_MOD < rawLength s
        · rw [if_pos hwrap]
          refine .fails ?_ ?_ _ <;> simp only [TakesCoded, TakesRaw, UINT_MOD, SSIZE_MAX] at * <;>
            omega
        · rw [if_neg hwrap]
          have hsmall : rawLength s < UINT_MOD := by
            rw [UINT_MOD] at hwrap ⊢
            omega
          have hten' := numberLength_le_of_lt (n := huffmanLength s) (by rw [UINT_MOD] at hsmall; omega)
          refine .raw ⟨hsmall, ?_, ?_⟩
          · simp only [UINT_MOD, SSIZE_MAX] at *
            omega
          · unfold Overruns
            simp only [UINT_MOD, SSIZE_MAX] at *
            omega
  | fits room size len_eq body coding read =>
      subst len_eq
      -- the coding fits, though its length may have moved it over the end
      by_cases hover : ((10 + s.length : Nat) : Int) < codedLength s
      · rw [if_pos hover]
        refine .fails ?_ ?_ _
        · unfold TakesCoded
          have hten : rawLength s < UINT_MOD → numberLength 7 s.length ≤ 10 := fun hlt =>
            numberLength_le_of_lt (by rw [UINT_MOD] at hlt; omega)
          omega
        · rintro ⟨-, -, hnot⟩
          exact hnot ⟨room, by omega⟩
      · rw [if_neg hover, if_pos (show (0 : Int) < codedLength s by omega), Int.toNat_natCast, read]
        by_cases hshort : (0 : Int) < codedLength s ∧ (codedLength s : Int) ≤ s.length
        · rw [if_pos hshort]
          exact .coded (.inr ⟨by omega, size⟩) body coding
        · rw [if_neg hshort]
          rcases hcases with ⟨hhuge, -⟩ | ⟨hten, rfl, hread⟩
          · rw [SSIZE_MAX] at size
            omega
          · rw [if_neg (by omega), Int.toNat_natCast, hread, length_numberOctets_eq, ← hraw]
            by_cases hsmall : rawLength s < UINT_MOD
            · rw [Nat.mod_eq_of_lt hsmall]
              -- the coding is not shorter than the string itself: the shorter literal
              by_cases hless : rawLength s < codedLength s
              · rw [if_pos (by omega), if_neg (Nat.lt_irrefl _)]
                exact .raw ⟨hsmall, hless, fun hoverruns => by have := hoverruns.2; omega⟩
              · rw [if_neg (by omega)]
                exact .coded (.inl ⟨hsmall, by omega⟩) body coding
            · rw [if_pos (by rw [UINT_MOD] at hsmall ⊢; omega),
                if_pos (by rw [UINT_MOD] at hsmall ⊢; omega)]
              refine .fails ?_ ?_ _ <;> simp only [TakesCoded, TakesRaw] <;> omega

/-! ## Round trips -/

/-- The octets are decoded to the string, whatever follows them. -/
def Literal (encoded s : Bytes) : Prop :=
  ∀ rest, decode_string_from_rbuf (encoded ++ rest) = .ok ((s, encoded), rest)

/-- The string is encoded, and decoded to itself. -/
def RoundTrips (raws_length_prefix₀ encoded_number : Mem) (s : Bytes) : Prop :=
  ∃ encoded, hpack_encode_string raws_length_prefix₀ encoded_number s = .ok encoded ∧
    Literal encoded s

/-- The literal is Huffman-coded, or the bit in front of a raw length happens to be clear. -/
def Sound (raws_length_prefix₀ : Mem) (s : Bytes) : Prop :=
  (rawLength s < UINT_MOD ∧
      (codedLength s ≤ rawLength s ∨
        ((raws_length_prefix₀ 0).getLsbD 7 = false ∧ ¬ Overruns s))) ∨
    (codedLength s ≤ s.length ∧ huffmanLength s * 8 < UINTMAX_MOD)

/-- A literal with the H bit is decoded to what the octets behind the length show. -/
theorem decode_huffman_shows {first : Octet} (hfirst : first &&& 0x80#8 ≠ 0#8) {octets s enc : Bytes}
    {rest : Bytes} (hlen : octets.length < UINTMAX_MOD)
    (h : decode_string_from_rbuf (numberOctets 7 first octets.length ++ octets) =
      .ok ((s, enc), rest)) :
    huffmanCode.Shows (inputBits octets) (8 * octets.length) 0 s := by
  obtain ⟨octet, tail, hcons, hmask⟩ := numberOctets_first (p := 7) (by omega) first octets.length
  have h80 := hmask 0x80#8 (by decide)
  rw [hcons, List.cons_append, decode_string_from_rbuf, if_pos (by rwa [h80]),
    ← List.cons_append, ← hcons, decode_huff_string_from_rbuf,
    read_number_numberOctets first (by omega) hlen, ok_bind] at h
  simp only [Nat.lt_irrefl, if_false, List.take_length] at h
  rcases hdecode : huffman_decode octets 8 (octets.length * 8 % UINTMAX_MOD / 5 + 1) with ⟨n, dest⟩
  rw [hdecode] at h
  simp only at h
  split at h
  · cases h
  · split at h
    · cases h
    · rename_i hneg
      cases h
      obtain ⟨hn, -, hshows, -⟩ := (huffman_decode_returns_iff _ _ _ _).mp
        ⟨hdecode, Int.not_lt.mp hneg⟩
      rw [hn, Int.toNat_natCast, List.take_length]
      exact hshows

theorem and_0x80_iff : ∀ c : Octet, c &&& 0x80#8 = 0#8 ↔ c.getLsbD 7 = false := by
  decide +kernel

/-- A raw literal with the H bit is not decoded to the string. -/
theorem raw_round_trip_iff {first : Octet} {s : Bytes} (htakes : TakesRaw s) :
    Literal (numberOctets 7 first s.length ++ s) s ↔ first.getLsbD 7 = false := by
  obtain ⟨hsmall, hless, -⟩ := htakes
  have hlen : s.length < UINTMAX_MOD := by
    unfold rawLength at hsmall
    rw [UINT_MOD] at hsmall
    rw [UINTMAX_MOD]
    omega
  rw [← and_0x80_iff]
  constructor
  · intro h
    by_contra hbit
    have hnil := h []
    rw [List.append_nil] at hnil
    have hshows := decode_huffman_shows hbit hlen hnil
    have hgt := huffmanLength_gt hless
    unfold huffmanLength at hgt
    exact not_own_coding (by omega) hshows
  · exact fun hbit rest => decode_raw_literal hbit hlen rest

/-- There is no room for the string where its octets are too many to be counted. -/
theorem coded_decodes {s body enc v : Bytes} {rest : Bytes} (hbody : HuffmanBody s body)
    (htakes : TakesCoded s)
    (h : decode_string_from_rbuf (huffmanOctets body) = .ok ((v, enc), rest)) :
    huffmanLength s * 8 < UINTMAX_MOD := by
  have hlength := hbody.length_eq
  have hlt := huffmanLength_lt_codedLength s
  have hhuff := huffmanLength_le s
  by_contra hbig
  unfold TakesCoded rawLength at htakes
  have hlen : body.length < UINTMAX_MOD := by
    simp only [UINT_MOD, UINTMAX_MOD, SSIZE_MAX] at *
    omega
  obtain ⟨octet, tail, hcons, hmask⟩ := numberOctets_first (p := 7) (by omega) 0x80#8 body.length
  have h80 := hmask 0x80#8 (by decide)
  have hroom : body.length * 8 % UINTMAX_MOD / 5 + 1 < s.length := by
    simp only [UINT_MOD, UINTMAX_MOD, SSIZE_MAX] at *
    omega
  obtain ⟨stored, hdecode, -⟩ := (hbody.huffman_decode _).2 hroom
  rw [huffmanOctets, hcons, List.cons_append, decode_string_from_rbuf,
    if_pos (by rw [h80]; decide), ← List.cons_append, ← hcons, decode_huff_string_from_rbuf,
    read_number_numberOctets 0x80#8 (by omega) hlen, ok_bind] at h
  simp only [Nat.lt_irrefl, if_false, List.take_length, hdecode] at h
  rw [if_neg (by omega), if_pos (by omega)] at h
  cases h

/-- A Huffman-coded literal is decoded to the string when the room made for it can be
counted. -/
theorem coded_round_trip_iff {s body : Bytes} (hbody : HuffmanBody s body)
    (htakes : TakesCoded s) :
    Literal (huffmanOctets body) s ↔ huffmanLength s * 8 < UINTMAX_MOD := by
  constructor
  · intro h
    have hnil := h []
    rw [List.append_nil] at hnil
    exact coded_decodes hbody htakes hnil
  · intro hsmall
    rw [← hbody.length_eq] at hsmall
    exact fun rest => decode_huffman_literal hbody hsmall rest

/-- `hpack_encode_string` and `decode_string_from_rbuf` are inverse to each other but for
raw literals with a stray bit in front of their length. -/
theorem string_round_trip_iff (raws_length_prefix₀ encoded_number : Mem) (s : Bytes) :
    RoundTrips raws_length_prefix₀ encoded_number s ↔ Sound raws_length_prefix₀ s := by
  have hhuff := huffmanLength_le s
  have hlt := huffmanLength_lt_codedLength s
  have htrip : ∀ enc, hpack_encode_string raws_length_prefix₀ encoded_number s = .ok enc →
      (RoundTrips raws_length_prefix₀ encoded_number s ↔ Literal enc s) := by
    intro enc henc
    unfold RoundTrips
    rw [henc]
    simp
  have hencodes := hpack_encode_string_encodes raws_length_prefix₀ encoded_number s
  generalize henc : hpack_encode_string raws_length_prefix₀ encoded_number s = r at hencodes
  cases hencodes with
  | coded takes body coding =>
      rw [htrip _ henc, coded_round_trip_iff coding takes]
      unfold Sound
      unfold TakesCoded at takes
      unfold rawLength at *
      simp only [UINT_MOD, UINTMAX_MOD, SSIZE_MAX] at *
      omega
  | raw takes =>
      rw [htrip _ henc, raw_round_trip_iff takes]
      obtain ⟨hsmall, hless, hnot⟩ := takes
      unfold Sound
      constructor
      · exact fun hbit => .inl ⟨hsmall, .inr ⟨hbit, hnot⟩⟩
      · rintro (⟨-, hle | hbit⟩ | ⟨hle, -⟩)
        · omega
        · exact hbit.1
        · unfold rawLength at hless
          omega
  | fails not_coded not_raw e =>
      refine iff_of_false ?_ ?_
      · rintro ⟨enc, h, -⟩
        rw [henc] at h
        cases h
      · have hten := numberLength_le_of_lt (n := huffmanLength s)
        rintro (⟨hsmall, hle | ⟨-, hnot⟩⟩ | ⟨hle, hcount⟩)
        · exact not_coded (.inl ⟨hsmall, hle⟩)
        · by_cases hless : rawLength s < codedLength s
          · exact not_raw ⟨hsmall, hless, hnot⟩
          · exact not_coded (.inl ⟨hsmall, by omega⟩)
        · refine not_coded (.inr ⟨hle, ?_⟩)
          unfold codedLength
          rw [UINTMAX_MOD] at hcount
          have := hten (by omega)
          rw [SSIZE_MAX]
          omega

/-- 0xff, with 0xff in the array: the raw literal says it is Huffman-coded, by one octet. -/
theorem string_round_trip_stray :
    (hpack_encode_string (fun _ => 0xff#8) (fun _ => 0) [0xff#8]).toOption =
        some [0x81#8, 0xff#8] ∧
      (decode_string_from_rbuf [0x81#8, 0xff#8]).toOption = some (([], [0x81#8, 0xff#8]), []) ∧
      ¬ RoundTrips (fun _ => 0xff#8) (fun _ => 0) [0xff#8] := by
  have henc : (hpack_encode_string (fun _ => 0xff#8) (fun _ => 0) [0xff#8]).toOption =
      some [0x81#8, 0xff#8] := by decide +kernel
  have hdec : (decode_string_from_rbuf [0x81#8, 0xff#8]).toOption =
      some (([], [0x81#8, 0xff#8]), []) := by decide +kernel
  refine ⟨henc, hdec, ?_⟩
  rintro ⟨encoded, h, htrip⟩
  rw [h] at henc
  cases henc
  have hnil := htrip []
  rw [List.append_nil] at hnil
  rw [hnil] at hdec
  exact absurd hdec (by decide)

end Shitty.Hpack
