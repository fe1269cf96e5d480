import Shitty.Hpack.StringDecode
import Shitty.Hpack.Theorems.DecodedSize

/-!
# The two string decoders

`string_decode` gives `huffman_decode` all the octets behind the length, and not only
those of the string: it agrees with `decode_string_from_rbuf` when the octets behind the
string go on with ones until the decoder stops. That is always so at the end of a block.
In front of other fields it depends on the bits of those, and most of them make the two
decoders differ.
-/

namespace Shitty.Hpack

open Lib Lib.Bits

/-! ## What is decoded from octets -/

/-- The text whose code words the octets show, with an end-of-string code behind them. -/
def StopsBehind (octets text : Bytes) : Prop :=
  huffmanCode.Shows (inputBits octets) (8 * octets.length) 0 text ∧
    ShowsEos octets (huffmanCode.encode text).length

/-- That is what is decoded, if there is room enough. -/
theorem huffman_decode_stops {octets : Bytes} {destlen : Nat}
    (h : 8 * octets.length / 5 + 1 ≤ destlen) :
    StopsBehind octets (huffman_decode octets 8 destlen).2 ∧
      (huffman_decode octets 8 destlen).1 = (huffman_decode octets 8 destlen).2.length := by
  obtain ⟨hn, -, hshows, hstop⟩ := (huffman_decode_returns_iff octets destlen _ _).mp
    ⟨(Prod.eta _).symm, (huffman_decode_size h).1⟩
  refine ⟨⟨hshows, ?_⟩, hn⟩
  rcases hstop with hones | ⟨-, heos⟩
  · exact hones.showsEos
  · exact heos

theorem StopsBehind.unique {octets text text' : Bytes} (h : StopsBehind octets text)
    (h' : StopsBehind octets text') : text = text' :=
  (prefix_of_showsEos h.1 h'.1 h'.2).eq_of_length_le (prefix_of_showsEos h'.1 h.1 h.2).length_le

/-- The bits of the code words, and of the end-of-string code. -/
theorem stopsBehind_bits {octets text : Bytes} (h : StopsBehind octets text) :
    slice (inputBits octets) 0 ((huffmanCode.encode text).length + 30) =
      huffmanCode.encode text ++ List.replicate 30 true := by
  rw [slice_add, h.1.slice_encode huffmanCode, Nat.zero_add]
  exact congrArg (huffmanCode.encode text ++ ·) h.2

/-! ## A string and what is behind it -/

/-- Behind the coded octets the bits are ones, until thirty bits behind the code words of
their text. -/
def ContinuedByOnes (coded behind : Bytes) : Prop :=
  ∃ text, StopsBehind coded text ∧
    ∀ i, 8 * coded.length ≤ i → i < (huffmanCode.encode text).length + 30 →
      inputBits (coded ++ behind) i = true

theorem inputBits_front (coded behind : Bytes) {i : Nat} (h : i < 8 * coded.length) :
    inputBits (coded ++ behind) i = inputBits coded i := by
  have hlen : i < (ofOctets coded).length := by
    rw [length_ofOctets]
    exact h
  rw [inputBits, ofOctets_append, extend_append_left _ hlen, inputBits, extend_of_lt hlen]

theorem inputBits_behind (coded : Bytes) {i : Nat} (h : 8 * coded.length ≤ i) :
    inputBits coded i = true := by
  apply extend_of_le
  rw [length_ofOctets]
  exact h

/-- The text is decoded from the octets with others behind them as it is from them alone
exactly when they are continued by ones. -/
theorem stopsBehind_append_iff (coded behind : Bytes) :
    (∃ text, StopsBehind coded text ∧ StopsBehind (coded ++ behind) text) ↔
      ContinuedByOnes coded behind := by
  constructor
  · rintro ⟨text, halone, hboth⟩
    refine ⟨text, halone, fun i hcoded hi => ?_⟩
    have hbits := (stopsBehind_bits hboth).trans (stopsBehind_bits halone).symm
    have hget := congrArg (·[i]?) hbits
    simp only [slice, List.getElem?_map, List.getElem?_range hi, Option.map_some, Nat.zero_add,
      Option.some.injEq] at hget
    rw [hget, inputBits_behind coded hcoded]
  · rintro ⟨text, halone, hones⟩
    have hsame : slice (inputBits (coded ++ behind)) 0 ((huffmanCode.encode text).length + 30) =
        slice (inputBits coded) 0 ((huffmanCode.encode text).length + 30) := by
      apply List.ext_getElem
      · simp
      · intro i h1 h2
        rw [getElem_slice, getElem_slice, Nat.zero_add]
        rw [length_slice] at h1
        by_cases hi : i < 8 * coded.length
        · exact inputBits_front coded behind hi
        · rw [hones i (by omega) h1, inputBits_behind coded (by omega)]
    rw [stopsBehind_bits halone, slice_add, Nat.zero_add] at hsame
    obtain ⟨hcode, heos⟩ := List.append_inj hsame (by simp)
    refine ⟨text, halone, halone.1.of_slice huffmanCode ?_ hcode, heos⟩
    rw [List.length_append]
    omega

/-- Behind the last octet of the buffer there are ones. -/
theorem continuedByOnes_nil (coded : Bytes) : ContinuedByOnes coded [] := by
  refine ⟨_, (huffman_decode_stops (Nat.le_refl _)).1, fun i hi _ => ?_⟩
  rw [List.append_nil]
  exact inputBits_behind coded hi

/-! ## The decoders -/

/-- The octets of the string that `decode_string_from_rbuf` decodes, if it does not throw. -/
def decodedString (buf : Bytes) : Option Bytes :=
  (decode_string_from_rbuf buf).toOption.map fun r => r.1.1

/-- Both succeed, with the same octets, or neither does. -/
def StringsAgree (buf : Bytes) (destlen : Nat) : Prop :=
  match decodedString buf with
  | some s => 0 ≤ (string_decode buf destlen).1 ∧ (string_decode buf destlen).2 = s
  | none => (string_decode buf destlen).1 < 0

/-- A coded string in front of other octets does not need its end to be decoded. -/
def EndsByItself (buf : Bytes) : Prop :=
  ∀ number octets, buf.headD 0#8 &&& 0x80#8 ≠ 0#8 → NumberAt buf 7 number octets →
    number ≤ octets.length → ContinuedByOnes (octets.take number) (octets.drop number)

/-- A string at the end of the buffer. -/
theorem endsByItself_last {buf : Bytes}
    (h : ∀ number octets, NumberAt buf 7 number octets → octets.length ≤ number) :
    EndsByItself buf := by
  intro number octets _ hnumber _
  rw [List.drop_eq_nil_of_le (h number octets hnumber)]
  exact continuedByOnes_nil _

theorem string_decode_cons {octet : Octet} {rest : Bytes} {len : Int} {number : Nat}
    (hnumber : decode_number (octet :: rest) 7 = (len, number)) (destlen : Nat) :
    string_decode (octet :: rest) destlen =
      if len < 1 ∨ ((octet :: rest).drop len.toNat).length < number ∨ destlen < number then (-1, [])
      else if octet &&& 0x80#8 ≠ 0#8 then
        huffman_decode ((octet :: rest).drop len.toNat) 8 destlen
      else (len + number, ((octet :: rest).drop len.toNat).take number) := by
  rw [string_decode, string_decode_common, hnumber, List.length_drop]
  by_cases hlen : len < 1
  · simp [hlen]
  · by_cases hshort : (octet :: rest).length - len.toNat < number
    · simp only [if_neg hlen, if_pos hshort]
      rw [if_pos (.inr (.inl hshort))]
    · by_cases hroom : destlen < number
      · simp [hlen, hroom]
      · rw [if_neg (by tauto)]
        by_cases hhuff : octet &&& 0x80#8 ≠ 0#8 <;>
          simp only [hlen, hshort, hroom, hhuff, Option.getD_some, reduceCtorEq, false_and,
            and_false, if_false, if_true, not_false_eq_true, ne_eq]

theorem decodedString_cons {octet : Octet} {rest : Bytes} {len : Int} {number : Nat}
    (hnumber : decode_number (octet :: rest) 7 = (len, number))
    (hbuf : (octet :: rest).length * 8 < UINTMAX_MOD) :
    decodedString (octet :: rest) =
      if len < 1 ∨ ((octet :: rest).drop len.toNat).length < number then none
      else if octet &&& 0x80#8 ≠ 0#8 then
        some (huffman_decode (((octet :: rest).drop len.toNat).take number) 8
          (8 * number / 5 + 1)).2
      else some (((octet :: rest).drop len.toNat).take number) := by
  unfold decodedString decode_string_from_rbuf decode_huff_string_from_rbuf
    decode_raw_string_from_rbuf read_number
  simp only [hnumber]
  by_cases hlen : len < 1
  · have hfails : len < 1 ∨ ((octet :: rest).drop len.toNat).length < number := .inl hlen
    rw [if_pos hfails]
    simp only [if_pos hlen, error_bind]
    split <;> rfl
  · by_cases hshort : ((octet :: rest).drop len.toNat).length < number
    · have hfails : len < 1 ∨ ((octet :: rest).drop len.toNat).length < number := .inr hshort
      rw [if_pos hfails]
      simp only [if_neg hlen, if_pos hshort, ok_bind]
      split <;> rfl
    · rw [if_neg (not_or.mpr ⟨hlen, hshort⟩)]
      by_cases hhuff : octet &&& 0x80#8 ≠ 0#8
      · have hcoded : (((octet :: rest).drop len.toNat).take number).length = number := by
          rw [List.length_take]
          omega
        have hsize : number * 8 % UINTMAX_MOD / 5 + 1 = 8 * number / 5 + 1 := by
          rw [List.length_drop] at hshort
          rw [Nat.mod_eq_of_lt (by omega), Nat.mul_comm]
        have hroom : 8 * (((octet :: rest).drop len.toNat).take number).length / 5 + 1 ≤
            8 * number / 5 + 1 := by rw [hcoded]
        have hall := (huffman_decode_stops hroom).2
        simp only [if_neg hlen, if_neg hshort, if_pos hhuff, ok_bind, hsize,
          if_neg (not_not.mpr (huffman_decode_le _ _ _)), hall, Int.toNat_natCast,
          List.take_length]
        rfl
      · simp only [if_neg hlen, if_neg hshort, if_neg hhuff, ok_bind]
        rfl

/-- With octets behind them, the same is decoded from the coded octets exactly when they are
continued by ones. -/
theorem huffman_decode_agree_iff {octets : Bytes} {number destlen : Nat}
    (hle : number ≤ octets.length) (hroom : 8 * octets.length / 5 + 1 ≤ destlen) :
    (huffman_decode octets 8 destlen).2 =
        (huffman_decode (octets.take number) 8 (8 * number / 5 + 1)).2 ↔
      ContinuedByOnes (octets.take number) (octets.drop number) := by
  have hcoded : (octets.take number).length = number := by
    rw [List.length_take]
    omega
  have halone := @huffman_decode_stops (octets.take number) (8 * number / 5 + 1) (by rw [hcoded])
  have hboth := huffman_decode_stops hroom
  rw [← stopsBehind_append_iff, List.take_append_drop]
  constructor
  · intro heq
    exact ⟨_, halone.1, heq ▸ hboth.1⟩
  · rintro ⟨text, htext, htext'⟩
    rw [hboth.1.unique htext', halone.1.unique htext]

/-- With a destination of its own, a string is decoded as in one of that size. -/
theorem string_decode_of_alloc {malloc : Nat → Bool} {buf : Bytes} {result : Int} {destlen : Nat}
    {stored : Bytes} (hbuf : buf.length * 8 < UINTMAX_MOD)
    (h : string_decode_alloc malloc buf = (result, some destlen, stored)) :
    string_decode buf destlen = (result, stored) := by
  cases buf with
  | nil => cases h
  | cons octet rest =>
      rcases hnumber : decode_number (octet :: rest) 7 with ⟨len, number⟩
      rw [string_decode_cons hnumber, List.length_drop]
      rw [string_decode_alloc, string_decode_common, hnumber] at h
      by_cases hlen : len < 1
      · simp [hlen] at h
      · by_cases hshort : (octet :: rest).length - len.toNat < number
        · simp only [if_neg hlen, if_pos hshort] at h
          cases h
        · -- room enough for the string, coded or not
          have hsize : number ≤ number * 8 % UINTMAX_MOD / 5 + 1 := by
            rw [Nat.mod_eq_of_lt (by omega)]
            omega
          by_cases hhuff : octet &&& 0x80#8 ≠ 0#8 <;>
            simp only [hlen, hshort, hhuff, Option.getD_none, ne_eq, not_true_eq_false, false_and,
              true_and, if_false, if_true, not_false_eq_true] at h ⊢ <;>
            split at h <;> simp at h <;> obtain ⟨rfl, rfl, rfl⟩ := h <;> simp [not_lt.mpr hsize]

/-- `string_decode` and `decode_string_from_rbuf` agree exactly on raw strings, on coded
strings whose end need not be known, and where both fail; `string_decode_alloc` does what
`string_decode` does with a destination of the size it allocates. A buffer in memory has less
than 2^61 octets. -/
theorem stringsAgree_iff {buf : Bytes} {destlen : Nat} (hbuf : buf.length * 8 < UINTMAX_MOD)
    (hdest : 8 * buf.length / 5 + 1 ≤ destlen) :
    (StringsAgree buf destlen ↔ EndsByItself buf) ∧
      ∀ malloc result size stored, string_decode_alloc malloc buf = (result, some size, stored) →
        string_decode buf size = (result, stored) := by
  refine ⟨?_, fun malloc result size stored => string_decode_of_alloc hbuf⟩
  cases buf with
  | nil =>
      refine iff_of_true (show (-1 : Int) < 0 by omega) ?_
      rintro number octets - ⟨len, hlen, hnumber, -⟩
      cases hnumber
      simp [PROTOCOL_ERROR] at hlen
  | cons octet rest =>
      rcases hnumber : decode_number (octet :: rest) 7 with ⟨len, number⟩
      have hdecode := string_decode_cons hnumber destlen
      have hdecoded := decodedString_cons hnumber hbuf
      generalize hoctets : (octet :: rest).drop len.toNat = octets at hdecode hdecoded
      have hlength : octets.length ≤ (octet :: rest).length := by
        rw [← hoctets, List.length_drop]
        omega
      -- the number that is read is this one
      have hat : ∀ {number' octets'}, NumberAt (octet :: rest) 7 number' octets' →
          1 ≤ len ∧ number' = number ∧ octets' = octets := by
        rintro number' octets' ⟨len', hlen', hnumber', rfl⟩
        rw [hnumber] at hnumber'
        cases hnumber'
        exact ⟨hlen', rfl, hoctets⟩
      unfold StringsAgree EndsByItself
      rw [hdecode, hdecoded]
      by_cases hfails : len < 1 ∨ octets.length < number
      · rw [if_pos hfails, if_pos (by tauto)]
        refine iff_of_true (show (-1 : Int) < 0 by omega) ?_
        rintro number' octets' - hnumber' hle
        obtain ⟨hlen, rfl, rfl⟩ := hat hnumber'
        omega
      · have hroom : ¬ (len < 1 ∨ octets.length < number ∨ destlen < number) := by omega
        rw [if_neg hfails, if_neg hroom]
        by_cases hhuff : octet &&& 0x80#8 ≠ 0#8
        · rw [if_pos hhuff, if_pos hhuff]
          have hnonneg : 0 ≤ (huffman_decode octets 8 destlen).1 :=
            (huffman_decode_size (by omega)).1
          show 0 ≤ (huffman_decode octets 8 destlen).1 ∧ (huffman_decode octets 8 destlen).2 =
            (huffman_decode (octets.take number) 8 (8 * number / 5 + 1)).2 ↔ _
          rw [huffman_decode_agree_iff (by omega) (by omega), and_iff_right hnonneg]
          constructor
          · rintro hones number' octets' - hnumber' -
            obtain ⟨-, rfl, rfl⟩ := hat hnumber'
            exact hones
          · intro hends
            exact hends number octets hhuff ⟨len, by omega, hnumber, hoctets.symm⟩ (by omega)
        · rw [if_neg hhuff, if_neg hhuff]
          refine iff_of_true ⟨by dsimp only; omega, rfl⟩ fun _ _ hcoded => absurd hcoded hhuff

/-- The text `a`, and nothing behind it. -/
theorem stringsAgree_alone : StringsAgree [0x81#8, 0x1f#8] 4 := by
  refine (stringsAgree_iff (by simp [UINTMAX_MOD]) (by simp)).1.mpr (endsByItself_last ?_)
  rintro number octets ⟨len, -, hnumber, rfl⟩
  have hone : decode_number [0x81#8, 0x1f#8] 7 = (1, 1) := by decide
  cases hone.symm.trans hnumber
  rfl

/-- The text `a` in front of an indexed field: `string_decode` decodes the field too. -/
theorem string_decode_overreads :
    ¬ ∀ buf destlen, buf.length * 8 < UINTMAX_MOD → 8 * buf.length / 5 + 1 ≤ destlen →
      StringsAgree buf destlen := by
  intro h
  have hagree := h [0x81#8, 0x1f#8, 0x82#8] 5 (by simp [UINTMAX_MOD]) (by simp)
  have halone : decodedString [0x81#8, 0x1f#8, 0x82#8] = some [0x61#8] := by decide
  have hboth : (string_decode [0x81#8, 0x1f#8, 0x82#8] 5).2 ≠ [0x61#8] := by decide
  rw [StringsAgree, halone] at hagree
  exact hboth hagree.2

end Shitty.Hpack
