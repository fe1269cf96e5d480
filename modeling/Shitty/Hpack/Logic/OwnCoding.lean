import Shitty.Hpack.BitBuf
import Shitty.Hpack.Logic.HuffmanCode

/-!
# Strings that show their own code words

No string that is longer when Huffman-coded begins with its own code words. Such a
string would begin with 0xff, and in its bits every symbol from 0x80 up makes an octet
0xff, while every 0xff makes two octets from 0x80 up.
-/

namespace Shitty.Hpack

open Lib Lib.Bits Lib.PrefixCode

/-! ## The code words of high octets -/

/-- What is checked for the entry of an octet: from 0x80 up, the code word has nineteen bits
at least and begins with fifteen ones, and only that of 0xff begins with its octet. -/
def ownOk (e : Encv) (octet : Nat) : Bool :=
  let word := Bits.ofNat e.bits e.value
  (decide (octet < 0x80) || decide (19 ≤ e.bits) && word.take 15 == List.replicate 15 true) &&
    (!(word.take 8).isPrefixOf (Bits.ofNat 8 octet) || octet == 0xff)

/-- The check of the table, and the code word of 0xff itself. -/
theorem etable_own : etable.zipIdx.all (fun p => ownOk p.1 p.2) = true ∧
    huffmanWord 0xff#8 =
      List.replicate 21 true ++ [false] ++ List.replicate 3 true ++ [false] := by
  constructor <;> decide +kernel

theorem huffmanWord_high {c : Octet} (hc : 0x80 ≤ c.toNat) :
    19 ≤ (huffmanWord c).length ∧ (huffmanWord c).take 15 = List.replicate 15 true := by
  have hown := encvOf_all etable_own.1 c
  simp only [ownOk, Bool.and_eq_true, Bool.or_eq_true, decide_eq_true_eq, beq_iff_eq] at hown
  rw [length_huffmanWord]
  exact hown.1.resolve_left (Nat.not_lt_of_le hc)

/-- Only 0xff can begin with its own code word. -/
theorem own_first {c : Octet} (hc : (huffmanWord c).take 8 <+: ofOctet c) : c = 0xff#8 := by
  have hown := encvOf_all etable_own.1 c
  simp only [ownOk, Bool.and_eq_true, Bool.or_eq_true, Bool.not_eq_true', beq_iff_eq] at hown
  refine BitVec.eq_of_toNat_eq (hown.2.resolve_left fun hnot => ?_)
  rw [← Bool.not_eq_true, List.isPrefixOf_iff_prefix] at hnot
  exact hnot hc

theorem ofOctet_full {c : Octet} (h : ofOctet c = List.replicate 8 true) : c = 0xff#8 := by
  rw [replicate_eq_ofNat, ofOctet] at h
  exact BitVec.eq_of_toNat_eq (ofNat_inj c.isLt (by omega) h)

theorem ofOctet_high {c : Octet} (h : (ofOctet c).head? = some true) : 0x80 ≤ c.toNat :=
  Nat.ge_two_pow_of_testBit (Option.some.inj h)

/-! ## The bits of a string -/

variable {s : Bytes}

/-- The octet at an index, as the eight bits that stand there in the bits of the string. -/
theorem slice_octet {p : Nat} (hp : p < s.length) :
    slice (inputBits s) (8 * p) 8 = ofOctet s[p] := by
  have hsplit : s = s.take p ++ [s[p]] ++ s.drop (p + 1) := by
    rw [List.append_assoc, List.singleton_append, ← List.drop_eq_getElem_cons hp,
      List.take_append_drop]
  have hlen : (ofOctets (s.take p)).length = 8 * p := by
    rw [length_ofOctets, List.length_take, Nat.min_eq_left (Nat.le_of_lt hp)]
  have hbits : ofOctets s = ofOctets (s.take p) ++ ofOctet s[p] ++ ofOctets (s.drop (p + 1)) := by
    conv_lhs => rw [hsplit]
    rw [ofOctets_append, ofOctets_append, ofOctets_cons, ofOctets_nil, List.append_nil]
  have hslice := slice_extend_inside (ofOctets (s.take p)) (ofOctet s[p])
    (ofOctets (s.drop (p + 1)))
  rw [← hbits, hlen, length_ofOctet] at hslice
  exact hslice

theorem octet_full {p : Nat} (hp : p < s.length)
    (h : ∀ i < 8, inputBits s (8 * p + i) = true) : s[p] = 0xff#8 := by
  apply ofOctet_full
  rw [← slice_octet hp]
  apply List.ext_getElem
  · simp
  · intro i h1 h2
    rw [getElem_slice, List.getElem_replicate]
    exact h i (by simpa using h1)

theorem octet_high {p : Nat} (hp : p < s.length) (h : inputBits s (8 * p) = true) :
    0x80 ≤ s[p].toNat := by
  apply ofOctet_high
  rw [← slice_octet hp]
  exact congrArg some h

/-- Behind its end a string shows ones only. -/
theorem inputBits_false {i : Nat} (h : inputBits s i = false) : i < 8 * s.length := by
  by_contra hge
  rw [inputBits, extend_of_le (by rw [length_ofOctets]; omega)] at h
  cases h

/-! ## Code words shown in a string -/

theorem shows_high {o : Nat} {c : Octet} (hc : 0x80 ≤ c.toNat)
    (h : huffmanCode.ShowsAt (inputBits s) o c) : ∀ i < 15, inputBits s (o + i) = true := by
  obtain ⟨hlen, hones⟩ := huffmanWord_high hc
  have hshow : slice (inputBits s) o (huffmanWord c).length = huffmanWord c := h
  have hslice : slice (inputBits s) o 15 = List.replicate 15 true := by
    rw [← hones, ← hshow, take_slice _ _ (by omega)]
  intro i hi
  have hget := (slice_eq_iff (inputBits s) o (List.replicate 15 true)).mp hslice i (by simpa using hi)
  rw [hget, List.getElem_replicate]

theorem shows_ff {o : Nat} (h : huffmanCode.ShowsAt (inputBits s) o 0xff#8) :
    (∀ i < 21, inputBits s (o + i) = true) ∧ inputBits s (o + 25) = false := by
  have hshow : slice (inputBits s) o (huffmanWord 0xff#8).length = huffmanWord 0xff#8 := h
  rw [etable_own.2] at hshow
  have hget := (slice_eq_iff (inputBits s) o _).mp hshow
  have hbits : ∀ i : Fin 21, (List.replicate 21 true ++ [false] ++ List.replicate 3 true ++
      [false])[i.val]? = some true := by decide
  constructor
  · intro i hi
    have hbit := hbits ⟨i, hi⟩
    rw [hget i (by simp; omega)]
    exact Option.some.inj ((List.getElem?_eq_getElem _).symm.trans hbit)
  · exact hget 25 (by simp)

/-! ## Counting -/

/-- Where the code word of a symbol begins. -/
def offset (s : Bytes) (j : Nat) : Nat := (huffmanCode.encode (s.take j)).length

theorem offset_succ {j : Nat} (hj : j < s.length) :
    offset s (j + 1) = offset s j + (huffmanWord s[j]).length := by
  unfold offset
  rw [List.take_succ_eq_append_getElem hj, encode_append, List.length_append]
  congr 1
  rw [encode_cons, encode_nil, List.append_nil]
  rfl

/-- How many of the first octets are high. -/
def highs (s : Bytes) (j : Nat) : Nat := (s.take j).countP fun c => decide (0x80 ≤ c.toNat)

/-- How many of the first octets are 0xff. -/
def fulls (s : Bytes) (j : Nat) : Nat := (s.take j).countP fun c => decide (c = 0xff#8)

theorem highs_mono {i j : Nat} (h : i ≤ j) : highs s i ≤ highs s j :=
  (List.take_sublist_take_left h).countP_le

theorem fulls_mono {i j : Nat} (h : i ≤ j) : fulls s i ≤ fulls s j :=
  (List.take_sublist_take_left h).countP_le

theorem highs_succ {j : Nat} (hj : j < s.length) :
    highs s (j + 1) = highs s j + if 0x80 ≤ s[j].toNat then 1 else 0 := by
  rw [highs, List.take_succ_eq_append_getElem hj, List.countP_append, List.countP_singleton]
  simp [highs]

theorem fulls_succ {j : Nat} (hj : j < s.length) :
    fulls s (j + 1) = fulls s j + if s[j] = 0xff#8 then 1 else 0 := by
  rw [fulls, List.take_succ_eq_append_getElem hj, List.countP_append, List.countP_singleton]
  simp [fulls]

section

variable (hshows : huffmanCode.Shows (inputBits s) (8 * s.length) 0 s)

include hshows

theorem shown {j : Nat} (hj : j < s.length) :
    offset s j < 8 * s.length ∧ huffmanCode.ShowsAt (inputBits s) (offset s j) s[j] := by
  have h := hshows.at huffmanCode hj
  rwa [Nat.zero_add] at h

/-- The code word of a high octet holds an octet of ones. -/
theorem highs_le_fulls : ∀ {j : Nat}, j ≤ s.length → offset s j ≤ 8 * s.length →
    highs s j ≤ fulls s (offset s j / 8) := by
  intro j
  induction j with
  | zero => intro _ _; exact Nat.zero_le _
  | succ j ih =>
      intro hj hoffset
      have hnext := offset_succ (show j < s.length by omega)
      have hbefore := ih (by omega) (by omega)
      rw [highs_succ hj]
      by_cases hhigh : 0x80 ≤ s[j].toNat
      · rw [if_pos hhigh]
        obtain ⟨hlen, -⟩ := huffmanWord_high hhigh
        have hones := shows_high hhigh (shown hshows hj).2
        have hp : (offset s j + 7) / 8 < s.length := by omega
        have hfull : s[(offset s j + 7) / 8] = 0xff#8 := by
          refine octet_full hp fun i hi => ?_
          have := hones (8 * ((offset s j + 7) / 8) + i - offset s j) (by omega)
          rwa [Nat.add_sub_cancel' (by omega)] at this
        have hcount := fulls_succ hp
        rw [if_pos hfull] at hcount
        calc highs s j + 1 ≤ fulls s (offset s j / 8) + 1 := by omega
          _ ≤ fulls s ((offset s j + 7) / 8) + 1 := by
            have : fulls s (offset s j / 8) ≤ fulls s ((offset s j + 7) / 8) :=
              fulls_mono (by omega)
            omega
          _ = fulls s ((offset s j + 7) / 8 + 1) := hcount.symm
          _ ≤ fulls s (offset s (j + 1) / 8) := fulls_mono (by omega)
      · rw [if_neg hhigh, Nat.add_zero]
        exact hbefore.trans (fulls_mono (by omega))

/-- The code word of 0xff holds the first bits of two high octets. -/
theorem fulls_le_highs : ∀ {j : Nat}, j ≤ s.length → offset s j ≤ 8 * s.length →
    2 * fulls s j ≤ highs s (offset s j / 8) := by
  intro j
  induction j with
  | zero => intro _ _; exact Nat.zero_le _
  | succ j ih =>
      intro hj hoffset
      have hnext := offset_succ (show j < s.length by omega)
      have hbefore := ih (by omega) (by omega)
      rw [fulls_succ hj]
      by_cases hfull : s[j] = 0xff#8
      · rw [if_pos hfull]
        have hshow := (shown hshows hj).2
        rw [hfull] at hshow hnext
        -- the ones that the code word begins with include the first bits of two octets
        obtain ⟨hones, -⟩ := shows_ff hshow
        have hlen : (huffmanWord 0xff#8).length = 26 := by rw [etable_own.2]; rfl
        rw [hlen] at hnext
        have hp : (offset s j + 7) / 8 < s.length := by omega
        have hq : (offset s j + 7) / 8 + 1 < s.length := by omega
        have hfirst := octet_high hp <| by
          have := hones (8 * ((offset s j + 7) / 8) - offset s j) (by omega)
          rwa [Nat.add_sub_cancel' (by omega)] at this
        have hsecond := octet_high hq <| by
          have := hones (8 * ((offset s j + 7) / 8 + 1) - offset s j) (by omega)
          rwa [Nat.add_sub_cancel' (by omega)] at this
        have hcount := highs_succ hp
        have hcount' := highs_succ hq
        rw [if_pos hfirst] at hcount
        rw [if_pos hsecond] at hcount'
        calc 2 * (fulls s j + 1) ≤ highs s (offset s j / 8) + 2 := by omega
          _ ≤ highs s ((offset s j + 7) / 8) + 2 := by
            have : highs s (offset s j / 8) ≤ highs s ((offset s j + 7) / 8) :=
              highs_mono (by omega)
            omega
          _ = highs s ((offset s j + 7) / 8 + 1 + 1) := by omega
          _ ≤ highs s (offset s (j + 1) / 8) := highs_mono (by omega)
      · rw [if_neg hfull, Nat.add_zero]
        exact hbefore.trans (highs_mono (by omega))

/-- The first octet is 0xff, with its code word inside the string. -/
theorem first_full (hpos : 0 < s.length) : s[0] = 0xff#8 := by
  have hshow : slice (inputBits s) 0 (huffmanWord s[0]).length = huffmanWord s[0] :=
    (shown hshows hpos).2
  have hoctet := slice_octet hpos
  rw [Nat.mul_zero] at hoctet
  refine own_first ?_
  rw [← hoctet]
  rcases Nat.le_total 8 (huffmanWord s[0]).length with hlong | hshort
  · have htake : (huffmanWord s[0]).take 8 = slice (inputBits s) 0 8 := by
      rw [← hshow, take_slice _ _ hlong]
    exact htake ▸ List.prefix_rfl
  · rw [List.take_of_length_le hshort, ← hshow, ← take_slice _ _ hshort]
    exact List.take_prefix _ _

end

/-- No string that takes more room Huffman-coded shows its own code words. -/
theorem not_own_coding (hlong : 8 * s.length < (huffmanCode.encode s).length) :
    ¬ huffmanCode.Shows (inputBits s) (8 * s.length) 0 s := by
  intro hshows
  have hpos : 0 < s.length := by
    rw [List.length_pos_iff]
    rintro rfl
    simp at hlong
  have hlen : (huffmanWord 0xff#8).length = 26 := by rw [etable_own.2]; rfl
  have hzero : offset s 0 = 0 := rfl
  -- three octets 0xff among the first six
  have h0 := first_full hshows hpos
  have hshow0 := (shown hshows hpos).2
  rw [h0] at hshow0
  obtain ⟨hones0, hend0⟩ := shows_ff hshow0
  have hn4 := inputBits_false hend0
  have h1 : s[1] = 0xff#8 := octet_full (by omega) fun i hi => by
    have := hones0 (8 + i) (by omega)
    rwa [hzero, Nat.zero_add] at this
  have hoff1 := offset_succ hpos
  rw [h0, hlen, hzero] at hoff1
  have hshow1 := (shown hshows (show 1 < s.length by omega)).2
  rw [h1, hoff1] at hshow1
  obtain ⟨hones1, hend1⟩ := shows_ff hshow1
  have hn7 := inputBits_false hend1
  have h4 : s[4] = 0xff#8 := octet_full (by omega) fun i hi => by
    have := hones1 (6 + i) (by omega)
    rwa [show 0 + 26 + (6 + i) = 8 * 4 + i by omega] at this
  have hthree : 3 ≤ fulls s 5 := by
    have c0 : fulls s 1 = fulls s 0 + if s[0] = 0xff#8 then 1 else 0 := fulls_succ hpos
    have c1 : fulls s 2 = fulls s 1 + if s[1] = 0xff#8 then 1 else 0 := fulls_succ (by omega)
    have c2 : fulls s 2 ≤ fulls s 4 := fulls_mono (by omega)
    have c4 : fulls s 5 = fulls s 4 + if s[4] = 0xff#8 then 1 else 0 := fulls_succ (by omega)
    rw [if_pos h0] at c0
    rw [if_pos h1] at c1
    rw [if_pos h4] at c4
    omega
  -- only the last code word goes over the end
  obtain ⟨m, hm⟩ : ∃ m, s.length = m + 1 := ⟨s.length - 1, by omega⟩
  have hlast := (shown hshows (show m < s.length by omega)).1
  have hfulls := fulls_le_highs hshows (show m ≤ s.length by omega) (by omega)
  have hhighs := highs_le_fulls hshows (show m ≤ s.length by omega) (by omega)
  have hm5 : fulls s 5 ≤ fulls s m := fulls_mono (by omega)
  have hall : highs s (offset s m / 8) ≤ highs s (m + 1) := highs_mono (by omega)
  have hall' : fulls s (offset s m / 8) ≤ fulls s (m + 1) := fulls_mono (by omega)
  have hh := highs_succ (show m < s.length by omega)
  have hf := fulls_succ (show m < s.length by omega)
  split at hh <;> split at hf <;> omega

end Shitty.Hpack
