import Shitty.Hpack.Theorems.Strings

/-!
# The size of encoded strings

`huffman_encode` only makes sure that the code words fit behind one octet; a longer
length in front of them pushes them on, over the end of the buffer when it is as short
as that of `hpack_encode_string` can be. Everything that is stored is followed through
the encoder, so that it is known exactly which strings have octets stored behind the
end, and for which buffers.
-/

namespace Shitty.Hpack

/-! ## Stores inside a buffer -/

/-- Nothing has been stored other than in the `buflen` octets from `buf[base]` on. -/
def StoredInside (buf : Mem) (base buflen : Nat) (m : Mem) : Prop :=
  ∀ i, i < base ∨ base + buflen ≤ i → m i = buf i

/-- The memory outside of the buffer is what it was, when a function returns and when it returns
-1. -/
def ReturnsInside (buf : Mem) (base buflen : Nat) {α : Type} (mem : α → Mem) :
    Except Mem α → Prop
  | .error m => StoredInside buf base buflen m
  | .ok a => StoredInside buf base buflen (mem a)

section

variable {buf : Mem} {base buflen : Nat}

theorem StoredInside.store {m : Mem} (h : StoredInside buf base buflen m) {outi : Nat}
    (hroom : ¬ buflen ≤ outi) (b : Octet) : StoredInside buf base buflen (m.store (base + outi) b) := by
  intro i hi
  rw [Mem.store, if_neg (by omega)]
  exact h i hi

theorem ReturnsInside.bind {α β : Type} {mem : α → Mem} {mem' : β → Mem} {x : Except Mem α}
    {f : α → Except Mem β} (hx : ReturnsInside buf base buflen mem x)
    (hf : ∀ a, StoredInside buf base buflen (mem a) → ReturnsInside buf base buflen mem' (f a)) :
    ReturnsInside buf base buflen mem' (x >>= f) := by
  cases x with
  | error m => exact hx
  | ok a => exact hf a hx

theorem fill_partial_octet_inside {st : EncodeState} (h : StoredInside buf base buflen st.buf)
    (huffcode bits : Nat) :
    ReturnsInside buf base buflen (fun r => r.2.2.buf)
      (fill_partial_octet huffcode bits st base buflen) := by
  unfold fill_partial_octet
  split
  · exact h
  · split
    · dsimp only
      split
      · exact h
      · rename_i hroom
        exact h.store hroom _
    · exact h

theorem write_full_inside (huffcode bits : Nat) {st : EncodeState}
    (h : StoredInside buf base buflen st.buf) :
    ReturnsInside buf base buflen (fun r => r.2.buf) (write_full huffcode bits st base buflen) := by
  induction bits using Nat.strong_induction_on generalizing st with
  | _ bits ih =>
      by_cases hbits : 8 < bits
      · obtain ⟨k, rfl⟩ : ∃ k, bits = k + 9 := ⟨bits - 9, by omega⟩
        rw [write_full]
        split
        · exact h
        · rename_i hroom
          exact ih (k + 1) (by omega) (h.store hroom _)
      · rw [write_full]
        · exact h
        · rintro k rfl
          omega

theorem encode_symbol_inside (c : Octet) {st : EncodeState}
    (h : StoredInside buf base buflen st.buf) :
    ReturnsInside buf base buflen EncodeState.buf (encode_symbol c st base buflen) := by
  refine (fill_partial_octet_inside h _ _).bind fun filled hfilled => ?_
  refine (write_full_inside _ _ hfilled).bind fun written hwritten => ?_
  dsimp only
  split
  · exact hwritten
  · exact hwritten

theorem encode_loop_inside (input : Bytes) {st : EncodeState}
    (h : StoredInside buf base buflen st.buf) :
    ReturnsInside buf base buflen EncodeState.buf (encode_loop input st base buflen) := by
  induction input generalizing st with
  | nil => exact h
  | cons c input ih => exact (encode_symbol_inside c h).bind fun st hst => ih hst

theorem flush_partial_octet_inside {st : EncodeState} (h : StoredInside buf base buflen st.buf) :
    ReturnsInside buf base buflen EncodeState.buf (flush_partial_octet st base buflen) := by
  unfold flush_partial_octet
  split
  · split
    · exact h
    · rename_i hroom
      exact h.store hroom _
  · exact h

/-- `encode` stores inside its buffer, and fails with -1. -/
theorem encode_inside (input : Bytes) (base buflen : Nat) (buf : Mem) :
    StoredInside buf base buflen (encode input base buf buflen).2 ∧
      ((encode input base buf buflen).1 < 0 → (encode input base buf buflen).1 = -1) := by
  have hloop : ReturnsInside buf base buflen EncodeState.buf (encode_loop input
      { existing_bits := 0, partial_octet := 0, outi := 0, buf := buf } base buflen) :=
    encode_loop_inside input fun i _ => rfl
  unfold encode
  dsimp only
  cases hl : encode_loop input { existing_bits := 0, partial_octet := 0, outi := 0, buf := buf }
      base buflen with
  | error m =>
      rw [hl] at hloop
      exact ⟨hloop, fun _ => rfl⟩
  | ok st =>
      rw [hl] at hloop
      have hflush := flush_partial_octet_inside hloop
      dsimp only
      cases hf : flush_partial_octet st base buflen with
      | error m =>
          rw [hf] at hflush
          exact ⟨hflush, fun _ => rfl⟩
      | ok st' =>
          rw [hf] at hflush
          dsimp only
          split
          · exact ⟨hflush, fun _ => rfl⟩
          · refine ⟨hflush, fun hneg => ?_⟩
            dsimp only at hneg
            omega

end

/-- A negative result of `encode_number` is -1: there is no other failure. -/
theorem encode_number_neg (number prefix_bits : Nat) (buf : Mem) (buflen : Nat)
    (h : (encode_number number prefix_bits buf buflen).1 < 0) :
    (encode_number number prefix_bits buf buflen).1 = -1 := by
  have hloop : ∀ number octet buf, (encode_number_loop number octet buf buflen).1 < 0 →
      (encode_number_loop number octet buf buflen).1 = -1 := by
    intro number octet buf
    fun_induction encode_number_loop number octet buf buflen with
    | case1 => exact fun _ => rfl
    | case2 number octet buf hmore next hroom ih => exact ih
    | case3 => exact fun _ => rfl
    | case4 number octet buf hlast next hroom =>
        intro hneg
        simp only [next] at hneg
        omega
  unfold encode_number at h ⊢
  split
  · rfl
  · rename_i hargs
    rw [if_neg hargs] at h
    dsimp only at h ⊢
    split
    · rename_i hshort
      rw [if_pos hshort] at h
      dsimp only at h
      omega
    · rename_i hlong
      rw [if_neg hlong] at h
      exact hloop _ _ _ h

/-! ## `huffman_encode` -/

/-- Whatever was in memory before, nothing is stored behind the end of the buffer, and
either the literal is in front of it, or the result is -1. -/
def RespectsBuffer (s : Bytes) (buflen : Nat) : Prop :=
  ∀ (encoded_number buf : Mem) (r : Int) (buf' : Mem),
    huffman_encode s encoded_number buf buflen = (r, buf') →
      (∀ i, buflen ≤ i → buf' i = buf i) ∧
        ((∃ k : Nat, r = k ∧ k ≤ buflen ∧
          ∃ body, HuffmanBody s body ∧ buf'.read 0 k = huffmanOctets body) ∨ r = -1)

/-- The code words fit behind one octet, but not behind their length. -/
def Oversteps (s : Bytes) (buflen : Nat) : Prop :=
  huffmanLength s + 1 ≤ buflen ∧ buflen < codedLength s ∧ (codedLength s : Int) ≤ SSIZE_MAX

/-- Stores are in front of the end of the buffer, or of what is returned. -/
theorem huffman_encode_inside {s : Bytes} {encoded_number buf : Mem} {buflen : Nat} {r : Int}
    {buf' : Mem} (h : huffman_encode s encoded_number buf buflen = (r, buf')) :
    (∀ i, buflen ≤ i → r ≤ i → buf' i = buf i) ∧ (r < 0 → r = -1) := by
  unfold huffman_encode at h
  split at h
  · cases h
    exact ⟨fun _ _ _ => rfl, fun _ => rfl⟩
  · rename_i hbuflen
    obtain ⟨hinside, hneg⟩ := encode_inside s 1 (buflen - 1) buf
    generalize encode s 1 buf (buflen - 1) = coded at h hinside hneg
    obtain ⟨len, buf₁⟩ := coded
    have hbefore : ∀ i, buflen ≤ i → buf₁ i = buf i := fun i hi => hinside i (by omega)
    dsimp only at h hneg
    split at h
    · cases h
      exact ⟨fun i hi _ => hbefore i hi, hneg⟩
    · rename_i hlen
      have hnumber := encode_number_neg len.toNat 7 encoded_number 10
      generalize encode_number len.toNat 7 encoded_number 10 = number at h hnumber
      obtain ⟨nlen, number⟩ := number
      dsimp only at h hnumber
      split at h
      · cases h
        exact ⟨fun i hi _ => hbefore i hi, hnumber⟩
      · split at h
        · cases h
          exact ⟨fun i hi _ => hbefore i hi, fun _ => rfl⟩
        · cases h
          refine ⟨fun i hi hr => ?_, fun hr => by omega⟩
          rw [Mem.store, if_neg (by omega), Mem.write_after _ _ (by rw [Mem.length_read]; omega)]
          split
          · rw [Mem.write_after _ _ (by rw [Mem.length_read]; omega)]
            exact hbefore i hi
          · exact hbefore i hi

/-- `huffman_encode` succeeds exactly when the code words fit behind one octet. -/
theorem nonneg_iff_fits {s : Bytes} {encoded_number buf : Mem} {buflen : Nat} {r : Int}
    {buf' : Mem} (h : huffman_encode s encoded_number buf buflen = (r, buf')) :
    0 ≤ r ↔ huffmanLength s + 1 ≤ buflen ∧ (codedLength s : Int) ≤ SSIZE_MAX := by
  have hsum : (codedLength s : Int) = numberLength 7 (huffmanLength s) + huffmanLength s := by
    rw [codedLength]
    push_cast
    rfl
  rcases Nat.eq_zero_or_pos buflen with rfl | hpos
  · rw [huffman_encode, if_pos Nat.one_pos] at h
    cases h
    omega
  · have hiff : 0 ≤ (huffman_encode s encoded_number buf buflen).1 ↔ _ :=
      huffman_encode_nonneg_iff hpos
    rw [h] at hiff
    rw [hiff]
    omega

theorem HuffmanBody.length_huffmanOctets {s body : Bytes} (h : HuffmanBody s body) :
    (huffmanOctets body).length = codedLength s := by
  rw [huffmanOctets, List.length_append, length_numberOctets_eq, h.length_eq, codedLength]

/-- The buffer is respected unless the code words fit behind one octet, but not behind
their length. -/
theorem respectsBuffer_iff (s : Bytes) (buflen : Nat) :
    RespectsBuffer s buflen ↔ ¬ Oversteps s buflen := by
  constructor
  · rintro hright ⟨hroom, hover, hsize⟩
    rcases henc : huffman_encode s (fun _ => 0) (fun _ => 0) buflen with ⟨r, buf'⟩
    have hr : 0 ≤ r := (nonneg_iff_fits henc).mpr ⟨hroom, hsize⟩
    obtain ⟨body, hbody, -, rfl, -⟩ := huffman_encode_ok henc hr
    rcases (hright _ _ _ _ henc).2 with ⟨k, hk, hle, -⟩ | hneg
    · rw [hbody.length_huffmanOctets] at hk
      omega
    · omega
  · intro hfits encoded_number buf r buf' henc
    obtain ⟨hinside, hneg⟩ := huffman_encode_inside henc
    by_cases hr : 0 ≤ r
    · obtain ⟨hroom, hsize⟩ := (nonneg_iff_fits henc).mp hr
      obtain ⟨body, hbody, -, rfl, hread⟩ := huffman_encode_ok henc hr
      have hle : codedLength s ≤ buflen := by
        by_contra hover
        exact hfits ⟨hroom, by omega, hsize⟩
      rw [hbody.length_huffmanOctets] at hinside hread ⊢
      exact ⟨fun i hi => hinside i hi (by omega),
        .inl ⟨_, rfl, hle, body, hbody, by rwa [Int.toNat_natCast] at hread⟩⟩
    · exact ⟨fun i hi => hinside i hi (by omega), .inr (hneg (by omega))⟩

/-! ## `hpack_encode_string` -/

/-- The literal is the shorter of the two. -/
def PicksShorter (raws_length_prefix₀ encoded_number : Mem) (s : Bytes) : Prop :=
  ∃ encoded, hpack_encode_string raws_length_prefix₀ encoded_number s = .ok encoded ∧
    encoded.length = min (rawLength s) (codedLength s)

/-- When the literal overruns the scratch buffer, there is none. -/
theorem Overruns.not_picksShorter {s : Bytes} (h : s.length < 2 ^ 31) (hover : Overruns s)
    (raws_length_prefix₀ encoded_number : Mem) :
    ¬ PicksShorter raws_length_prefix₀ encoded_number s := by
  have hten := numberLength_le_of_lt (n := s.length) (by omega)
  obtain ⟨-, hlong⟩ := id hover
  unfold PicksShorter
  have hencodes := hpack_encode_string_encodes raws_length_prefix₀ encoded_number s
  generalize hpack_encode_string raws_length_prefix₀ encoded_number s = r at hencodes ⊢
  cases hencodes with
  | coded takes body coding =>
      unfold TakesCoded rawLength at takes
      omega
  | raw takes => exact absurd hover takes.2.2
  | fails not_coded not_raw e =>
      rintro ⟨encoded, hok, -⟩
      cases hok

/-- `hpack_encode_string` picks the shorter of the two literals unless it overruns its
scratch buffer. -/
theorem picksShorter_iff {s : Bytes} (h : s.length < 2 ^ 31)
    (raws_length_prefix₀ encoded_number : Mem) :
    PicksShorter raws_length_prefix₀ encoded_number s ↔ ¬ Overruns s := by
  constructor
  · exact fun hpicks hover => hover.not_picksShorter h _ _ hpicks
  · intro hfits
    have hten := numberLength_le_of_lt (n := s.length) (by omega)
    have hraw : rawLength s = numberLength 7 s.length + s.length := rfl
    have hsmall : rawLength s < UINT_MOD := by
      rw [UINT_MOD]
      omega
    unfold PicksShorter
    have hencodes := hpack_encode_string_encodes raws_length_prefix₀ encoded_number s
    generalize hpack_encode_string raws_length_prefix₀ encoded_number s = r at hencodes ⊢
    cases hencodes with
    | coded takes body coding =>
        have hle : codedLength s ≤ rawLength s := by
          rcases takes with ⟨-, hle⟩ | ⟨hle, -⟩ <;> omega
        exact ⟨_, rfl, by rw [coding.length_huffmanOctets, Nat.min_eq_right hle]⟩
    | raw takes =>
        have hless := takes.2.1
        refine ⟨_, rfl, ?_⟩
        rw [List.length_append, length_numberOctets_eq, Nat.min_eq_left (Nat.le_of_lt hless), hraw]
    | fails not_coded not_raw e =>
        by_cases hless : rawLength s < codedLength s
        · exact absurd ⟨hsmall, hless, hfits⟩ not_raw
        · exact absurd (.inl ⟨hsmall, by omega⟩) not_coded

/-- A name that is coded in fewer octets. -/
theorem picksShorter_host :
    PicksShorter (fun _ => 0) (fun _ => 0) (octets "www.example.com") := by
  refine (picksShorter_iff (by decide) _ _).mpr ?_
  rintro ⟨-, hover⟩
  revert hover
  decide +kernel

/-! ## Strings that step over the end -/

theorem length_encode_replicate (n : Nat) (c : Octet) :
    (huffmanCode.encode (List.replicate n c)).length = n * (encvOf c).bits := by
  induction n with
  | zero => simp
  | succ n ih =>
      rw [List.replicate_succ, Lib.PrefixCode.encode_cons, List.length_append, ih]
      change (huffmanWord c).length + _ = _
      rw [length_huffmanWord]
      ring

/-- 36 times `!`, of ten bits, and `n` times `X`, of eight. -/
def longString (n : Nat) : Bytes := List.replicate 36 0x21#8 ++ List.replicate n 0x58#8

theorem length_longString (n : Nat) : (longString n).length = 36 + n := by
  rw [longString, List.length_append, List.length_replicate, List.length_replicate]

theorem huffmanLength_longString (n : Nat) : huffmanLength (longString n) = 45 + n := by
  have hbang : (encvOf 0x21#8).bits = 10 := by decide
  have hx : (encvOf 0x58#8).bits = 8 := by decide
  rw [huffmanLength, longString, Lib.PrefixCode.encode_append, List.length_append,
    length_encode_replicate, length_encode_replicate, hbang, hx]
  omega

/-- 127 octets take a length of two octets. -/
theorem codedLength_longString_82 : codedLength (longString 82) = 129 := by
  rw [codedLength, huffmanLength_longString]
  norm_num [numberLength]

/-- 255 octets take a length of three octets. -/
theorem codedLength_longString_210 : codedLength (longString 210) = 258 := by
  rw [codedLength, huffmanLength_longString]
  norm_num [numberLength]

theorem buffer_overstepped : ¬ ∀ s buflen, RespectsBuffer s buflen := by
  intro h
  rcases henc : huffman_encode (longString 82) (fun _ => 0) (fun _ => 0) 128 with ⟨r, buf'⟩
  have hsize := codedLength_longString_82
  have hr : 0 ≤ r :=
    (nonneg_iff_fits henc).mpr ⟨by rw [huffmanLength_longString], by rw [hsize, SSIZE_MAX]; omega⟩
  obtain ⟨body, hbody, -, rfl, -⟩ := huffman_encode_ok henc hr
  rcases (h _ _ _ _ _ _ henc).2 with ⟨k, hk, hle, -⟩ | hneg
  · rw [hbody.length_huffmanOctets] at hk
    omega
  · omega

/-- The raw literal of these 246 octets, of 248, would be the shorter one. -/
theorem scratch_overrun :
    ¬ ∀ (s : Bytes) (raws_length_prefix₀ encoded_number : Mem), s.length < 2 ^ 31 →
      PicksShorter raws_length_prefix₀ encoded_number s := by
  intro h
  have hlength := length_longString 210
  have hshort : (longString 210).length < 2 ^ 31 := by
    rw [hlength]
    omega
  have hover : Overruns (longString 210) := by
    rw [Overruns, huffmanLength_longString, codedLength_longString_210, hlength]
    omega
  exact hover.not_picksShorter hshort _ _ (h (longString 210) (fun _ => 0) (fun _ => 0) hshort)

end Shitty.Hpack
