import Shitty.Hpack.Logic.Decoder
import Shitty.Hpack.Logic.Locality
import Shitty.Hpack.Theorems.Assertions

/-!
# The blocks that are decoded

When a turn of `parseHeaders` throws nothing, read off the octets in front of it and the
size of the table: its numbers end, its indices are those of entries, its strings are
not longer than what is left, and a size update is marked and evicts nothing.
-/

namespace Shitty.Hpack

/-! ## What is in front of a block -/

/-- A number, and what is behind it. -/
def NumberAt (buf : Bytes) (bits n : Nat) (behind : Bytes) : Prop :=
  ∃ len : Int, 1 ≤ len ∧ decode_number buf bits = (len, n) ∧ behind = buf.drop len.toNat

/-- A string literal that is not longer than the block. -/
def StringAt (buf behind : Bytes) : Prop :=
  ∃ n octets, NumberAt buf 7 n octets ∧ n ≤ octets.length ∧ behind = octets.drop n

/-- There is an entry of the index. -/
def InTable (table_ : DynamicTable) (index : Nat) : Prop :=
  index ≠ 0 ∧ (index < start_ ∨ index - start_ < table_.table_.length)

/-- A literal field can be read: its index is zero or that of an entry, and its strings are
there. -/
def LiteralAt (table_ : DynamicTable) (buf : Bytes) (bits : Nat) (behind : Bytes) : Prop :=
  ∃ n octets, NumberAt buf bits n octets ∧
    ((n ≠ 0 ∧ InTable table_ (n % UINT_MOD) ∧ StringAt octets behind) ∨
      (n = 0 ∧ ∃ value, StringAt octets value ∧ StringAt value behind))

/-- What has to stand in front of a turn for it to throw nothing, by the kind of field. -/
def Turn.Decodes (turn : Turn) : Prop :=
  if turn.octet &&& 0x80#8 ≠ 0#8 then
    ∃ n behind, NumberAt turn.buf 7 n behind ∧ InTable turn.table_ (n % UINT_MOD)
  else if turn.octet &&& 0x40#8 ≠ 0#8 then
    ∃ behind, LiteralAt turn.table_ turn.buf 6 behind
  else if turn.octet &&& 0x20#8 ≠ 0#8 then
    turn.Marked ∧ ∃ n behind, NumberAt turn.buf 5 n behind ∧
      (turn.table_.size_octets_ ≤ n % UINT_MOD ∨ Evictable (n % UINT_MOD) turn.table_.table_)
  else ∃ behind, LiteralAt turn.table_ turn.buf 4 behind

/-! ## Numbers and strings -/

theorem read_number_iff (what : String) {buf behind : Bytes} {bits n : Nat} :
    (∃ encoded, read_number buf bits what = .ok (n, encoded, behind)) ↔
      NumberAt buf bits n behind := by
  unfold read_number NumberAt
  rcases decode_number buf bits with ⟨len, number⟩
  simp only
  by_cases hlen : len < 1
  · rw [if_pos hlen]
    constructor
    · rintro ⟨encoded, h⟩
      cases h
    · rintro ⟨len', hlen', heq, -⟩
      cases heq
      omega
  · rw [if_neg hlen]
    constructor
    · rintro ⟨encoded, h⟩
      cases h
      exact ⟨len, by omega, rfl, rfl⟩
    · rintro ⟨len', -, heq, rfl⟩
      cases heq
      exact ⟨_, rfl⟩

/-- There is room enough for whatever is coded. -/
theorem huffman_decode_nonneg (buf : Bytes) (h : buf.length * 8 < UINTMAX_MOD) :
    0 ≤ (huffman_decode buf 8 (buf.length * 8 % UINTMAX_MOD / 5 + 1)).1 := by
  rw [Nat.mod_eq_of_lt h]
  obtain ⟨l, -, -, -, ⟨hlen, -⟩ | ⟨-, hfull, hleft⟩⟩ :=
    huffman_decode_run buf (buf.length * 8 / 5 + 1)
  · rw [hlen]
    exact Int.natCast_nonneg _
  · -- with that many symbols nothing would be left
    have hcode := length_encode_ge l
    have hnone : bitsLeft buf (huffmanCode.encode l).length = 0 := by
      unfold bitsLeft
      omega
    refine absurd ⟨by omega, fun i hi => ?_⟩ hleft
    omega

theorem decode_string_iff {buf behind : Bytes} (hbuf : buf.length * 8 < UINTMAX_MOD) :
    (∃ s, decode_string_from_rbuf buf = .ok (s, behind)) ↔ StringAt buf behind := by
  -- either way a length is read, and then as many octets
  have hraw : (∃ s, decode_raw_string_from_rbuf buf = .ok (s, behind)) ↔ StringAt buf behind := by
    unfold decode_raw_string_from_rbuf StringAt
    simp only [← read_number_iff "String length decode failure"]
    constructor
    · rintro ⟨s, h⟩
      obtain ⟨⟨slen, encoded, octets⟩, hnumber, h⟩ := bind_eq_ok.mp h
      simp only at h
      split at h
      · cases h
      · cases h
        exact ⟨slen, octets, ⟨encoded, hnumber⟩, by omega, rfl⟩
    · rintro ⟨slen, octets, ⟨encoded, hnumber⟩, hle, rfl⟩
      rw [hnumber, ok_bind]
      simp only [if_neg (Nat.not_lt.mpr hle)]
      exact ⟨_, rfl⟩
  have hhuff : (∃ s, decode_huff_string_from_rbuf buf = .ok (s, behind)) ↔
      StringAt buf behind := by
    unfold decode_huff_string_from_rbuf StringAt
    simp only [← read_number_iff "Huffman-coded string length decode failure"]
    constructor
    · rintro ⟨s, h⟩
      obtain ⟨⟨coded_len, encoded, octets⟩, hnumber, h⟩ := bind_eq_ok.mp h
      simp only at h
      split at h
      · cases h
      · split at h
        · cases h
        · split at h
          · cases h
          · cases h
            exact ⟨coded_len, octets, ⟨encoded, hnumber⟩, by omega, rfl⟩
    · rintro ⟨coded_len, octets, ⟨encoded, hnumber⟩, hle, rfl⟩
      have hoctets : octets.length ≤ buf.length := by
        obtain ⟨-, rfl, -⟩ := read_number_local hnumber
        simp
      have hcoded : (octets.take coded_len).length = coded_len := by
        rw [List.length_take]
        omega
      have hnonneg := huffman_decode_nonneg (octets.take coded_len) (by omega)
      rw [hcoded] at hnonneg
      rw [hnumber, ok_bind]
      simp only [if_neg (Nat.not_lt.mpr hle), if_neg (not_not.mpr (huffman_decode_le _ _ _)),
        if_neg (not_lt.mpr hnonneg)]
      exact ⟨_, rfl⟩
  cases buf with
  | nil =>
      refine iff_of_false ?_ ?_
      · rintro ⟨s, h⟩
        cases h
      · rintro ⟨n, octets, ⟨len, hlen, heq, -⟩, -⟩
        cases heq
        simp [PROTOCOL_ERROR] at hlen
  | cons octet rest =>
      rw [decode_string_from_rbuf]
      split
      · exact hhuff
      · exact hraw

/-- What is read is not there any more. -/
theorem NumberAt.length_lt {buf behind : Bytes} {bits n : Nat} (h : NumberAt buf bits n behind) :
    behind.length < buf.length := by
  obtain ⟨encoded, hread⟩ := (read_number_iff "").mpr h
  obtain ⟨hne, rfl, -⟩ := read_number_local hread
  have := List.length_pos_iff.mpr hne
  rw [List.length_append]
  omega

theorem StringAt.length_lt {buf behind : Bytes} (h : StringAt buf behind) :
    behind.length < buf.length := by
  obtain ⟨n, octets, hnumber, -, rfl⟩ := h
  have := hnumber.length_lt
  rw [List.length_drop]
  omega

/-! ## Header fields -/

theorem get_iff {table_ : DynamicTable} {index : Nat} :
    (∃ h, HeaderTable.get table_ index = .ok h) ↔ InTable table_ index := by
  unfold HeaderTable.get StaticTable.get DynamicTable.get InTable
  have hlength : static_table.length = 62 := rfl
  have hstart : start_ = 62 := rfl
  by_cases hstatic : index < 62
  · rw [if_pos hstatic]
    by_cases hzero : index = 0
    · rw [if_pos (.inl hzero)]
      refine iff_of_false ?_ fun h => h.1 hzero
      rintro ⟨h, heq⟩
      cases heq
    · rw [if_neg (by omega)]
      exact iff_of_true ⟨_, rfl⟩ ⟨hzero, .inl hstatic⟩
  · rw [if_neg hstatic, hstart, if_neg hstatic]
    cases hentry : table_.table_[index - 62]? with
    | none =>
        rw [List.getElem?_eq_none_iff] at hentry
        refine iff_of_false ?_ ?_
        · rintro ⟨h, heq⟩
          cases heq
        · rintro ⟨-, h | h⟩
          · exact hstatic h
          · omega
    | some header =>
        obtain ⟨hlt, -⟩ := List.getElem?_eq_some_iff.mp hentry
        exact iff_of_true ⟨header, rfl⟩ ⟨by omega, .inr hlt⟩

theorem decode_literal_iff {table_ : DynamicTable} {buf behind : Bytes} {bits : Nat}
    (hbuf : buf.length * 8 < UINTMAX_MOD) :
    (∃ h, decode_literal table_ buf bits = .ok (h, behind)) ↔ LiteralAt table_ buf bits behind := by
  unfold decode_literal LiteralAt
  simp only [← read_number_iff "Failed to decode literal incremental header"]
  have hshort : ∀ {n encoded octets},
      read_number buf bits "Failed to decode literal incremental header" = .ok (n, encoded, octets) →
        octets.length * 8 < UINTMAX_MOD := by
    intro n encoded octets hnumber
    obtain ⟨-, rfl, -⟩ := read_number_local hnumber
    rw [List.length_append] at hbuf
    omega
  constructor
  · rintro ⟨h, hliteral⟩
    obtain ⟨⟨n, encoded, octets⟩, hnumber, hliteral⟩ := bind_eq_ok.mp hliteral
    have hoctets := hshort hnumber
    simp only at hliteral
    refine ⟨n, octets, ⟨encoded, hnumber⟩, ?_⟩
    split at hliteral
    · rename_i hn
      obtain ⟨entry, hentry, hliteral⟩ := bind_eq_ok.mp hliteral
      obtain ⟨⟨value, behind'⟩, hvalue, hliteral⟩ := bind_eq_ok.mp hliteral
      cases hliteral
      exact .inl ⟨hn, get_iff.mp ⟨entry, hentry⟩, (decode_string_iff hoctets).mp ⟨value, hvalue⟩⟩
    · rename_i hn
      obtain ⟨⟨name, middle⟩, hname, hliteral⟩ := bind_eq_ok.mp hliteral
      obtain ⟨⟨value, behind'⟩, hvalue, hliteral⟩ := bind_eq_ok.mp hliteral
      cases hliteral
      have hfirst := (decode_string_iff hoctets).mp ⟨name, hname⟩
      -- a name of its own
      have hmiddle := hfirst.length_lt
      exact .inr ⟨not_not.mp hn, middle, hfirst,
        (decode_string_iff (by omega)).mp ⟨value, hvalue⟩⟩
  · rintro ⟨n, octets, ⟨encoded, hnumber⟩, hrest⟩
    have hoctets := hshort hnumber
    rw [hnumber, ok_bind]
    rcases hrest with ⟨hn, hentry, hvalue⟩ | ⟨hn, middle, hname, hvalue⟩
    · obtain ⟨entry, hentry⟩ := get_iff.mpr hentry
      obtain ⟨value, hvalue⟩ := (decode_string_iff hoctets).mpr hvalue
      simp only [if_pos hn, decode_literal_indexed, hentry, hvalue, ok_bind]
      exact ⟨_, rfl⟩
    · have hmiddle := hname.length_lt
      obtain ⟨name, hname⟩ := (decode_string_iff hoctets).mpr hname
      obtain ⟨value, hvalue⟩ := (decode_string_iff (by omega)).mpr hvalue
      simp only [if_neg (not_not.mpr hn), hname, hvalue, ok_bind]
      exact ⟨_, rfl⟩

/-! ## Turns and blocks -/

/-- A computation that is followed by a pure one returns exactly when it does. -/
theorem bind_pure_iff {α β : Type} (x : Except Exn α) (f : α → β) :
    (∃ b, (x >>= fun a => pure (f a)) = .ok b) ↔ ∃ a, x = .ok a := by
  cases x with
  | error e => simp
  | ok a => exact iff_of_true ⟨f a, rfl⟩ ⟨a, rfl⟩

theorem Turn.returns_iff (turn : Turn) (hbuf : turn.buf.length * 8 < UINTMAX_MOD) :
    (∃ r, turn.outcome = .ok r) ↔ turn.Decodes := by
  obtain ⟨table_, octet, rest⟩ := turn
  -- a literal, whatever becomes of it
  have hliteral : ∀ bits, (∃ r, decode_literal table_ (octet :: rest) bits = .ok r) ↔
      ∃ behind, LiteralAt table_ (octet :: rest) bits behind := by
    intro bits
    constructor
    · rintro ⟨⟨h, behind⟩, heq⟩
      exact ⟨behind, (decode_literal_iff hbuf).mp ⟨h, heq⟩⟩
    · rintro ⟨behind, hat⟩
      obtain ⟨h, heq⟩ := (decode_literal_iff hbuf).mpr hat
      exact ⟨(h, behind), heq⟩
  unfold Turn.Decodes
  simp only [Turn.outcome, Turn.buf, parse_field]
  by_cases h80 : octet &&& 0x80#8 ≠ 0#8
  · simp only [if_pos h80]
    rw [bind_pure_iff]
    unfold decode_indexed
    simp only [← read_number_iff "Failed to decode indexed header", ← get_iff]
    constructor
    · rintro ⟨r, h⟩
      obtain ⟨⟨n, encoded, behind⟩, hnumber, h⟩ := bind_eq_ok.mp h
      obtain ⟨entry, hentry, -⟩ := bind_eq_ok.mp h
      exact ⟨n, behind, ⟨encoded, hnumber⟩, entry, hentry⟩
    · rintro ⟨n, behind, ⟨encoded, hnumber⟩, entry, hentry⟩
      simp only [hnumber, hentry, ok_bind]
      exact ⟨_, rfl⟩
  · by_cases h40 : octet &&& 0x40#8 ≠ 0#8
    · simp only [if_neg h80, if_pos h40]
      rw [bind_pure_iff, decode_literal_incremental, bind_pure_iff]
      exact hliteral 6
    · by_cases h20 : octet &&& 0x20#8 ≠ 0#8
      · simp only [if_neg h80, if_neg h40, if_pos h20]
        rw [bind_pure_iff]
        unfold dynamic_table_resize Turn.Marked
        simp only
        by_cases hmarked : octet &&& 0x02#8 = 0x02#8
        · rw [if_neg (not_not.mpr hmarked)]
          simp only [hmarked, true_and, ← DynamicTable.resize_returns_iff,
            ← read_number_iff "Error decoding buffer resize message"]
          constructor
          · rintro ⟨r, h⟩
            obtain ⟨⟨n, encoded, behind⟩, hnumber, h⟩ := bind_eq_ok.mp h
            obtain ⟨table', htable, -⟩ := bind_eq_ok.mp h
            exact ⟨n, behind, ⟨encoded, hnumber⟩, table', htable⟩
          · rintro ⟨n, behind, ⟨encoded, hnumber⟩, table', htable⟩
            simp only [hnumber, htable, ok_bind]
            exact ⟨_, rfl⟩
        · rw [if_pos hmarked]
          refine iff_of_false ?_ fun h => hmarked h.1
          rintro ⟨r, h⟩
          cases h
      · simp only [if_neg h80, if_neg h40, if_neg h20]
        by_cases h10 : octet &&& 0x10#8 ≠ 0#8
        · simp only [if_pos h10]
          rw [bind_pure_iff, decode_literal_never_indexed, bind_pure_iff]
          exact hliteral 4
        · simp only [if_neg h10]
          rw [bind_pure_iff]
          exact hliteral 4

/-- A block is decoded when each turn taken on it throws nothing. -/
theorem parse_loop_returns_iff :
    ∀ {turns : Nat} {table_ : DynamicTable} {buf : Bytes} (headers : List Header),
      buf.length * 8 < UINTMAX_MOD →
      ((∃ fields, (parse_loop turns table_ buf headers).1 = .ok fields) ↔
        ∀ turn ∈ parse_turns turns table_ buf, turn.Decodes) := by
  intro turns
  induction turns with
  | zero =>
      intro table_ buf headers _
      cases buf <;> simp [parse_turns, parse_loop]
  | succ turns ih =>
      intro table_ buf headers hbuf
      cases buf with
      | nil => simp [parse_turns, parse_loop]
      | cons octet rest =>
          rw [parse_loop, parse_turns, List.forall_mem_cons,
            ← Turn.returns_iff ⟨table_, octet, rest⟩ hbuf, Turn.outcome, Turn.buf]
          simp only
          cases hfield : parse_field table_ octet (octet :: rest) with
          | error e => simp
          | ok r =>
              obtain ⟨header, buf, table'⟩ := r
              simp only
              obtain ⟨own, rfl, -⟩ := parse_field_local hfield
              rw [ih]
              · simp
              · rw [List.length_cons, List.length_append] at hbuf
                omega

theorem parseHeaders_returns_iff {table_ : DynamicTable} {block : Bytes}
    (h : block.length * 8 < UINTMAX_MOD) :
    (∃ fields, (parseHeaders table_ block).1 = .ok fields) ↔
      ∀ turn ∈ parse_turns block.length table_ block, turn.Decodes :=
  parse_loop_returns_iff [] h

end Shitty.Hpack
