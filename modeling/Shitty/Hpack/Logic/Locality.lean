import Shitty.Hpack.Decoder

/-!
# What a representation is decoded from

A decoder that succeeds has taken some octets from the front of the block; with anything
else behind the same octets it returns the same and leaves that. It is stated for each
function of the decoder, and put together for the loop. Turns that are left over make no
difference, as none of them is used behind the end of a block.
-/

namespace Shitty.Hpack

/-- The decoder takes `own` from the front of a block and returns `a`, whatever
follows. -/
def Takes {α : Type} (decode : Bytes → Except Exn (α × Bytes)) (own : Bytes) (a : α) : Prop :=
  ∀ rest, decode (own ++ rest) = .ok (a, rest)

/-- What was decoded came from octets in front of what is left: one at least. -/
def Local {α : Type} (decode : Bytes → Except Exn (α × Bytes)) : Prop :=
  ∀ buf a rest, decode buf = .ok (a, rest) →
    ∃ own, own ≠ [] ∧ buf = own ++ rest ∧ Takes decode own a

/-! ## Numbers -/

/-- The loop stops at the last octet of the number. -/
theorem decode_number_loop_local :
    ∀ {buf : Bytes} {i mult number number' : Nat} {len : Int}, 1 ≤ len →
      decode_number_loop buf i mult number = (len, number') →
      ∃ own rest, buf = own ++ rest ∧ len = i + own.length ∧
        ∀ more, decode_number_loop (own ++ more) i mult number = (len, number') := by
  intro buf
  induction buf with
  | nil =>
      intro i mult number number' len hlen h
      cases h
      simp [PROTOCOL_ERROR] at hlen
  | cons b buf ih =>
      intro i mult number number' len hlen h
      rw [decode_number_loop] at h
      by_cases hmax : MAX_OCTETS < i
      · rw [if_pos hmax] at h
        cases h
        simp [PROTOCOL_ERROR] at hlen
      · rw [if_neg hmax] at h
        simp only at h
        by_cases hlast : b &&& 0x80#8 = 0#8
        · -- the last octet
          rw [if_pos hlast] at h
          cases h
          refine ⟨[b], buf, rfl, rfl, ?_⟩
          intro more
          rw [List.singleton_append, decode_number_loop, if_neg hmax]
          simp only [if_pos hlast]
        · rw [if_neg hlast] at h
          by_cases hover : (mult <<< 7) % UINTMAX_MOD < mult
          · rw [if_pos hover] at h
            cases h
            simp [INTERNAL_ERROR] at hlen
          · rw [if_neg hover] at h
            obtain ⟨own, rest, rfl, rfl, hmore⟩ := ih hlen h
            refine ⟨b :: own, rest, rfl, by push_cast [List.length_cons]; omega, ?_⟩
            intro more
            rw [List.cons_append, decode_number_loop, if_neg hmax]
            simp only [if_neg hlast, if_neg hover]
            exact hmore more

theorem decode_number_local {buf : Bytes} {bits number : Nat} {len : Int} (hlen : 1 ≤ len)
    (h : decode_number buf bits = (len, number)) :
    ∃ own rest, buf = own ++ rest ∧ len = own.length ∧
      ∀ more, decode_number (own ++ more) bits = (len, number) := by
  cases buf with
  | nil =>
      cases h
      simp [PROTOCOL_ERROR] at hlen
  | cons b buf =>
      rw [decode_number] at h
      by_cases hbits : 8 < bits
      · rw [if_pos hbits] at h
        cases h
        simp [PROTOCOL_ERROR] at hlen
      · rw [if_neg hbits] at h
        simp only at h
        by_cases hfield : b &&& mask_from_bits bits ≠ mask_from_bits bits
        · rw [if_pos hfield] at h
          cases h
          refine ⟨[b], buf, rfl, rfl, ?_⟩
          intro more
          rw [List.singleton_append, decode_number, if_neg hbits]
          simp only [if_pos hfield]
        · rw [if_neg hfield] at h
          obtain ⟨own, rest, rfl, rfl, hmore⟩ := decode_number_loop_local hlen h
          refine ⟨b :: own, rest, rfl, by push_cast [List.length_cons]; omega, ?_⟩
          intro more
          rw [List.cons_append, decode_number, if_neg hbits]
          simp only [if_neg hfield]
          exact hmore more

/-- A number is read from its own octets, which are returned with it. -/
theorem read_number_local {buf rest encoded : Bytes} {bits number : Nat} {what : String}
    (h : read_number buf bits what = .ok (number, encoded, rest)) :
    encoded ≠ [] ∧ buf = encoded ++ rest ∧
      ∀ more, read_number (encoded ++ more) bits what = .ok (number, encoded, more) := by
  unfold read_number at h
  rcases hn : decode_number buf bits with ⟨len, n⟩
  simp only [hn] at h
  by_cases hlen : len < 1
  · rw [if_pos hlen] at h
    cases h
  · rw [if_neg hlen] at h
    obtain ⟨own, rest', rfl, rfl, hmore⟩ := decode_number_local (by omega) hn
    rw [Int.toNat_natCast, List.take_left, List.drop_left] at h
    cases h
    refine ⟨?_, rfl, ?_⟩
    · rintro rfl
      exact hlen Int.one_pos
    · intro more
      unfold read_number
      simp only [hmore more]
      rw [if_neg hlen, Int.toNat_natCast, List.take_left, List.drop_left]

/-! ## String literals -/

theorem decode_raw_string_local : Local decode_raw_string_from_rbuf := by
  intro buf string rest h
  obtain ⟨⟨slen, encoded, behind⟩, hnum, hbehind⟩ := bind_eq_ok.mp h
  obtain ⟨hne, rfl, hmore⟩ := read_number_local hnum
  clear h
  rename' hbehind => h
  simp only at h
  by_cases hlen : behind.length < slen
  · rw [if_pos hlen] at h
    cases h
  · rw [if_neg hlen] at h
    cases h
    refine ⟨encoded ++ behind.take slen, by simp [hne], ?_, ?_⟩
    · rw [List.append_assoc, List.take_append_drop]
    · intro more
      have htake : (behind.take slen).length = slen := by
        rw [List.length_take]
        omega
      rw [List.append_assoc, decode_raw_string_from_rbuf, hmore, ok_bind]
      simp only
      rw [if_neg (by rw [List.length_append]; omega), List.take_left' htake,
        List.drop_left' htake]

theorem decode_huff_string_local : Local decode_huff_string_from_rbuf := by
  intro buf string rest h
  obtain ⟨⟨coded_len, encoded, behind⟩, hnum, hbehind⟩ := bind_eq_ok.mp h
  obtain ⟨hne, rfl, hmore⟩ := read_number_local hnum
  clear h
  rename' hbehind => h
  simp only at h
  by_cases hlen : behind.length < coded_len
  · rw [if_pos hlen] at h
    cases h
  · rw [if_neg hlen] at h
    rcases hs : huffman_decode (behind.take coded_len) 8
      (coded_len * 8 % UINTMAX_MOD / 5 + 1) with ⟨decoded_len, s⟩
    simp only [hs] at h
    by_cases hassert : ¬ decoded_len ≤ ((coded_len * 8 % UINTMAX_MOD / 5 + 1 : Nat) : Int)
    · rw [if_pos hassert] at h
      cases h
    · rw [if_neg hassert] at h
      by_cases hneg : decoded_len < 0
      · rw [if_pos hneg] at h
        cases h
      · rw [if_neg hneg] at h
        cases h
        refine ⟨encoded ++ behind.take coded_len, by simp [hne], ?_, ?_⟩
        · rw [List.append_assoc, List.take_append_drop]
        · intro more
          have htake : (behind.take coded_len).length = coded_len := by
            rw [List.length_take]
            omega
          rw [List.append_assoc, decode_huff_string_from_rbuf, hmore, ok_bind]
          simp only
          rw [if_neg (by rw [List.length_append]; omega), List.take_left' htake,
            List.drop_left' htake, hs]
          simp only
          rw [if_neg hassert, if_neg hneg]

/-- The first octet, which tells the two kinds apart, is one of the string's own. -/
theorem decode_string_local : Local decode_string_from_rbuf := by
  intro buf string rest h
  cases buf with
  | nil => cases h
  | cons octet buf =>
      rw [decode_string_from_rbuf] at h
      by_cases hhuff : octet &&& 0x80#8 ≠ 0#8
      · rw [if_pos hhuff] at h
        obtain ⟨own, hne, hbuf, htakes⟩ := decode_huff_string_local _ _ _ h
        obtain ⟨o, own, rfl⟩ := List.exists_cons_of_ne_nil hne
        cases hbuf
        refine ⟨octet :: own, hne, rfl, fun more => ?_⟩
        rw [List.cons_append, decode_string_from_rbuf, if_pos hhuff]
        exact htakes more
      · rw [if_neg hhuff] at h
        obtain ⟨own, hne, hbuf, htakes⟩ := decode_raw_string_local _ _ _ h
        obtain ⟨o, own, rfl⟩ := List.exists_cons_of_ne_nil hne
        cases hbuf
        refine ⟨octet :: own, hne, rfl, fun more => ?_⟩
        rw [List.cons_append, decode_string_from_rbuf, if_neg hhuff]
        exact htakes more

/-! ## Header fields -/

theorem decode_indexed_local (table_ : DynamicTable) : Local (decode_indexed table_) := by
  intro buf header rest h
  obtain ⟨⟨idx, encoded, behind⟩, hnum, hbehind⟩ := bind_eq_ok.mp h
  obtain ⟨hne, rfl, hmore⟩ := read_number_local hnum
  clear h
  rename' hbehind => h
  obtain ⟨entry, hget, h⟩ := bind_eq_ok.mp h
  cases h
  refine ⟨encoded, hne, rfl, fun more => ?_⟩
  rw [decode_indexed, hmore, ok_bind]
  simp only
  rw [hget]
  rfl

theorem decode_literal_indexed_local (table_ : DynamicTable) (index : Nat) :
    Local (decode_literal_indexed table_ index) := by
  intro buf header rest h
  obtain ⟨entry, hget, h⟩ := bind_eq_ok.mp h
  obtain ⟨⟨value, behind⟩, hvalue, h⟩ := bind_eq_ok.mp h
  cases h
  obtain ⟨own, hne, rfl, htakes⟩ := decode_string_local _ _ _ hvalue
  refine ⟨own, hne, rfl, fun more => ?_⟩
  rw [decode_literal_indexed, hget, ok_bind, htakes more]
  rfl

theorem decode_literal_local {table_ : DynamicTable} {length_bits : Nat} {buf rest : Bytes}
    {header : Header} (h : decode_literal table_ buf length_bits = .ok (header, rest)) :
    ∃ own, own ≠ [] ∧ buf = own ++ rest ∧
      ∀ more, decode_literal table_ (own ++ more) length_bits = .ok (header, more) := by
  obtain ⟨⟨idx, encoded, behind⟩, hnum, hbehind⟩ := bind_eq_ok.mp h
  obtain ⟨hne, rfl, hmore⟩ := read_number_local hnum
  clear h
  rename' hbehind => h
  simp only at h
  by_cases hidx : idx ≠ 0
  · rw [if_pos hidx] at h
    obtain ⟨own, -, rfl, htakes⟩ := decode_literal_indexed_local table_ _ _ _ _ h
    refine ⟨encoded ++ own, by simp [hne], by rw [List.append_assoc], fun more => ?_⟩
    rw [List.append_assoc, decode_literal, hmore, ok_bind]
    simp only
    rw [if_pos hidx]
    exact htakes more
  · rw [if_neg hidx] at h
    obtain ⟨⟨name, behind⟩, hname, h⟩ := bind_eq_ok.mp h
    obtain ⟨⟨value, behind⟩, hvalue, h⟩ := bind_eq_ok.mp h
    cases h
    obtain ⟨ownName, -, rfl, htakesName⟩ := decode_string_local _ _ _ hname
    obtain ⟨ownValue, -, rfl, htakesValue⟩ := decode_string_local _ _ _ hvalue
    refine ⟨encoded ++ (ownName ++ ownValue), by simp [hne], by simp, fun more => ?_⟩
    rw [List.append_assoc, List.append_assoc, decode_literal, hmore, ok_bind]
    simp only
    rw [if_neg hidx, htakesName _, ok_bind]
    simp only
    rw [htakesValue _, ok_bind]
    rfl

theorem decode_literal_incremental_local {table_ table' : DynamicTable} {buf rest : Bytes}
    {header : Header} (h : decode_literal_incremental table_ buf = .ok (header, rest, table')) :
    ∃ own, own ≠ [] ∧ buf = own ++ rest ∧
      ∀ more, decode_literal_incremental table_ (own ++ more) = .ok (header, more, table') := by
  obtain ⟨⟨entry, behind⟩, hdec, hinsert⟩ := bind_eq_ok.mp h
  cases hinsert
  obtain ⟨own, hne, rfl, hmore⟩ := decode_literal_local hdec
  refine ⟨own, hne, rfl, fun more => ?_⟩
  rw [decode_literal_incremental, hmore more]
  rfl

theorem decode_literal_never_indexed_local (table_ : DynamicTable) :
    Local (decode_literal_never_indexed table_) := by
  intro buf header rest h
  obtain ⟨⟨entry, behind⟩, hdec, hmark⟩ := bind_eq_ok.mp h
  cases hmark
  obtain ⟨own, hne, rfl, hmore⟩ := decode_literal_local hdec
  refine ⟨own, hne, rfl, fun more => ?_⟩
  rw [decode_literal_never_indexed, hmore more]
  rfl

theorem dynamic_table_resize_local {table_ table' : DynamicTable} {buf rest : Bytes}
    (h : dynamic_table_resize table_ buf = .ok (rest, table')) :
    ∃ own, own ≠ [] ∧ buf = own ++ rest ∧
      ∀ more, dynamic_table_resize table_ (own ++ more) = .ok (more, table') := by
  cases buf with
  | nil => cases h
  | cons octet buf =>
      rw [dynamic_table_resize] at h
      by_cases hbit : octet &&& 0x02#8 ≠ 0x02#8
      · rw [if_pos hbit] at h
        cases h
      · rw [if_neg hbit] at h
        obtain ⟨⟨new_size, encoded, behind⟩, hnum, hrest⟩ := bind_eq_ok.mp h
        obtain ⟨hne, hbuf, hmore⟩ := read_number_local hnum
        obtain ⟨o, own, rfl⟩ := List.exists_cons_of_ne_nil hne
        cases hbuf
        clear h
        obtain ⟨resized, hresize, hpair⟩ := bind_eq_ok.mp hrest
        cases hpair
        refine ⟨octet :: own, hne, rfl, fun more => ?_⟩
        rw [List.cons_append, dynamic_table_resize, if_neg hbit, ← List.cons_append, hmore,
          ok_bind]
        simp only
        rw [hresize]
        rfl

/-- One turn of the loop: the header, if any, and the table behind it depend on
the octets taken and the table only. -/
theorem parse_field_local {table_ table' : DynamicTable} {octet : Octet} {buf rest : Bytes}
    {header : Option Header}
    (h : parse_field table_ octet (octet :: buf) = .ok (header, rest, table')) :
    ∃ own, buf = own ++ rest ∧
      ∀ more, parse_field table_ octet (octet :: own ++ more) = .ok (header, more, table') := by
  -- what one of the decoders takes begins with the first octet
  have hfirst : ∀ {own : Bytes}, own ≠ [] → octet :: buf = own ++ rest →
      ∃ own', own = octet :: own' ∧ buf = own' ++ rest := by
    intro own hne hbuf
    obtain ⟨o, own', rfl⟩ := List.exists_cons_of_ne_nil hne
    cases hbuf
    exact ⟨own', rfl, rfl⟩
  unfold parse_field at h ⊢
  by_cases h80 : octet &&& 0x80#8 ≠ 0#8
  · simp only [if_pos h80] at h ⊢
    obtain ⟨⟨entry, behind⟩, hdec, hpair⟩ := bind_eq_ok.mp h
    cases hpair
    obtain ⟨own, hne, hbuf, htakes⟩ := decode_indexed_local table_ _ _ _ hdec
    obtain ⟨own, rfl, rfl⟩ := hfirst hne hbuf
    exact ⟨own, rfl, fun more => by rw [htakes more]; rfl⟩
  · simp only [if_neg h80] at h ⊢
    by_cases h40 : octet &&& 0x40#8 ≠ 0#8
    · simp only [if_pos h40] at h ⊢
      obtain ⟨⟨entry, behind, inserted⟩, hdec, hpair⟩ := bind_eq_ok.mp h
      cases hpair
      obtain ⟨own, hne, hbuf, hmore⟩ := decode_literal_incremental_local hdec
      obtain ⟨own, rfl, rfl⟩ := hfirst hne hbuf
      exact ⟨own, rfl, fun more => by rw [hmore more]; rfl⟩
    · simp only [if_neg h40] at h ⊢
      by_cases h20 : octet &&& 0x20#8 ≠ 0#8
      · simp only [if_pos h20] at h ⊢
        obtain ⟨⟨behind, resized⟩, hdec, hpair⟩ := bind_eq_ok.mp h
        cases hpair
        obtain ⟨own, hne, hbuf, hmore⟩ := dynamic_table_resize_local hdec
        obtain ⟨own, rfl, rfl⟩ := hfirst hne hbuf
        exact ⟨own, rfl, fun more => by rw [hmore more]; rfl⟩
      · simp only [if_neg h20] at h ⊢
        by_cases h10 : octet &&& 0x10#8 ≠ 0#8
        · simp only [if_pos h10] at h ⊢
          obtain ⟨⟨entry, behind⟩, hdec, hpair⟩ := bind_eq_ok.mp h
          cases hpair
          obtain ⟨own, hne, hbuf, htakes⟩ := decode_literal_never_indexed_local table_ _ _ _ hdec
          obtain ⟨own, rfl, rfl⟩ := hfirst hne hbuf
          exact ⟨own, rfl, fun more => by rw [htakes more]; rfl⟩
        · simp only [if_neg h10] at h ⊢
          obtain ⟨⟨entry, behind⟩, hdec, hpair⟩ := bind_eq_ok.mp h
          cases hpair
          obtain ⟨own, hne, hbuf, hmore⟩ := decode_literal_local hdec
          obtain ⟨own, rfl, rfl⟩ := hfirst hne hbuf
          exact ⟨own, rfl, fun more => by rw [decode_literal_without_indexing, hmore more]; rfl⟩

/-! ## The loop -/

/-- The headers found are put behind those there are already. -/
theorem parse_loop_headers :
    ∀ (turns : Nat) (table_ : DynamicTable) (buf : Bytes) (headers : List Header),
      parse_loop turns table_ buf headers =
        ((parse_loop turns table_ buf []).1.map (headers ++ ·),
          (parse_loop turns table_ buf []).2) := by
  intro turns
  induction turns with
  | zero =>
      intro table_ buf headers
      cases buf <;> simp [parse_loop, Except.map]
  | succ turns ih =>
      intro table_ buf headers
      cases buf with
      | nil => simp [parse_loop, Except.map]
      | cons octet rest =>
          rw [parse_loop, parse_loop]
          cases parse_field table_ octet (octet :: rest) with
          | error e => rfl
          | ok r =>
              obtain ⟨header, behind, table'⟩ := r
              simp only
              rw [ih, ih table' behind ([] ++ header.toList)]
              cases (parse_loop turns table' behind []).1 <;> simp [Except.map]

/-- Turns beyond one for each octet are not taken. -/
theorem parse_loop_turns :
    ∀ {turns turns' : Nat} {table_ : DynamicTable} {buf : Bytes} {headers : List Header},
      buf.length ≤ turns → buf.length ≤ turns' →
      parse_loop turns table_ buf headers = parse_loop turns' table_ buf headers := by
  intro turns
  induction turns with
  | zero =>
      intro turns' table_ buf headers h _
      rw [List.length_eq_zero_iff.mp (Nat.le_zero.mp h)]
      cases turns' <;> rfl
  | succ turns ih =>
      intro turns' table_ buf headers h h'
      cases buf with
      | nil => cases turns' <;> rfl
      | cons octet rest =>
          obtain ⟨turns', rfl⟩ : ∃ k, turns' = k + 1 := ⟨turns' - 1, by
            rw [List.length_cons] at h'
            omega⟩
          rw [parse_loop, parse_loop]
          cases hfield : parse_field table_ octet (octet :: rest) with
          | error e => rfl
          | ok r =>
              obtain ⟨header, behind, table'⟩ := r
              obtain ⟨own, rfl, -⟩ := parse_field_local hfield
              simp only [List.length_cons, List.length_append] at h h'
              exact ih (by omega) (by omega)

/-- What one turn and the turns behind it come to together. -/
theorem parseHeaders_cons {table_ table' : DynamicTable} {octet : Octet} {own rest : Bytes}
    {header : Option Header}
    (h : parse_field table_ octet (octet :: (own ++ rest)) = .ok (header, rest, table')) :
    parseHeaders table_ (octet :: (own ++ rest)) =
      ((parseHeaders table' rest).1.map (header.toList ++ ·), (parseHeaders table' rest).2) := by
  rw [parseHeaders, List.length_cons, parse_loop, h]
  simp only
  have hturns : parse_loop (own ++ rest).length table' rest ([] ++ header.toList) =
      parse_loop rest.length table' rest ([] ++ header.toList) :=
    parse_loop_turns (by simp) (Nat.le_refl _)
  rw [hturns, parse_loop_headers, List.nil_append, parseHeaders]

end Shitty.Hpack
