import Shitty.Hpack.Logic.Accesses

/-!
# Decoding ends, and stays inside

Whatever the block and the table, `parseHeaders` takes an octet at least with every
turn, and reads and writes only what it may, whether or not the assertion of `resize` is
there. The decoder with its accesses is the one without, so that this holds of the same
function as every other result about blocks. The number of turns is the length of the
block.
-/

namespace Shitty.Hpack

open Lib Lib.Checked

namespace Accesses

/-- All turns but those of a size update are the same without the assertion. -/
theorem parse_field_eq {asserted : Bool} (table_ : DynamicTable) {octet : Octet} (buf : Bytes)
    (h : asserted = true ∨ octet &&& 0x80#8 ≠ 0#8 ∨ octet &&& 0x40#8 ≠ 0#8 ∨
      ¬ octet &&& 0x20#8 ≠ 0#8) :
    parse_field asserted table_ octet buf = lift (Hpack.parse_field table_ octet buf) := by
  rw [parse_field, Hpack.parse_field]
  by_cases h80 : octet &&& 0x80#8 ≠ 0#8
  · rw [if_pos h80, if_pos h80, decode_indexed_eq]
    exact lift_bind_of fun r => rfl
  rw [if_neg h80, if_neg h80]
  by_cases h40 : octet &&& 0x40#8 ≠ 0#8
  · rw [if_pos h40, if_pos h40, decode_literal_incremental_eq]
    exact lift_bind_of fun r => rfl
  rw [if_neg h40, if_neg h40]
  by_cases h20 : octet &&& 0x20#8 ≠ 0#8
  · obtain rfl : asserted = true := by tauto
    rw [if_pos h20, if_pos h20, dynamic_table_resize_eq]
    exact lift_bind_of fun r => rfl
  rw [if_neg h20, if_neg h20]
  by_cases h10 : octet &&& 0x10#8 ≠ 0#8
  · rw [if_pos h10, if_pos h10, decode_literal_never_indexed_eq]
    exact lift_bind_of fun r => rfl
  · rw [if_neg h10, if_neg h10, decode_literal_without_indexing,
      Hpack.decode_literal_without_indexing, decode_literal_eq]
    exact lift_bind_of fun r => rfl

theorem dynamic_table_resize_gives (asserted : Bool) (table_ : DynamicTable) (buf : Bytes) :
    Gives (dynamic_table_resize asserted table_ buf) fun r => r.1.length < buf.length := by
  cases buf with
  | nil => exact gives_thrown _
  | cons octet rest =>
      rw [dynamic_table_resize]
      split
      · exact gives_thrown _
      · rw [read_number_eq]
        refine (gives_lift _).bind fun r hnumber => ?_
        obtain ⟨new_size, encoded, behind⟩ := r
        obtain ⟨hne, hbuf, -⟩ := read_number_local hnumber
        have hpos := List.length_pos_of_ne_nil hne
        refine (DynamicTable.resize_gives asserted table_ _).bind fun t _ => gives_ok ?_
        dsimp only
        rw [hbuf, List.length_append]
        omega

/-- A turn throws or takes an octet. -/
theorem parse_field_gives (asserted : Bool) (table_ : DynamicTable) (octet : Octet) (rest : Bytes) :
    Gives (parse_field asserted table_ octet (octet :: rest)) fun r =>
      r.2.1.length < (octet :: rest).length := by
  by_cases hupdate : octet &&& 0x80#8 ≠ 0#8 ∨ octet &&& 0x40#8 ≠ 0#8 ∨ ¬ octet &&& 0x20#8 ≠ 0#8
  · rw [parse_field_eq table_ _ (.inr hupdate)]
    refine ⟨safe_lift _, fun r hr => ?_⟩
    obtain ⟨header, behind, table'⟩ := r
    obtain ⟨own, rfl, -⟩ := parse_field_local (lift_eq_ok.mp hr)
    simp only [List.length_cons, List.length_append]
    omega
  · have h80 : ¬ octet &&& 0x80#8 ≠ 0#8 := by tauto
    have h40 : ¬ octet &&& 0x40#8 ≠ 0#8 := by tauto
    have h20 : octet &&& 0x20#8 ≠ 0#8 := by tauto
    rw [parse_field, if_neg h80, if_neg h40, if_pos h20]
    exact (dynamic_table_resize_gives asserted table_ _).bind fun r hr => gives_ok hr

theorem parse_turn_gives (asserted : Bool) {st : ParseState} (h : st.buf ≠ []) :
    Gives (parse_turn asserted st)
      (Sum.elim (fun st' => True ∧ st'.buf.length < st.buf.length) fun _ => True) := by
  obtain ⟨table_, buf, headers⟩ := st
  obtain ⟨octet, rest, rfl⟩ := List.exists_cons_of_ne_nil h
  rw [parse_turn, check_bind (by simp)]
  exact (parse_field_gives asserted table_ octet rest).bind fun r hr => gives_ok ⟨trivial, hr⟩

theorem parseHeaders_gives (asserted : Bool) (table_ : DynamicTable) (block : Bytes) :
    Gives (parseHeaders asserted table_ block) fun _ => True := by
  refine whileLoop_gives (fun _ => True) (fun st => st.buf.length) (fun _ _ _ => trivial) ?_ _ _
    trivial (Nat.le_refl _)
  intro st _ hmore
  have hne : st.buf ≠ [] := by simpa using hmore
  exact ⟨List.length_pos_of_ne_nil hne, parse_turn_gives asserted hne⟩

/-- What `parseHeaders` returns, with the table behind it. -/
def returned (r : Except Exn (List Header) × DynamicTable) :
    Except Exn (List Header × DynamicTable) :=
  r.1.map fun headers => (headers, r.2)

/-- With the assertion, the headers and the table are those of the decoder without its
accesses. -/
theorem parseHeaders_eq (table_ : DynamicTable) (block : Bytes) :
    parseHeaders true table_ block = lift (returned (Hpack.parseHeaders table_ block)) := by
  refine whileLoop_eq (fun _ => True) (fun st : ParseState => st.buf.length)
    (fun st => lift (returned (parse_loop st.buf.length st.table_ st.buf st.headers))) ?_ ?_ _
    { table_ := table_, buf := block, headers := [] } trivial (Nat.le_refl _)
  · intro st _ hend
    have hnil : st.buf = [] := by simpa using hend
    simp only [hnil]
    rfl
  · intro st _ hmore
    have hne : st.buf ≠ [] := by simpa using hmore
    obtain ⟨table_, buf, headers⟩ := st
    obtain ⟨octet, rest, rfl⟩ := List.exists_cons_of_ne_nil hne
    refine ⟨by simp, ?_⟩
    rw [parse_turn, check_bind (by simp)]
    dsimp only
    rw [List.headD_cons, parse_field_eq table_ _ (.inl rfl)]
    cases hfield : Hpack.parse_field table_ octet (octet :: rest) with
    | error e =>
        show lift (returned (parse_loop (rest.length + 1) table_ (octet :: rest) headers)) = _
        rw [parse_loop, hfield]
        rfl
    | ok r =>
        obtain ⟨header, behind, table'⟩ := r
        obtain ⟨own, rfl, -⟩ := parse_field_local hfield
        refine ⟨?_, trivial, by simp⟩
        dsimp only
        rw [List.length_cons, parse_loop, hfield]
        exact congrArg (fun r => lift (returned r)) (parse_loop_turns (by simp) (Nat.le_refl _))

end Accesses

/-- From any table and on any block, with or without the assertion of `resize`, a turn of
the loop throws or takes an octet, the block is decoded in no more turns than it has
octets, and nothing outside of a span, a table or a destination is read or written; nor is
it by `huffman_decode` on any octets. -/
theorem parseHeaders_total (asserted : Bool) (table_ : DynamicTable) (block : Bytes) :
    (∀ octet rest, Gives (Accesses.parse_field asserted table_ octet (octet :: rest))
      fun r => r.2.1.length < (octet :: rest).length) ∧
    Safe (Accesses.parseHeaders asserted table_ block) ∧
    (∀ coded bits s, Safe (Accesses.huffman_decode coded bits s)) ∧
    Accesses.parseHeaders true table_ block =
      lift (Accesses.returned (Hpack.parseHeaders table_ block)) := by
  refine ⟨Accesses.parse_field_gives asserted table_,
    (Accesses.parseHeaders_gives asserted table_ block).1, fun coded bits s => ?_,
    Accesses.parseHeaders_eq table_ block⟩
  rw [Accesses.huffman_decode_eq]
  exact safe_ok _

end Shitty.Hpack
