import Shitty.Hpack.Logic.Locality
import Shitty.Hpack.Logic.Pointers
import Shitty.Hpack.Theorems.Assertions

/-!
# The accesses of the decoder

Every span is shortened by octets it has, and every index into a table is inside: with
its accesses, the decoder computes what it does without them. Each function has its
lemma: the checked one is the plain one lifted, from the access of one octet up to a
header field, and no fault is among its results.
-/

namespace Shitty.Hpack.Accesses

open Lib Lib.Checked

/-! ## Header tables -/

theorem StaticTable.get_eq {index : Nat} (h : index < 62) :
    StaticTable.get index = lift (Hpack.StaticTable.get index) := by
  have hlength : static_table.length = 62 := rfl
  rw [StaticTable.get, Hpack.StaticTable.get]
  by_cases hzero : index = 0
  · simp [hzero]
  · have hrange : ¬ (index = 0 ∨ static_table.length < index) := by omega
    rw [if_neg hrange, if_neg hrange, check_bind (by omega)]
    rfl

namespace DynamicTable

theorem get_eq (t : DynamicTable) (index : Nat) : get t index = lift (t.get index) := by
  rw [get, Hpack.DynamicTable.get]
  by_cases hstart : index < start_
  · simp [hstart]
  · rw [if_neg hstart, if_neg hstart]
    by_cases hin : index - start_ < t.table_.length
    · simp only [if_neg (Nat.not_le.mpr hin), check_bind hin, List.getElem?_eq_getElem hin,
        List.getD_eq_getElem?_getD, Option.getD_some]
      rfl
    · simp [not_lt.mp hin]

/-- Nothing is popped off an empty table. -/
theorem pop_back_while_eq (too_large : List Header → Bool) (table_ : List Header) :
    pop_back_while too_large table_.length table_ =
      .ok (Hpack.pop_back_while too_large table_.length table_) := by
  refine whileLoop_eq (fun _ => True) List.length
    (fun table_ => .ok (Hpack.pop_back_while too_large table_.length table_)) ?_ ?_ _ table_ trivial
    (Nat.le_refl _)
  · intro table_ _ hend
    cases table_ with
    | nil => rfl
    | cons header table_ =>
        have hsmall : too_large (header :: table_) = false := by simpa using hend
        rw [List.length_cons, Hpack.pop_back_while, if_neg (by rw [hsmall]; exact Bool.false_ne_true)]
        rfl
  · intro table_ _ hmore
    obtain ⟨hlarge, hne⟩ : too_large table_ = true ∧ table_ ≠ [] := by simpa using hmore
    have hpos := List.length_pos_of_ne_nil hne
    have hlast : table_.dropLast.length = table_.length - 1 := List.length_dropLast
    rw [pop_back, check_bind hne]
    refine ⟨hpos, ?_, trivial, by omega⟩
    obtain ⟨n, hn⟩ : ∃ n, table_.length = n + 1 := ⟨table_.length - 1, by omega⟩
    dsimp only
    rw [hlast, hn, Hpack.pop_back_while, if_pos hlarge]
    rfl

theorem insert_eq (t : DynamicTable) (header : Header) : insert t header = .ok (t.insert header) := by
  rw [insert, Hpack.DynamicTable.insert]
  by_cases hlarge : t.size_octets_ < header.hpack_size
  · simp only [if_pos hlarge]
    rfl
  · simp only [if_neg hlarge, pop_back_while_eq, ok_bind]
    rfl

/-- `nremove` entries are counted, and `hsize` is the size of the others. -/
structure Counted (table_ : List Header) (st : Nat × Nat) : Prop where
  le : st.1 ≤ table_.length
  size : st.2 = hpack_size (table_.take (table_.length - st.1))

/-- With all entries counted there is no size left. -/
theorem Counted.lt {table_ : List Header} {st : Nat × Nat} (h : Counted table_ st) {n : Nat}
    (hlarge : n < st.2) : st.1 < table_.length := by
  refine Nat.lt_of_le_of_ne h.le fun hall => ?_
  have hsize := h.size
  rw [hall, Nat.sub_self, List.take_zero] at hsize
  rw [hsize] at hlarge
  exact absurd hlarge (Nat.not_lt_zero _)

/-- The oldest entry that is not counted. -/
theorem Counted.oldest {table_ : List Header} {st : Nat × Nat} (h : Counted table_ st)
    (hlt : st.1 < table_.length) :
    st.2 = hpack_size (table_.take (table_.length - (st.1 + 1)) ++
      [table_.getD (table_.length - (st.1 + 1)) { name := [], value := [] }]) := by
  have hindex : table_.length - (st.1 + 1) < table_.length := by omega
  rw [h.size, List.getD_eq_getElem?_getD, List.getElem?_eq_getElem hindex, Option.getD_some,
    ← List.take_succ_eq_append_getElem hindex]
  congr 2
  omega

/-- A turn, whether the assertion is there or not. -/
theorem resize_turn_eq (asserted : Bool) {table_ : List Header} {st : Nat × Nat}
    (h : Counted table_ st) (hlt : st.1 < table_.length) :
    let oldest := table_.getD (table_.length - (st.1 + 1)) { name := [], value := [] }
    let newer := table_.take (table_.length - (st.1 + 1))
    resize_turn asserted table_ st =
      if asserted ∧ ¬ st.2 < oldest.hpack_size then
        .error (.thrown (.assertion "this_entry_sz > hsize"))
      else .ok (.inl (st.1 + 1, hpack_size newer)) := by
  intro oldest newer
  have hback := hpack_size_back newer oldest
  rw [← h.oldest hlt] at hback
  rw [resize_turn, check_bind (by omega), ← hback]
  rfl

theorem Counted.next {table_ : List Header} {st : Nat × Nat} (hlt : st.1 < table_.length) :
    Counted table_ (st.1 + 1, hpack_size (table_.take (table_.length - (st.1 + 1)))) :=
  ⟨hlt, rfl⟩

/-- No more entries are removed than there are. -/
theorem resize_loop_gives (asserted : Bool) (new_hpack_size : Nat) (table_ : List Header) :
    Gives (resize_loop asserted new_hpack_size table_ table_.length (0, hpack_size table_))
      fun nremove => nremove ≤ table_.length := by
  refine whileLoop_gives (Counted table_) (fun st => table_.length - st.1) ?_ ?_ _ _
    ⟨Nat.zero_le _, by simp⟩ (Nat.sub_le _ _)
  · exact fun st h _ => h.le
  · intro st h hmore
    obtain ⟨-, hlarge⟩ : table_ ≠ [] ∧ new_hpack_size < st.2 := by simpa using hmore
    have hlt := h.lt hlarge
    refine ⟨by omega, ?_⟩
    rw [resize_turn_eq asserted h hlt]
    split
    · exact gives_thrown _
    · refine gives_ok ⟨Counted.next hlt, ?_⟩
      dsimp only
      omega

theorem resize_gives (asserted : Bool) (t : DynamicTable) (new_hpack_size : Nat) :
    Gives (resize asserted t new_hpack_size) fun _ => True := by
  rw [resize]
  by_cases hle : t.size_octets_ ≤ new_hpack_size
  · rw [if_pos hle]
    exact gives_ok trivial
  · rw [if_neg hle]
    refine (resize_loop_gives asserted new_hpack_size t.table_).bind fun nremove hremove => ?_
    rw [check_bind hremove]
    exact gives_ok trivial

/-- With the assertion the loop is that of `resize`. -/
theorem resize_loop_eq (new_hpack_size : Nat) (table_ : List Header) :
    resize_loop true new_hpack_size table_ table_.length (0, hpack_size table_) =
      lift (Hpack.resize_loop new_hpack_size table_.reverse 0 (hpack_size table_)) := by
  refine whileLoop_eq (Counted table_) (fun st => table_.length - st.1)
    (fun st => lift (Hpack.resize_loop new_hpack_size (table_.reverse.drop st.1) st.1 st.2)) ?_ ?_ _
    (0, hpack_size table_) ⟨Nat.zero_le _, by simp⟩ (Nat.sub_le _ _)
  · intro st h hend
    have hsmall : ¬ new_hpack_size < st.2 := by
      intro hlarge
      have hne : table_ ≠ [] := List.ne_nil_of_length_pos (Nat.zero_lt_of_lt (h.lt hlarge))
      simp [hne, hlarge] at hend
    cases hleft : table_.reverse.drop st.1 with
    | nil => rw [Hpack.resize_loop, if_neg hsmall, lift_ok]
    | cons oldest newer => rw [Hpack.resize_loop, if_neg hsmall, lift_ok]
  · intro st h hmore
    obtain ⟨-, hlarge⟩ : table_ ≠ [] ∧ new_hpack_size < st.2 := by simpa using hmore
    have hlt := h.lt hlarge
    refine ⟨by omega, ?_⟩
    have hback := h.oldest hlt
    rw [resize_turn_eq true h hlt]
    generalize holdest : table_.getD (table_.length - (st.1 + 1)) { name := [], value := [] } = oldest
      at hback
    have hleft : table_.reverse.drop st.1 = oldest :: table_.reverse.drop (st.1 + 1) := by
      rw [List.drop_eq_getElem_cons (by rw [List.length_reverse]; exact hlt), List.getElem_reverse,
        ← holdest, List.getD_eq_getElem?_getD, List.getElem?_eq_getElem (by omega), Option.getD_some]
      congr 2
      omega
    by_cases hassert : st.2 < oldest.hpack_size
    · rw [if_neg (by simp [hassert])]
      refine ⟨?_, Counted.next hlt, by dsimp only; omega⟩
      dsimp only
      rw [hleft, Hpack.resize_loop, if_pos hlarge]
      dsimp only
      rw [if_pos hassert, hback, hpack_size_back]
    · rw [if_pos ⟨rfl, hassert⟩]
      show lift _ = _
      rw [hleft, Hpack.resize_loop, if_pos hlarge]
      dsimp only
      rw [if_neg hassert, lift_error]

theorem resize_eq (t : DynamicTable) (new_hpack_size : Nat) :
    resize true t new_hpack_size = lift (t.resize new_hpack_size) := by
  rw [resize, Hpack.DynamicTable.resize]
  by_cases hle : t.size_octets_ ≤ new_hpack_size
  · simp only [if_pos hle, lift_ok]
    rfl
  · rw [if_neg hle, if_neg hle]
    have hgives := resize_loop_gives true new_hpack_size t.table_
    rw [resize_loop_eq] at hgives ⊢
    by_cases hnil : t.table_ = []
    · rw [if_pos hnil]
      obtain ⟨size_octets_, table_⟩ := t
      obtain rfl : table_ = [] := hnil
      rfl
    · rw [if_neg hnil]
      cases hloop : Hpack.resize_loop new_hpack_size t.table_.reverse 0 (hpack_size t.table_) with
      | error e => rfl
      | ok nremove =>
          rw [hloop] at hgives
          rw [lift_ok, ok_bind, ok_bind, check_bind (hgives.2 nremove rfl)]
          rfl

end DynamicTable

theorem HeaderTable.get_eq (dtable_ : DynamicTable) (index : Nat) :
    HeaderTable.get dtable_ index = lift (Hpack.HeaderTable.get dtable_ index) := by
  rw [HeaderTable.get, Hpack.HeaderTable.get]
  by_cases hstatic : index < 62
  · rw [if_pos hstatic, if_pos hstatic, StaticTable.get_eq hstatic]
  · rw [if_neg hstatic, if_neg hstatic, DynamicTable.get_eq]

/-! ## String literals -/

theorem front_of {buf : Bytes} {n : Nat} (h : n ≤ buf.length) :
    front buf n = .ok (buf.take n) := check_bind h _

theorem subspan_of {buf : Bytes} {n : Nat} (h : n ≤ buf.length) :
    subspan buf n = .ok (buf.drop n) := check_bind h _

/-- The loop reads in front of the end of the span. -/
theorem decode_number_loop_eq (buf : Bytes) {turns : Nat} (st : NumberState)
    (h : buf.length - st.i ≤ turns) :
    decode_number_loop buf turns st =
      .ok (Hpack.decode_number_loop (buf.drop st.i) st.i st.mult st.number) := by
  refine whileLoop_eq (fun _ => True) (fun st : NumberState => buf.length - st.i)
    (fun st => .ok (Hpack.decode_number_loop (buf.drop st.i) st.i st.mult st.number)) ?_ ?_ _ st
    trivial h
  · intro st _ hend
    have hend : st.i < buf.length → MAX_OCTETS < st.i := by simpa using hend
    cases hleft : buf.drop st.i with
    | nil => rfl
    | cons b rest =>
        have hlt : st.i < buf.length := by
          have hlength := congrArg List.length hleft
          rw [List.length_drop, List.length_cons] at hlength
          omega
        rw [Hpack.decode_number_loop, if_pos (hend hlt)]
  · intro st _ hmore
    obtain ⟨hlt, hmax⟩ : st.i < buf.length ∧ st.i ≤ MAX_OCTETS := by simpa using hmore
    refine ⟨by omega, ?_⟩
    -- one turn, for the octet at `i`
    have hleft : buf.drop st.i = buf.getD st.i 0 :: buf.drop (st.i + 1) := by
      rw [List.drop_eq_getElem_cons hlt]
      simp [hlt]
    rw [decode_number_turn, check_bind hlt]
    dsimp only
    split
    · rename_i hlast
      show Except.ok (Hpack.decode_number_loop _ _ _ _) = _
      rw [hleft, Hpack.decode_number_loop, if_neg (Nat.not_lt.mpr hmax)]
      simp only [if_pos hlast]
    · rename_i hlast
      split
      · rename_i hover
        show Except.ok (Hpack.decode_number_loop _ _ _ _) = _
        rw [hleft, Hpack.decode_number_loop, if_neg (Nat.not_lt.mpr hmax)]
        simp only [if_neg hlast, if_pos hover]
      · rename_i hover
        refine ⟨?_, trivial, by dsimp only; omega⟩
        dsimp only
        rw [hleft, Hpack.decode_number_loop, if_neg (Nat.not_lt.mpr hmax)]
        simp only [if_neg hlast, if_neg hover]

theorem decode_number_eq (buf : Bytes) (bits : Nat) :
    decode_number buf bits = .ok (Hpack.decode_number buf bits) := by
  cases buf with
  | nil => rfl
  | cons b rest =>
      rw [decode_number, Hpack.decode_number]
      by_cases hbits : 8 < bits
      · rw [if_pos (.inr hbits), if_pos hbits]
        rfl
      · rw [if_neg (by simp [hbits]), if_neg hbits, check_bind (by simp)]
        dsimp only
        rw [List.getD_cons_zero]
        split
        · rfl
        · exact decode_number_loop_eq (b :: rest)
            { i := 1, mult := 1, number := (b &&& mask_from_bits bits).toNat } (Nat.sub_le _ _)

theorem read_number_eq (buf : Bytes) (bits : Nat) (what : String) :
    read_number buf bits what = lift (Hpack.read_number buf bits what) := by
  rw [read_number, Hpack.read_number, decode_number_eq, ok_bind]
  rcases hnumber : Hpack.decode_number buf bits with ⟨len, number⟩
  dsimp only
  by_cases hlen : len < 1
  · simp [hlen]
  · obtain ⟨own, rest, hbuf, hown, -⟩ := decode_number_local (by omega) hnumber
    have hle : len.toNat ≤ buf.length := by
      rw [hbuf, List.length_append]
      omega
    rw [if_neg hlen, if_neg hlen, front_of hle, ok_bind, subspan_of hle]
    rfl

/-- Two computations agree behind one without accesses when they agree behind each of its
results. -/
theorem lift_bind_of {α β : Type} {x : Except Exn α} {g : α → Access β} {h : α → Except Exn β}
    (heq : ∀ a, g a = lift (h a)) : (lift x >>= g) = lift (x >>= h) := by
  rw [lift_bind]
  exact congrArg _ (funext heq)

theorem decode_raw_string_eq (buf : Bytes) :
    decode_raw_string_from_rbuf buf = lift (Hpack.decode_raw_string_from_rbuf buf) := by
  rw [decode_raw_string_from_rbuf, Hpack.decode_raw_string_from_rbuf, read_number_eq]
  refine lift_bind_of fun r => ?_
  obtain ⟨slen, encoded, buf⟩ := r
  dsimp only
  by_cases hshort : buf.length < slen
  · simp [hshort]
  · rw [if_neg hshort, if_neg hshort, front_of (by omega), ok_bind, subspan_of (by omega)]
    rfl

/-- The result is the number of octets stored, or negative. -/
theorem huffman_decode_stored (buf : Bytes) (bits destlen : Nat) :
    (Hpack.huffman_decode buf bits destlen).1 ≤ (Hpack.huffman_decode buf bits destlen).2.length := by
  have hloop : ∀ room reader dest, (Hpack.decode_loop room reader dest).1 ≤
      ((Hpack.decode_loop room reader dest).2.length : Int) := by
    intro room
    induction room with
    | zero =>
        intro reader dest
        rw [Hpack.decode_loop]
        dsimp only
        split <;> omega
    | succ room ih =>
        intro reader dest
        rw [Hpack.decode_loop]
        split
        · exact le_refl _
        · cases Hpack.decode_symbol reader with
          | none => exact le_refl _
          | some found => exact ih _ _
  rw [Hpack.huffman_decode]
  split
  · simp
  · exact hloop _ _ _

theorem decode_huff_string_eq (buf : Bytes) :
    decode_huff_string_from_rbuf buf = lift (Hpack.decode_huff_string_from_rbuf buf) := by
  rw [decode_huff_string_from_rbuf, Hpack.decode_huff_string_from_rbuf, read_number_eq]
  refine lift_bind_of fun r => ?_
  obtain ⟨coded_len, encoded, buf⟩ := r
  dsimp only
  by_cases hshort : buf.length < coded_len
  · simp [hshort]
  · rw [if_neg hshort, if_neg hshort, front_of (by omega), ok_bind, huffman_decode_eq,
      List.length_replicate]
    have hle := huffman_decode_le (buf.take coded_len) 8 (coded_len * 8 % UINTMAX_MOD / 5 + 1)
    have hstored := huffman_decode_stored (buf.take coded_len) 8
      (coded_len * 8 % UINTMAX_MOD / 5 + 1)
    generalize Hpack.huffman_decode (buf.take coded_len) 8
      (coded_len * 8 % UINTMAX_MOD / 5 + 1) = r at hle hstored
    obtain ⟨decoded_len, stored⟩ := r
    dsimp only at hle hstored
    show (subspan buf coded_len >>= _) = _
    rw [subspan_of (by omega), ok_bind, if_neg, if_neg (not_not.mpr hle)]
    · by_cases hneg : decoded_len < 0
      · simp [hneg]
      · rw [if_neg hneg, if_neg hneg, List.take_append_of_le_length (by omega)]
        rfl
    · simp only [List.length_append, List.length_drop, List.length_replicate]
      omega

theorem decode_string_eq (buf : Bytes) :
    decode_string_from_rbuf buf = lift (Hpack.decode_string_from_rbuf buf) := by
  cases buf with
  | nil => rfl
  | cons octet rest =>
      rw [decode_string_from_rbuf, Hpack.decode_string_from_rbuf]
      split
      · exact decode_huff_string_eq _
      · exact decode_raw_string_eq _

/-! ## Header fields -/

theorem decode_indexed_eq (table_ : DynamicTable) (buf : Bytes) :
    decode_indexed table_ buf = lift (Hpack.decode_indexed table_ buf) := by
  rw [decode_indexed, Hpack.decode_indexed, read_number_eq]
  refine lift_bind_of fun r => ?_
  dsimp only
  rw [HeaderTable.get_eq]
  exact lift_bind_of fun h => rfl

theorem decode_literal_indexed_eq (table_ : DynamicTable) (index : Nat) (buf : Bytes) :
    decode_literal_indexed table_ index buf = lift (Hpack.decode_literal_indexed table_ index buf) := by
  rw [decode_literal_indexed, Hpack.decode_literal_indexed, HeaderTable.get_eq]
  refine lift_bind_of fun h => ?_
  rw [decode_string_eq]
  exact lift_bind_of fun r => rfl

theorem decode_literal_eq (table_ : DynamicTable) (buf : Bytes) (length_bits : Nat) :
    decode_literal table_ buf length_bits = lift (Hpack.decode_literal table_ buf length_bits) := by
  rw [decode_literal, Hpack.decode_literal, read_number_eq]
  refine lift_bind_of fun r => ?_
  dsimp only
  split
  · exact decode_literal_indexed_eq _ _ _
  · rw [decode_string_eq]
    refine lift_bind_of fun r => ?_
    obtain ⟨name, rest⟩ := r
    dsimp only
    rw [decode_string_eq]
    exact lift_bind_of fun value => rfl

theorem decode_literal_incremental_eq (table_ : DynamicTable) (buf : Bytes) :
    decode_literal_incremental table_ buf = lift (Hpack.decode_literal_incremental table_ buf) := by
  rw [decode_literal_incremental, Hpack.decode_literal_incremental, decode_literal_eq]
  refine lift_bind_of fun r => ?_
  obtain ⟨header, rest⟩ := r
  dsimp only
  rw [DynamicTable.insert_eq]
  rfl

theorem decode_literal_never_indexed_eq (table_ : DynamicTable) (buf : Bytes) :
    decode_literal_never_indexed table_ buf =
      lift (Hpack.decode_literal_never_indexed table_ buf) := by
  rw [decode_literal_never_indexed, Hpack.decode_literal_never_indexed, decode_literal_eq]
  exact lift_bind_of fun r => rfl

theorem dynamic_table_resize_eq (table_ : DynamicTable) (buf : Bytes) :
    dynamic_table_resize true table_ buf = lift (Hpack.dynamic_table_resize table_ buf) := by
  cases buf with
  | nil => rfl
  | cons octet rest =>
      rw [dynamic_table_resize, Hpack.dynamic_table_resize]
      split
      · rfl
      · rw [read_number_eq]
        refine lift_bind_of fun r => ?_
        dsimp only
        rw [DynamicTable.resize_eq]
        exact lift_bind_of fun t => rfl

end Shitty.Hpack.Accesses
