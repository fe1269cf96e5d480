import Shitty.Hpack.Logic.Turns
import Mathlib.Data.List.Induction

/-!
# The assertions of the decoder

Which blocks trip one: only a size update that `resize` has to evict entries for,
because the assertion in its loop is the wrong way round. All other functions are gone
through once to see that they have none that can fail. So blocks are decoded without one
exactly when every size update finds nothing to evict.
-/

namespace Shitty.Hpack

open Lib.Eviction

/-! ## `resize` -/

/-- From the oldest entry on, as long as the entries left are larger than `n`,
each is larger than all of them. Totals are modulo 2^32; without an overflow no
entry is larger than all, and this says that the total is at most `n`. -/
def Evictable (n : Nat) (table_ : List Header) : Prop :=
  ∀ newer oldest, newer ++ [oldest] <+: table_ →
    (∀ left, newer ++ [oldest] <+: left → left <+: table_ → n < hpack_size left) →
      hpack_size (newer ++ [oldest]) < oldest.hpack_size

theorem hpack_size_snoc (newer : List Header) (oldest : Header) :
    hpack_size (newer ++ [oldest]) = (hpack_size newer + oldest.hpack_size) % UINT_MOD := by
  rw [hpack_size, List.foldl_append]
  rfl

/-- The total modulo 2^32 comes back to that of the newer entries. -/
theorem hpack_size_back (newer : List Header) (oldest : Header) :
    (hpack_size (newer ++ [oldest]) + UINT_MOD - oldest.hpack_size) % UINT_MOD =
      hpack_size newer := by
  have hn : hpack_size newer < UINT_MOD := by
    rw [hpack_size_eq]
    exact Nat.mod_lt _ (Nat.two_pow_pos 32)
  have ho : oldest.hpack_size < UINT_MOD := Nat.mod_lt _ (Nat.two_pow_pos 32)
  rw [hpack_size_snoc, UINT_MOD] at *
  omega

theorem evictable_nil (n : Nat) : Evictable n [] := by
  intro newer oldest h
  simp at h

/-- A table that is small enough already is evictable: the loop is not entered. -/
theorem evictable_of_le {n : Nat} {table_ : List Header} (h : hpack_size table_ ≤ n) :
    Evictable n table_ := by
  intro newer oldest hpre hlarge
  have := hlarge table_ hpre List.prefix_rfl
  omega

theorem evictable_snoc {n : Nat} {newer : List Header} {oldest : Header}
    (hlarge : n < hpack_size (newer ++ [oldest])) :
    Evictable n (newer ++ [oldest]) ↔
      hpack_size (newer ++ [oldest]) < oldest.hpack_size ∧ Evictable n newer := by
  constructor
  · intro h
    refine ⟨h newer oldest List.prefix_rfl ?_, ?_⟩
    · intro left hfront hback
      rwa [hback.eq_of_length_le hfront.length_le]
    · intro p o hpre hleft
      refine h p o (hpre.trans (List.prefix_append _ _)) fun left hfront hback => ?_
      rcases List.prefix_concat_iff.mp hback with rfl | hback
      · exact hlarge
      · exact hleft left hfront hback
  · rintro ⟨hoverflow, h⟩ p o hpre hleft
    rcases List.prefix_concat_iff.mp hpre with heq | hpre
    · obtain ⟨rfl, hlast⟩ := List.append_inj' heq rfl
      obtain rfl : o = oldest := by simpa using hlast
      exact hoverflow
    · exact h p o hpre fun left hfront hback =>
        hleft left hfront (hback.trans (List.prefix_append _ _))

/-- Without an overflow nothing can be evicted at all. -/
theorem evictable_iff {n : Nat} {table_ : List Header}
    (hsum : total entrySize table_ < UINT_MOD) :
    Evictable n table_ ↔ total entrySize table_ ≤ n := by
  have hsize : hpack_size table_ = total entrySize table_ := by
    rw [hpack_size_eq, Nat.mod_eq_of_lt hsum]
  constructor
  · intro h
    by_contra hlarge
    rcases List.eq_nil_or_concat table_ with rfl | ⟨newer, oldest, rfl⟩
    · simp at hlarge
    · rw [List.concat_eq_append] at *
      have hoverflow := ((evictable_snoc (by omega)).mp h).1
      have hentry : entrySize oldest ≤ total entrySize (newer ++ [oldest]) :=
        weight_le_total entrySize (by simp)
      rw [Header.hpack_size_eq, Nat.mod_eq_of_lt (by omega)] at hoverflow
      omega
  · intro h
    exact evictable_of_le (by omega)

/-- The loop of `resize`, oldest entry first, returns or trips its assertion. -/
theorem resize_loop_cases {n : Nat} {table_ : List Header} :
    ∀ nremove, ((∃ k, resize_loop n table_.reverse nremove (hpack_size table_) = .ok k) ∧
        Evictable n table_) ∨
      ((∃ expr, resize_loop n table_.reverse nremove (hpack_size table_) =
          .error (.assertion expr)) ∧ ¬ Evictable n table_) := by
  induction table_ using List.reverseRecOn with
  | nil => exact fun nremove => .inl ⟨⟨nremove, rfl⟩, evictable_nil n⟩
  | append_singleton newer oldest ih =>
      intro nremove
      rw [List.reverse_append, List.reverse_singleton, List.singleton_append, resize_loop]
      by_cases hlarge : n < hpack_size (newer ++ [oldest])
      · rw [if_pos hlarge, evictable_snoc hlarge]
        by_cases hoverflow : hpack_size (newer ++ [oldest]) < oldest.hpack_size
        · -- the total has overflowed
          dsimp only
          rw [if_pos hoverflow, hpack_size_back, and_iff_right hoverflow]
          exact ih (nremove + 1)
        · refine .inr ⟨⟨_, if_neg hoverflow⟩, fun h => hoverflow h.1⟩
      · exact .inl ⟨⟨_, if_neg hlarge⟩, evictable_of_le (by omega)⟩

theorem resize_loop_aborts_iff {n : Nat} {table_ : List Header} (nremove : Nat) :
    aborts (resize_loop n table_.reverse nremove (hpack_size table_)) = false ↔
      Evictable n table_ := by
  rcases @resize_loop_cases n table_ nremove with
    ⟨⟨k, hk⟩, h⟩ | ⟨⟨expr, hexpr⟩, h⟩
  · rw [hk]
    exact iff_of_true rfl h
  · rw [hexpr]
    exact iff_of_false (by simp [aborts]) h

/-- What comes behind without failing changes nothing. -/
theorem aborts_bind_pure {α β : Type} (x : Except Exn α) (f : α → β) :
    aborts (x >>= fun a => pure (f a)) = aborts x := by
  cases x with
  | error e => cases e <;> rfl
  | ok a => rfl

theorem DynamicTable.resize_aborts_iff (t : DynamicTable) (n : Nat) :
    aborts (t.resize n) = false ↔ t.size_octets_ ≤ n ∨ Evictable n t.table_ := by
  rw [DynamicTable.resize]
  by_cases hle : t.size_octets_ ≤ n
  · simp [hle, aborts]
  · rw [if_neg hle]
    by_cases hnil : t.table_ = []
    · simp [hnil, aborts, evictable_nil]
    · rw [if_neg hnil, ← resize_loop_aborts_iff 0, aborts_bind_pure]
      simp [hle]

/-- `resize` returns exactly where its assertion holds: nothing else is thrown. -/
theorem DynamicTable.resize_returns_iff (t : DynamicTable) (n : Nat) :
    (∃ t', t.resize n = .ok t') ↔ t.size_octets_ ≤ n ∨ Evictable n t.table_ := by
  rw [DynamicTable.resize]
  by_cases hle : t.size_octets_ ≤ n
  · rw [if_pos hle]
    exact iff_of_true ⟨_, rfl⟩ (.inl hle)
  · rw [if_neg hle]
    by_cases hnil : t.table_ = []
    · rw [if_pos hnil]
      exact iff_of_true ⟨_, rfl⟩ (.inr (hnil ▸ evictable_nil n))
    · rw [if_neg hnil, or_iff_right hle]
      rcases @resize_loop_cases n t.table_ 0 with
        ⟨⟨k, hk⟩, h⟩ | ⟨⟨expr, hexpr⟩, h⟩
      · rw [hk]
        exact iff_of_true ⟨_, rfl⟩ h
      · rw [hexpr]
        refine iff_of_false ?_ h
        rintro ⟨t', ht'⟩
        cases ht'

/-! ## The other decoders -/

theorem aborts_bind {α β : Type} {x : Except Exn α} {f : α → Except Exn β}
    (hx : aborts x = false) (hf : ∀ a, x = .ok a → aborts (f a) = false) :
    aborts (x >>= f) = false := by
  cases x with
  | error e => cases e <;> first | rfl | cases hx
  | ok a => exact hf a rfl

theorem read_number_aborts (buf : Bytes) (bits : Nat) (what : String) :
    aborts (read_number buf bits what) = false := by
  unfold read_number
  rcases decode_number buf bits with ⟨len, n⟩
  by_cases hlen : len < 1 <;> simp [hlen, aborts]

/-- No more octets are stored than there is room for. -/
theorem decode_loop_le (room : Nat) :
    ∀ reader dest, (decode_loop room reader dest).1 ≤ (dest.length : Int) + room := by
  induction room with
  | zero =>
      intro reader dest
      rw [decode_loop]
      dsimp only
      split <;> omega
  | succ room ih =>
      intro reader dest
      rw [decode_loop]
      split
      · dsimp only
        omega
      · cases decode_symbol reader with
        | none =>
            dsimp only
            omega
        | some found =>
            have := ih found.2 (dest ++ [found.1])
            simp only [List.length_append, List.length_singleton] at this
            push_cast at this ⊢
            omega

theorem huffman_decode_le (buf : Bytes) (bits destlen : Nat) :
    (huffman_decode buf bits destlen).1 ≤ (destlen : Int) := by
  unfold huffman_decode
  by_cases hbits : bits < 1 ∨ 8 < bits
  · rw [if_pos hbits]
    dsimp only
    omega
  · rw [if_neg hbits]
    have := decode_loop_le destlen
      (if bits ≠ 8 then bb_next (bb_reader_init buf) (8 - bits) else bb_reader_init buf) []
    simpa using this

theorem decode_string_aborts (buf : Bytes) : aborts (decode_string_from_rbuf buf) = false := by
  cases buf with
  | nil => rfl
  | cons octet buf =>
      rw [decode_string_from_rbuf]
      split
      · -- what `huffman_decode` returns fits
        refine aborts_bind (read_number_aborts _ _ _) ?_
        rintro ⟨coded_len, encoded, behind⟩ -
        dsimp only
        split
        · rfl
        · rw [if_neg (not_not.mpr (huffman_decode_le _ _ _))]
          split <;> rfl
      · refine aborts_bind (read_number_aborts _ _ _) ?_
        rintro ⟨slen, encoded, behind⟩ -
        dsimp only
        split <;> rfl

theorem get_aborts (table_ : DynamicTable) (index : Nat) :
    aborts (HeaderTable.get table_ index) = false := by
  unfold HeaderTable.get StaticTable.get DynamicTable.get
  split
  · split <;> rfl
  · split
    · rfl
    · cases table_.table_[index - start_]? <;> rfl

theorem decode_literal_aborts (table_ : DynamicTable) (buf : Bytes) (length_bits : Nat) :
    aborts (decode_literal table_ buf length_bits) = false := by
  refine aborts_bind (read_number_aborts _ _ _) ?_
  rintro ⟨idx, encoded, behind⟩ -
  dsimp only
  split
  · exact aborts_bind (get_aborts _ _) fun h _ =>
      aborts_bind (decode_string_aborts _) fun value _ => rfl
  · exact aborts_bind (decode_string_aborts _) fun name _ =>
      aborts_bind (decode_string_aborts _) fun value _ => rfl

/-! ## Turns -/

/-- When a turn trips no assertion: a size update it reads raises the maximum,
or leaves nothing to evict. -/
def Turn.EvictsNothing (turn : Turn) : Prop :=
  ∀ n, turn.Asks n → turn.Marked →
    turn.table_.size_octets_ ≤ n % UINT_MOD ∨ Evictable (n % UINT_MOD) turn.table_.table_

theorem dynamic_table_resize_aborts_iff (table_ : DynamicTable) (octet : Octet) (rest : Bytes) :
    aborts (dynamic_table_resize table_ (octet :: rest)) = false ↔
      ∀ n len, 1 ≤ len → decode_number (octet :: rest) 5 = (len, n) → octet &&& 0x02#8 = 0x02#8 →
        table_.size_octets_ ≤ n % UINT_MOD ∨ Evictable (n % UINT_MOD) table_.table_ := by
  rw [dynamic_table_resize]
  by_cases hbit : octet &&& 0x02#8 = 0x02#8
  · rw [if_neg (not_not.mpr hbit), read_number]
    rcases hn : decode_number (octet :: rest) 5 with ⟨len, n⟩
    simp only
    by_cases hlen : len < 1
    · rw [if_pos hlen]
      simp only [error_bind, aborts, true_iff]
      intro n' len' hlen' heq
      cases heq
      omega
    · rw [if_neg hlen]
      rw [ok_bind]
      dsimp only
      rw [aborts_bind_pure, DynamicTable.resize_aborts_iff]
      constructor
      · intro h n' len' _ heq _
        cases heq
        exact h
      · intro h
        exact h n len (by omega) rfl hbit
  · simp [hbit, aborts]

/-- A turn trips an assertion exactly when it has something to evict. -/
theorem Turn.aborts_iff (turn : Turn) : aborts turn.outcome = false ↔ turn.EvictsNothing := by
  obtain ⟨table_, octet, rest⟩ := turn
  unfold Turn.EvictsNothing Turn.Asks Turn.Marked
  simp only [Turn.outcome, Turn.buf, parse_field, first_octet_update]
  by_cases h80 : octet &&& 0x80#8 ≠ 0#8
  · -- the table is read, and left as it is
    simp only [if_pos h80, aborts_bind_pure]
    refine iff_of_true ?_ fun n hasks => absurd h80 hasks.1.1
    exact aborts_bind (read_number_aborts _ _ _) fun r _ =>
      aborts_bind (get_aborts _ _) fun h _ => rfl
  · by_cases h40 : octet &&& 0x40#8 ≠ 0#8
    · simp only [if_neg h80, if_pos h40, aborts_bind_pure]
      refine iff_of_true ?_ fun n hasks => absurd h40 hasks.1.2.1
      exact aborts_bind (decode_literal_aborts _ _ _) fun h _ => rfl
    · by_cases h20 : octet &&& 0x20#8 ≠ 0#8
      · simp only [if_neg h80, if_neg h40, if_pos h20, aborts_bind_pure]
        rw [dynamic_table_resize_aborts_iff]
        constructor
        · rintro h n ⟨-, len, hlen, hn⟩ hmarked
          exact h n len hlen hn hmarked
        · intro h n len hlen hn hmarked
          exact h n ⟨⟨h80, h40, h20⟩, len, hlen, hn⟩ hmarked
      · simp only [if_neg h80, if_neg h40, if_neg h20]
        refine iff_of_true ?_ fun n hasks => absurd hasks.1.2.2 h20
        by_cases h10 : octet &&& 0x10#8 ≠ 0#8
        · simp only [if_pos h10, aborts_bind_pure]
          exact aborts_bind (decode_literal_aborts _ _ _) fun h _ => rfl
        · simp only [if_neg h10, aborts_bind_pure]
          exact decode_literal_aborts _ _ _

/-- Every block decoded by one `HeaderDecoder` returns headers or throws, and
trips no assertion, exactly when no size update it reads has anything to evict. -/
theorem parseHeaders_asserts_iff (blocks : List Bytes) :
    ((∀ outcome ∈ decode_blocks {} blocks, aborts outcome = false) ↔
      ∀ turn ∈ decode_turns {} blocks, turn.EvictsNothing) ∧
    ∀ n table_, total entrySize table_ < UINT_MOD →
      (Evictable n table_ ↔ total entrySize table_ ≤ n) := by
  refine ⟨?_, fun n table_ hsum => evictable_iff hsum⟩
  rw [decode_blocks_aborts_iff]
  exact forall₂_congr fun turn _ => turn.aborts_iff

/-- `a: b` inserted, and the table lowered to 2 octets. -/
theorem parseHeaders_aborts :
    ¬ ∀ blocks : List Bytes, ∀ outcome ∈ decode_blocks {} blocks, aborts outcome = false := by
  intro h
  have hblock := h [[0x40#8, 0x01#8, 0x61#8, 0x01#8, 0x62#8, 0x22#8]]
  exact absurd (hblock _ (List.mem_cons_self ..)) (by decide)

end Shitty.Hpack
