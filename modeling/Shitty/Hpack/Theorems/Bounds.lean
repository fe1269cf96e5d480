import Shitty.Hpack.Theorems.Assertions

/-!
# The size of the decoder's table

The server advertises no other limit than the initial one of 4096 octets. A size update
can raise it all the same, and a header whose size overflows `unsigned` is taken for a
small one. When a run has neither of these, its table stays within the limit in front of
every turn and behind it, and otherwise it does not.
-/

namespace Shitty.Hpack

open Lib.Eviction

/-- SETTINGS_HEADER_TABLE_SIZE of a peer that has not said otherwise. -/
def header_table_size : Nat := 4096

namespace Turn

/-- The turn is answered with an exception. -/
def Rejected (turn : Turn) : Prop := ∃ e, turn.outcome = .error e ∧ aborts turn.outcome = false

/-- The table is within the limit behind the turn, which rejects a size update
beyond it. -/
def Bounded (turn : Turn) : Prop :=
  total entrySize turn.after.table_ ≤ header_table_size ∧
    ∀ n, turn.Asks n → header_table_size < n → turn.Rejected

/-- When a turn keeps the limit: a size update it reads is within it (or lacks
the bit the code looks for, and is rejected for that), and the size of a header
it inserts does not come out small by an overflow. -/
def WithinLimit (turn : Turn) : Prop :=
  (∀ n, turn.Asks n → turn.Marked → n ≤ header_table_size) ∧
    ∀ header, turn.Inserts header → UINT_MOD ≤ entrySize header →
      header_table_size < header.hpack_size

/-! ## What a turn does to the table -/

theorem outcome_of_inserts {turn : Turn} {header : Header} (h : turn.Inserts header) :
    ∃ rest, turn.outcome = .ok (some header, rest, turn.table_.insert header) := by
  obtain ⟨hoctet, rest, hdec⟩ := h
  obtain ⟨h80, h40⟩ := (first_octet_incremental turn.octet).mp hoctet
  refine ⟨rest, ?_⟩
  rw [outcome, parse_field, if_neg h80, if_pos h40, decode_literal_incremental, hdec]
  rfl

theorem outcome_of_asks {turn : Turn} {n : Nat} (h : turn.Asks n) (hmarked : turn.Marked) :
    ∃ rest, turn.outcome =
      turn.table_.resize (n % UINT_MOD) >>= fun table_ => pure (none, rest, table_) := by
  obtain ⟨hoctet, len, hlen, hn⟩ := h
  obtain ⟨h80, h40, h20⟩ := (first_octet_update turn.octet).mp hoctet
  refine ⟨turn.buf.drop len.toNat, ?_⟩
  rw [outcome, parse_field, if_neg h80, if_neg h40, if_pos h20]
  rw [buf] at hn ⊢
  have hbit : ¬ turn.octet &&& 0x02#8 ≠ 0x02#8 := not_not.mpr hmarked
  rw [dynamic_table_resize, if_neg hbit, read_number, hn]
  dsimp only
  rw [if_neg (by omega), ok_bind]
  cases turn.table_.resize (n % UINT_MOD) <;> rfl

theorem outcome_of_unmarked {turn : Turn} {n : Nat} (h : turn.Asks n) (hmarked : ¬ turn.Marked) :
    turn.outcome = .error (.logic_error "Not a dynamic table size update message") := by
  obtain ⟨h80, h40, h20⟩ := (first_octet_update turn.octet).mp h.1
  have hbit : turn.octet &&& 0x02#8 ≠ 0x02#8 := hmarked
  rw [outcome, parse_field, if_neg h80, if_neg h40, if_pos h20, buf, dynamic_table_resize,
    if_pos hbit]
  rfl

/-- What a turn can do to the table. -/
theorem after_cases (turn : Turn) :
    turn.after = turn.table_ ∨
      (∃ header, turn.Inserts header ∧ turn.after = turn.table_.insert header) ∨
      ∃ n, turn.Asks n ∧ turn.Marked ∧ turn.table_.resize (n % UINT_MOD) = .ok turn.after := by
  unfold after
  rcases hout : turn.outcome with e | ⟨header, rest, table'⟩
  · exact .inl rfl
  · dsimp only
    rw [outcome] at hout
    cases parse_field_read hout with
    | indexed => exact .inl rfl
    | incremental hoctet hliteral => exact .inr (.inl ⟨_, ⟨hoctet, _, hliteral⟩, rfl⟩)
    | update hoctet hmarked hnumber hresize =>
        exact .inr (.inr ⟨_, ⟨hoctet, decode_number_of_read hnumber⟩, hmarked, hresize⟩)
    | never_indexed => exact .inl rfl
    | without_indexing => exact .inl rfl

end Turn

/-! ## The limit -/

/-- The table of a decoder all of whose turns kept the limit. -/
structure AtLimit (table_ : DynamicTable) : Prop where
  size_octets : table_.size_octets_ = header_table_size
  total_le : total entrySize table_.table_ ≤ header_table_size

theorem AtLimit.insert_iff {t : DynamicTable} (h : AtLimit t) (header : Header) :
    total entrySize (t.insert header).table_ ≤ header_table_size ↔
      (UINT_MOD ≤ entrySize header → header_table_size < header.hpack_size) := by
  have htotal := h.total_le
  have hlimit : header_table_size < UINT_MOD := by
    rw [header_table_size, UINT_MOD]
    omega
  by_cases hover : UINT_MOD ≤ entrySize header
  · simp only [hover, true_imp_iff]
    rw [DynamicTable.insert, h.size_octets]
    by_cases hlarge : header_table_size < header.hpack_size
    · simp [hlarge]
    · -- the overflown header goes into the table
      simp only [hlarge, if_false, iff_false, total_cons]
      omega
  · simp only [hover, false_imp_iff, iff_true]
    by_cases hsum : entrySize header + total entrySize t.table_ < UINT_MOD
    · rw [DynamicTable.insert_table t header hsum, h.size_octets]
      by_cases hfits : entrySize header ≤ header_table_size
      · have := total_keep_le entrySize (header_table_size - entrySize header) t.table_
        rw [if_pos hfits, total_cons]
        omega
      · simp [hfits]
    · -- too large for the table
      have hsize : header_table_size < header.hpack_size := by
        rw [Header.hpack_size_eq, Nat.mod_eq_of_lt (by omega)]
        rw [header_table_size, UINT_MOD] at *
        omega
      rw [DynamicTable.insert, h.size_octets]
      simp [hsize]

theorem AtLimit.resize {t t' : DynamicTable} (h : AtLimit t) {n : Nat}
    (hn : n ≤ header_table_size) (hresize : t.resize n = .ok t') : AtLimit t' := by
  have htotal := h.total_le
  have hlimit := h.size_octets
  rcases Nat.lt_or_ge n header_table_size with hlt | hge
  · by_cases hfits : total entrySize t.table_ ≤ n
    · rw [DynamicTable.resize_fits (by omega) hfits] at hresize
      cases hresize
      exact h
    · rw [DynamicTable.resize_evicts (by omega) (by rw [header_table_size, UINT_MOD] at *; omega)
        (by omega)] at hresize
      cases hresize
  · rw [DynamicTable.resize_of_le (by omega)] at hresize
    cases hresize
    exact ⟨Nat.le_antisymm hn hge, htotal⟩

/-- A size update that is read is carried out, or trips the assertion. -/
theorem AtLimit.not_rejected {turn : Turn} (h : AtLimit turn.table_) {n : Nat} (hasks : turn.Asks n)
    (hmarked : turn.Marked) : ¬ turn.Rejected := by
  obtain ⟨rest, hout⟩ := Turn.outcome_of_asks hasks hmarked
  rintro ⟨e, he, haborts⟩
  rw [hout, aborts_bind_pure] at haborts
  rw [hout] at he
  have htotal := h.total_le
  have hlimit := h.size_octets
  rcases Nat.lt_or_ge (n % UINT_MOD) header_table_size with hlt | hge
  · by_cases hfits : total entrySize turn.table_.table_ ≤ n % UINT_MOD
    · rw [DynamicTable.resize_fits (by omega) hfits] at he
      cases he
    · rw [DynamicTable.resize_evicts (by omega) (by rw [header_table_size, UINT_MOD] at *; omega)
        (by omega)] at haborts
      cases haborts
  · rw [DynamicTable.resize_of_le (by omega)] at he
    cases he

/-- A table at its limit is so behind a turn, too. -/
theorem AtLimit.turn {turn : Turn} (h : AtLimit turn.table_) :
    (turn.Bounded ↔ turn.WithinLimit) ∧ (turn.WithinLimit → AtLimit turn.after) := by
  have hafter : turn.WithinLimit → AtLimit turn.after := by
    rintro ⟨hupdate, hinsert⟩
    rcases turn.after_cases with heq | ⟨header, hins, heq⟩ | ⟨n, hasks, hmarked, hresize⟩
    · rwa [heq]
    · rw [heq]
      refine ⟨?_, (h.insert_iff header).mpr (hinsert header hins)⟩
      rw [DynamicTable.insert_size_octets, h.size_octets]
    · have hn := hupdate n hasks hmarked
      rw [Nat.mod_eq_of_lt (by rw [header_table_size, UINT_MOD] at *; omega)] at hresize
      exact h.resize hn hresize
  refine ⟨⟨?_, fun hright => ⟨(hafter hright).total_le, ?_⟩⟩, hafter⟩
  · rintro ⟨hle, hrejects⟩
    refine ⟨fun n hasks hmarked => ?_, fun header hins => ?_⟩
    · by_contra hn
      exact h.not_rejected hasks hmarked (hrejects n hasks (by omega))
    · obtain ⟨rest, hout⟩ := Turn.outcome_of_inserts hins
      rw [Turn.after, hout] at hle
      exact (h.insert_iff header).mp hle
  · intro n hasks hn
    by_cases hmarked : turn.Marked
    · exact absurd (hright.1 n hasks hmarked) (by omega)
    · rw [Turn.Rejected, Turn.outcome_of_unmarked hasks hmarked]
      exact ⟨_, rfl, rfl⟩

/-- The table stays within what the server advertised, and size updates beyond
it are rejected, exactly when every turn keeps the limit. -/
theorem table_bounded_iff (blocks : List Bytes) :
    (∀ turn ∈ decode_turns {} blocks, turn.Bounded) ↔
      ∀ turn ∈ decode_turns {} blocks, turn.WithinLimit := by
  have hstep : ∀ turn : Turn, AtLimit turn.table_ →
      (turn.Bounded ↔ turn.WithinLimit) ∧ (turn.WithinLimit → AtLimit turn.after) :=
    fun _ h => h.turn
  exact decode_turns_iff hstep ⟨rfl, Nat.zero_le _⟩

/-- A size update to 4097 octets is accepted. -/
theorem table_unbounded :
    ¬ ∀ blocks : List Bytes, ∀ turn ∈ decode_turns {} blocks, turn.Bounded := by
  intro h
  have hturn := h [[0x3f#8, 0xe2#8, 0x1f#8]] _ (List.mem_cons_self ..)
  obtain ⟨e, he, -⟩ := hturn.2 4097 ⟨rfl, 3, by omega, rfl⟩ (by decide)
  cases he

end Shitty.Hpack
