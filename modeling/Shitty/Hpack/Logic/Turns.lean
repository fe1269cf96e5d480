import Shitty.Hpack.Logic.Table
import Shitty.Hpack.Decoder

/-!
# The turns of a decoder

What one `HeaderDecoder` does on a sequence of blocks, turn by turn. Behind an exception
it goes on with the next block; a failed assertion ends the process. A property of all
turns is read off the sequence, and what a turn does to the table is one of three
things: it inserts a field, it changes the limit, or it leaves the table alone.
-/

namespace Shitty.Hpack

open Lib.Eviction

/-! ## Blocks and turns -/

/-- The process ends at a failed `assert`. -/
def aborts {α : Type} : Except Exn α → Bool
  | .error (.assertion _) => true
  | _ => false

/-- What `parseHeaders` returns or throws for each block, up to an abort. -/
def decode_blocks : DynamicTable → List Bytes → List (Except Exn (List Header))
  | _, [] => []
  | table_, block :: blocks =>
      (parseHeaders table_ block).1 ::
        if aborts (parseHeaders table_ block).1 then []
        else decode_blocks (parseHeaders table_ block).2 blocks

/-- A turn of the loop of `parseHeaders`: the decoder's table, and the block left. -/
structure Turn where
  table_ : DynamicTable
  octet : Octet
  rest : Bytes

namespace Turn

def buf (turn : Turn) : Bytes := turn.octet :: turn.rest

def outcome (turn : Turn) : Except Exn (Option Header × Bytes × DynamicTable) :=
  parse_field turn.table_ turn.octet turn.buf

/-- The decoder's table behind the turn. -/
def after (turn : Turn) : DynamicTable :=
  match turn.outcome with
  | .ok (_, _, table_) => table_
  | .error _ => turn.table_

end Turn

/-- The turns taken on a block. -/
def parse_turns : (turns : Nat) → DynamicTable → Bytes → List Turn
  | _, _, [] => []
  | 0, _, _ :: _ => []
  | turns + 1, table_, octet :: rest =>
      ⟨table_, octet, rest⟩ ::
        match parse_field table_ octet (octet :: rest) with
        | .error _ => []
        | .ok (_, buf, table_) => parse_turns turns table_ buf

/-- The turns taken on a sequence of blocks, up to an abort. -/
def decode_turns : DynamicTable → List Bytes → List Turn
  | _, [] => []
  | table_, block :: blocks =>
      parse_turns block.length table_ block ++
        if aborts (parseHeaders table_ block).1 then []
        else decode_turns (parseHeaders table_ block).2 blocks

/-! ## From one turn to all of them -/

/-- What each turn keeps, as long as it is right, holds behind a block all of
whose turns are. -/
theorem parse_loop_invariant {Inv : DynamicTable → Prop} {Right : Turn → Prop}
    (hstep : ∀ turn : Turn, Inv turn.table_ → Right turn → Inv turn.after) :
    ∀ {turns : Nat} {table_ : DynamicTable} {buf : Bytes} (headers : List Header), Inv table_ →
      (∀ turn ∈ parse_turns turns table_ buf, Right turn) →
      Inv (parse_loop turns table_ buf headers).2 := by
  intro turns
  induction turns with
  | zero =>
      intro table_ buf headers h0 _
      cases buf <;> exact h0
  | succ turns ih =>
      intro table_ buf headers h0 hall
      cases buf with
      | nil => exact h0
      | cons octet rest =>
          have hafter := hstep ⟨table_, octet, rest⟩ h0 (hall _ (List.mem_cons_self ..))
          rw [parse_loop]
          unfold Turn.after Turn.outcome Turn.buf at hafter
          rw [parse_turns] at hall
          rcases hfield : parse_field table_ octet (octet :: rest) with e | ⟨header, buf, table'⟩
          · exact h0
          · rw [hfield] at hafter hall
            exact ih _ hafter fun turn hturn => hall turn (List.mem_cons_of_mem _ hturn)

/-- A property of turns holds of all exactly when each is right, if that is so
for a turn from a table that right turns have led to. -/
theorem parse_turns_iff {Inv : DynamicTable → Prop} {P Right : Turn → Prop}
    (hstep : ∀ turn : Turn, Inv turn.table_ →
      (P turn ↔ Right turn) ∧ (Right turn → Inv turn.after)) :
    ∀ {turns : Nat} {table_ : DynamicTable} {buf : Bytes}, Inv table_ →
      ((∀ turn ∈ parse_turns turns table_ buf, P turn) ↔
        ∀ turn ∈ parse_turns turns table_ buf, Right turn) := by
  intro turns
  induction turns with
  | zero =>
      intro table_ buf _
      cases buf <;> simp [parse_turns]
  | succ turns ih =>
      intro table_ buf h0
      cases buf with
      | nil => simp [parse_turns]
      | cons octet rest =>
          obtain ⟨hiff, hafter⟩ := hstep ⟨table_, octet, rest⟩ h0
          unfold Turn.after Turn.outcome Turn.buf at hafter
          rw [parse_turns]
          rcases hfield : parse_field table_ octet (octet :: rest) with e | ⟨header, buf, table'⟩
          · simp [hiff]
          · rw [hfield] at hafter
            simp only [List.forall_mem_cons, hiff]
            exact and_congr_right fun hright => ih (hafter hright)

theorem decode_turns_iff {Inv : DynamicTable → Prop} {P Right : Turn → Prop}
    (hstep : ∀ turn : Turn, Inv turn.table_ →
      (P turn ↔ Right turn) ∧ (Right turn → Inv turn.after)) :
    ∀ {blocks : List Bytes} {table_ : DynamicTable}, Inv table_ →
      ((∀ turn ∈ decode_turns table_ blocks, P turn) ↔
        ∀ turn ∈ decode_turns table_ blocks, Right turn) := by
  intro blocks
  induction blocks with
  | nil =>
      intro table_ _
      simp [decode_turns]
  | cons block blocks ih =>
      intro table_ h0
      rw [decode_turns]
      simp only [List.mem_append, or_imp, forall_and]
      rw [parse_turns_iff hstep h0]
      refine and_congr_right fun hright => ?_
      -- the turns of the block have led to the next one's table
      have hnext := parse_loop_invariant (fun turn hinv hr => (hstep turn hinv).2 hr) [] h0 hright
      split
      · simp
      · exact ih hnext

/-- A block ends in an abort exactly when one of its turns does. -/
theorem parse_loop_aborts_iff :
    ∀ {turns : Nat} {table_ : DynamicTable} {buf : Bytes} (headers : List Header),
      aborts (parse_loop turns table_ buf headers).1 = false ↔
        ∀ turn ∈ parse_turns turns table_ buf, aborts turn.outcome = false := by
  intro turns
  induction turns with
  | zero =>
      intro table_ buf headers
      cases buf <;> simp [parse_turns, parse_loop, aborts]
  | succ turns ih =>
      intro table_ buf headers
      cases buf with
      | nil => simp [parse_turns, parse_loop, aborts]
      | cons octet rest =>
          rw [parse_loop, parse_turns]
          simp only [List.forall_mem_cons]
          rw [Turn.outcome, Turn.buf]
          rcases hfield : parse_field table_ octet (octet :: rest) with e | ⟨header, buf, table'⟩
          · cases e <;> simp [aborts]
          · simp only [ih]
            simp [aborts]

theorem decode_blocks_aborts_iff :
    ∀ {blocks : List Bytes} {table_ : DynamicTable},
      (∀ outcome ∈ decode_blocks table_ blocks, aborts outcome = false) ↔
        ∀ turn ∈ decode_turns table_ blocks, aborts turn.outcome = false := by
  intro blocks
  induction blocks with
  | nil =>
      intro table_
      simp [decode_blocks, decode_turns]
  | cons block blocks ih =>
      intro table_
      rw [decode_blocks, decode_turns]
      simp only [List.forall_mem_cons, List.mem_append, or_imp, forall_and]
      rw [parseHeaders, parse_loop_aborts_iff, ← parseHeaders]
      refine and_congr_right fun _ => ?_
      split
      · simp
      · exact ih

/-! ## What a turn does -/

namespace Turn

/-- The turn reads a dynamic table size update (RFC 7541 section 6.3) to `n`. -/
def Asks (turn : Turn) (n : Nat) : Prop :=
  turn.octet &&& 0xe0#8 = 0x20#8 ∧ ∃ len, 1 ≤ len ∧ decode_number turn.buf 5 = (len, n)

/-- The bit `dynamic_table_resize` wants in the first octet. -/
def Marked (turn : Turn) : Prop := turn.octet &&& 0x02#8 = 0x02#8

/-- The turn reads a literal with incremental indexing. -/
def Inserts (turn : Turn) (header : Header) : Prop :=
  turn.octet &&& 0xc0#8 = 0x40#8 ∧ ∃ rest, decode_literal turn.table_ turn.buf 6 = .ok (header, rest)

end Turn

theorem first_octet_update (octet : Octet) :
    octet &&& 0xe0#8 = 0x20#8 ↔
      ¬ octet &&& 0x80#8 ≠ 0#8 ∧ ¬ octet &&& 0x40#8 ≠ 0#8 ∧ octet &&& 0x20#8 ≠ 0#8 := by
  revert octet
  decide +kernel

theorem first_octet_incremental (octet : Octet) :
    octet &&& 0xc0#8 = 0x40#8 ↔ ¬ octet &&& 0x80#8 ≠ 0#8 ∧ octet &&& 0x40#8 ≠ 0#8 := by
  revert octet
  decide +kernel

/-- What a turn that throws nothing has read, and what it leaves. -/
inductive FieldRead (table_ : DynamicTable) (octet : Octet) (rest : Bytes) :
    Option Header → Bytes → DynamicTable → Prop where
  | indexed {idx : Nat} {number behind : Bytes} {what : String} {entry : Header} :
      read_number (octet :: rest) 7 what = .ok (idx, number, behind) →
      HeaderTable.get table_ (idx % UINT_MOD) = .ok entry →
      FieldRead table_ octet rest (some entry) behind table_
  | incremental {behind : Bytes} {entry : Header} :
      octet &&& 0xc0#8 = 0x40#8 → decode_literal table_ (octet :: rest) 6 = .ok (entry, behind) →
      FieldRead table_ octet rest (some entry) behind (table_.insert entry)
  | update {n : Nat} {number behind : Bytes} {what : String} {resized : DynamicTable} :
      octet &&& 0xe0#8 = 0x20#8 → octet &&& 0x02#8 = 0x02#8 →
      read_number (octet :: rest) 5 what = .ok (n, number, behind) →
      table_.resize (n % UINT_MOD) = .ok resized → FieldRead table_ octet rest none behind resized
  | never_indexed {behind : Bytes} {entry : Header} :
      decode_literal table_ (octet :: rest) 4 = .ok (entry, behind) →
      FieldRead table_ octet rest (some { entry with never_indexed := true }) behind table_
  | without_indexing {behind : Bytes} {entry : Header} :
      decode_literal table_ (octet :: rest) 4 = .ok (entry, behind) →
      FieldRead table_ octet rest (some entry) behind table_

theorem dynamic_table_resize_read {table_ resized : DynamicTable} {octet : Octet}
    {rest behind : Bytes}
    (h : dynamic_table_resize table_ (octet :: rest) = .ok (behind, resized)) :
    octet &&& 0x02#8 = 0x02#8 ∧ ∃ n number what,
      read_number (octet :: rest) 5 what = .ok (n, number, behind) ∧
        table_.resize (n % UINT_MOD) = .ok resized := by
  rw [dynamic_table_resize] at h
  by_cases hmarked : octet &&& 0x02#8 ≠ 0x02#8
  · rw [if_pos hmarked] at h
    cases h
  · rw [if_neg hmarked] at h
    obtain ⟨⟨n, number, behind'⟩, hnumber, h⟩ := bind_eq_ok.mp h
    obtain ⟨resized', hresize, h⟩ := bind_eq_ok.mp h
    cases h
    exact ⟨not_not.mp hmarked, n, number, _, hnumber, hresize⟩

theorem parse_field_read {table_ table' : DynamicTable} {octet : Octet} {rest behind : Bytes}
    {header : Option Header}
    (h : parse_field table_ octet (octet :: rest) = .ok (header, behind, table')) :
    FieldRead table_ octet rest header behind table' := by
  rw [parse_field] at h
  by_cases h80 : octet &&& 0x80#8 ≠ 0#8
  · rw [if_pos h80] at h
    obtain ⟨⟨entry, behind'⟩, hindexed, h⟩ := bind_eq_ok.mp h
    cases h
    obtain ⟨⟨idx, number, behind'⟩, hnumber, hindexed⟩ := bind_eq_ok.mp hindexed
    obtain ⟨found, hget, hindexed⟩ := bind_eq_ok.mp hindexed
    cases hindexed
    exact .indexed hnumber hget
  rw [if_neg h80] at h
  by_cases h40 : octet &&& 0x40#8 ≠ 0#8
  · rw [if_pos h40] at h
    obtain ⟨⟨entry, behind', inserted⟩, hincremental, h⟩ := bind_eq_ok.mp h
    cases h
    obtain ⟨⟨literal, behind'⟩, hliteral, hincremental⟩ := bind_eq_ok.mp hincremental
    cases hincremental
    exact .incremental ((first_octet_incremental octet).mpr ⟨h80, h40⟩) hliteral
  rw [if_neg h40] at h
  by_cases h20 : octet &&& 0x20#8 ≠ 0#8
  · rw [if_pos h20] at h
    obtain ⟨⟨behind', resized⟩, hupdate, h⟩ := bind_eq_ok.mp h
    cases h
    obtain ⟨hmarked, n, number, what, hnumber, hresize⟩ := dynamic_table_resize_read hupdate
    exact .update ((first_octet_update octet).mpr ⟨h80, h40, h20⟩) hmarked hnumber hresize
  rw [if_neg h20] at h
  by_cases h10 : octet &&& 0x10#8 ≠ 0#8
  · rw [if_pos h10] at h
    obtain ⟨⟨entry, behind'⟩, hnever, h⟩ := bind_eq_ok.mp h
    cases h
    obtain ⟨⟨literal, behind'⟩, hliteral, hnever⟩ := bind_eq_ok.mp hnever
    cases hnever
    exact .never_indexed hliteral
  · rw [if_neg h10] at h
    obtain ⟨⟨entry, behind'⟩, hwithout, h⟩ := bind_eq_ok.mp h
    cases h
    exact .without_indexing hwithout

/-- The number read, by its length. -/
theorem decode_number_of_read {buf number behind : Bytes} {bits n : Nat} {what : String}
    (h : read_number buf bits what = .ok (n, number, behind)) :
    ∃ len, 1 ≤ len ∧ decode_number buf bits = (len, n) := by
  rw [read_number] at h
  rcases hn : decode_number buf bits with ⟨len, m⟩
  rw [hn] at h
  dsimp only at h
  by_cases hlen : len < 1
  · rw [if_pos hlen] at h
    cases h
  · rw [if_neg hlen] at h
    cases h
    exact ⟨len, by omega, rfl⟩

end Shitty.Hpack
