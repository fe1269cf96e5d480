import Shitty.Hpack.Theorems.Acceptance

/-!
# Header indices

An index is read as a `uintmax_t` and looked up as an `unsigned`. It resolves as the
number it is exactly when its remainder by 2^32 names the same entry, or none as well.
Below 2^32 that is always so. Above, an index may name an entry by its remainder, where
it names none as the number that it is, and the field is taken for another one.
-/

namespace Shitty.Hpack

/-! ## The entry of an index -/

/-- `Header(name, value)` of an entry of the static table. -/
def staticHeader (entry : String × String) : Header :=
  { name := octets entry.1, value := octets entry.2 }

/-- The static entry of an index from 1 to 61, the dynamic entry of one from 62. -/
def entryOf (table_ : DynamicTable) (index : Nat) : Option Header :=
  if index = 0 then none
  else if index < start_ then static_table[index]?.map staticHeader
  else table_.table_[index - start_]?

theorem entryOf_isSome_iff (table_ : DynamicTable) (index : Nat) :
    (entryOf table_ index).isSome ↔ 1 ≤ index ∧ index ≤ 61 + table_.table_.length := by
  have hlength : static_table.length = 62 := rfl
  unfold entryOf start_
  split
  · simp
    omega
  · split
    · simp
      omega
    · simp
      omega

theorem get_eq_ok_iff {table_ : DynamicTable} {index : Nat} {h : Header} :
    HeaderTable.get table_ index = .ok h ↔ entryOf table_ index = some h := by
  have hlength : static_table.length = 62 := rfl
  unfold HeaderTable.get StaticTable.get DynamicTable.get entryOf start_
  by_cases hstatic : index < 62
  · by_cases hzero : index = 0
    · simp [hzero]
    · have hentry : static_table[index]? = some (static_table.getD index ("", "")) := by
        rw [List.getD_eq_getElem?_getD, List.getElem?_eq_getElem (by omega), Option.getD_some]
      rw [if_pos hstatic, if_neg (by omega), if_neg hzero, if_pos hstatic, hentry]
      simp [staticHeader]
  · rw [if_neg hstatic, if_neg hstatic, if_neg (by omega), if_neg hstatic]
    cases table_.table_[index - 62]? <;> simp

/-- An index that names no entry throws. -/
theorem get_eq_error {table_ : DynamicTable} {index : Nat} (h : entryOf table_ index = none) :
    ∃ e, HeaderTable.get table_ index = .error e := by
  cases hget : HeaderTable.get table_ index with
  | error e => exact ⟨e, rfl⟩
  | ok header =>
      rw [get_eq_ok_iff.mp hget] at h
      cases h

/-! ## Fields with an index -/

/-- What a decoder returns when it has looked up the entry it should: what `field`
makes of the entry, or an exception without one. -/
def Resolves {α : Type} (entry : Option Header) (outcome : Except Exn α)
    (field : Header → Except Exn α) : Prop :=
  match entry with
  | some h => outcome = field h
  | none => ∃ e, outcome = .error e

/-- Every field with that index, however the index is encoded and whatever follows,
resolves to the entry of the index. -/
structure ResolvesRight (table_ : DynamicTable) (index : Nat) : Prop where
  indexed : ∀ number rest, decode_number number 7 = ((number.length : Int), index) →
    Resolves (entryOf table_ index) (decode_indexed table_ (number ++ rest))
      fun h => .ok (h, rest)
  literal : ∀ number rest bits, bits = 4 ∨ bits = 6 → index ≠ 0 →
    decode_number number bits = ((number.length : Int), index) →
      Resolves (entryOf table_ index) (decode_literal table_ (number ++ rest) bits) fun h => do
        let (value, rest) ← decode_string_from_rbuf rest
        return (h.set_value value.1 value.2, rest)

/-- Octets that are a number and nothing else are read as that number. -/
theorem read_number_whole {number : Bytes} {bits index : Nat}
    (h : decode_number number bits = ((number.length : Int), index)) (rest : Bytes) (what : String) :
    read_number (number ++ rest) bits what = .ok (index, number, rest) := by
  have hpos : 1 ≤ (number.length : Int) := by
    cases number with
    | nil => simp [decode_number, PROTOCOL_ERROR] at h
    | cons octet number => simp
  obtain ⟨own, behind, hown, hlen, hmore⟩ := decode_number_local hpos h
  obtain rfl : behind = [] := by
    have := congrArg List.length hown
    rw [List.length_append] at this
    exact List.length_eq_zero_iff.mp (by omega)
  rw [List.append_nil] at hown
  subst hown
  rw [read_number, hmore rest]
  simp only
  rw [if_neg (by omega), Int.toNat_natCast, List.take_left, List.drop_left]

/-- An indexed field gives what `table_.get(idx)` finds, which looks up the remainder modulo
2^32. -/
theorem decode_indexed_number {number : Bytes} {index : Nat}
    (h : decode_number number 7 = ((number.length : Int), index)) (table_ : DynamicTable) (rest : Bytes) :
    Resolves (entryOf table_ (index % UINT_MOD)) (decode_indexed table_ (number ++ rest))
      fun h => .ok (h, rest) := by
  unfold decode_indexed Resolves
  rw [read_number_whole h, ok_bind]
  cases hentry : entryOf table_ (index % UINT_MOD) with
  | none =>
      obtain ⟨e, hget⟩ := get_eq_error hentry
      exact ⟨e, by simp only [hget, error_bind]⟩
  | some header =>
      simp only [get_eq_ok_iff.mpr hentry, ok_bind]
      rfl

theorem decode_literal_number {number : Bytes} {bits index : Nat} (hindex : index ≠ 0)
    (h : decode_number number bits = ((number.length : Int), index)) (table_ : DynamicTable)
    (rest : Bytes) :
    Resolves (entryOf table_ (index % UINT_MOD)) (decode_literal table_ (number ++ rest) bits)
      fun h => do
        let (value, rest) ← decode_string_from_rbuf rest
        return (h.set_value value.1 value.2, rest) := by
  unfold decode_literal decode_literal_indexed Resolves
  rw [read_number_whole h, ok_bind]
  simp only [if_pos hindex]
  cases hentry : entryOf table_ (index % UINT_MOD) with
  | none =>
      obtain ⟨e, hget⟩ := get_eq_error hentry
      exact ⟨e, by simp only [hget, error_bind]⟩
  | some header => simp only [get_eq_ok_iff.mpr hentry, ok_bind]

/-- Of what is returned, the entry can be told. -/
theorem Resolves.entry_eq {entry entry' : Option Header} {outcome : Except Exn (Header × Bytes)}
    {rest : Bytes} (h : Resolves entry outcome fun h => .ok (h, rest))
    (h' : Resolves entry' outcome fun h => .ok (h, rest)) : entry = entry' := by
  unfold Resolves at h h'
  cases entry with
  | none =>
      obtain ⟨e, h⟩ := h
      cases entry' with
      | none => rfl
      | some header' => simp [h] at h'
  | some header =>
      simp only at h
      cases entry' with
      | none =>
          obtain ⟨e, h'⟩ := h'
          simp [h'] at h
      | some header' =>
          simp only [h] at h'
          cases h'
          rfl

/-- Fields with an index resolve to the entry of the index exactly when its low 32
bits name the same entry. -/
theorem resolvesRight_iff {table_ : DynamicTable} {index : Nat} (h : index < UINTMAX_MOD) :
    (ResolvesRight table_ index ↔ entryOf table_ (index % UINT_MOD) = entryOf table_ index) ∧
      ((entryOf table_ index).isSome ↔ 1 ≤ index ∧ index ≤ 61 + table_.table_.length) := by
  refine ⟨?_, entryOf_isSome_iff table_ index⟩
  constructor
  · intro hright
    have hnumber := decode_number_numberOctets (p := 7) 0x80#8 (by omega) h []
    rw [List.append_nil] at hnumber
    exact (decode_indexed_number hnumber table_ []).entry_eq (hright.indexed _ [] hnumber)
  · intro hsame
    refine ⟨fun number rest hnumber => ?_, fun number rest bits _ hindex hnumber => ?_⟩
    · rw [← hsame]
      exact decode_indexed_number hnumber table_ rest
    · rw [← hsame]
      exact decode_literal_number hindex hnumber table_ rest

/-- An index past the end of the table by a multiple of 2^32 is refused. -/
theorem resolvesRight_past_the_end : ResolvesRight {} (2 ^ 32 + 62) :=
  (resolvesRight_iff (by simp [UINTMAX_MOD])).1.mpr rfl

/-- 2^32 + 2 resolves as 2, `:method GET`. -/
theorem index_narrowed :
    ¬ ∀ (table_ : DynamicTable) (index : Nat), index < UINTMAX_MOD → ResolvesRight table_ index := by
  intro h
  have hnumber : decode_number [0xff#8, 0x83#8, 0xff#8, 0xff#8, 0xff#8, 0x0f#8] 7 =
      (6, 2 ^ 32 + 2) := by decide
  have hindexed := (h {} (2 ^ 32 + 2) (by simp [UINTMAX_MOD])).indexed _ [] hnumber
  have hentry := (decode_indexed_number hnumber {} []).entry_eq hindexed
  cases hentry

end Shitty.Hpack
