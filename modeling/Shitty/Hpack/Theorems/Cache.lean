import Shitty.Hpack.Logic.Locality
import Shitty.Hpack.Logic.Turns
import Shitty.Hpack.Theorems.Strings

/-!
# Headers with their literals

Where headers come from, what literals they keep, and when the literals a header has or
makes are those of its name and its value. They come out of the constructors, of blocks
and of tables, and a table gets them from both. Where there is no literal of a value
yet, its accessor makes one of the name.
-/

namespace Shitty.Hpack

/-! ## Where headers come from -/

/-- Headers made from a name and a value, decoded, or taken from a table, and the tables
that have been filled with them. -/
inductive Made : Header ⊕ DynamicTable → Prop
  | construct (name value : Bytes) : Made (.inl { name := name, value := value })
  | new : Made (.inr {})
  | parse {table_ : DynamicTable} (h : Made (.inr table_)) (block : Bytes) :
      Made (.inr (parseHeaders table_ block).2)
  | parsed {table_ : DynamicTable} (h : Made (.inr table_)) (block : Bytes)
      {headers : List Header} (returned : (parseHeaders table_ block).1 = .ok headers)
      {header : Header} (hmem : header ∈ headers) : Made (.inl header)
  | get {table_ : DynamicTable} (h : Made (.inr table_)) (index : Nat) {header : Header}
      (returned : HeaderTable.get table_ index = .ok header) : Made (.inl header)
  | insert {table_ : DynamicTable} (h : Made (.inr table_)) {header : Header}
      (hheader : Made (.inl header)) : Made (.inr (table_.insert header))
  | resize {table_ table' : DynamicTable} (h : Made (.inr table_)) (new_size : Nat)
      (returned : table_.resize new_size = .ok table') : Made (.inr table')

/-- The literals a header keeps are those of its name and its value. -/
structure Paired (h : Header) : Prop where
  name : h.name_encoded ≠ [] → Literal h.name_encoded h.name
  value : h.value_encoded ≠ [] → Literal h.value_encoded h.value

/-- The literals kept by all entries of a table are those of their names and values. -/
def AllPaired (table_ : DynamicTable) : Prop := ∀ entry ∈ table_.table_, Paired entry

/-! ## What the decoder captures -/

/-- The literal captured is what has been taken off the block. -/
theorem decode_string_octets {buf s encoded rest : Bytes}
    (h : decode_string_from_rbuf buf = .ok ((s, encoded), rest)) : buf = encoded ++ rest := by
  cases buf with
  | nil => cases h
  | cons octet tail =>
      rw [decode_string_from_rbuf] at h
      split at h
      · obtain ⟨⟨coded_len, number, behind⟩, hnum, hbehind⟩ := bind_eq_ok.mp h
        obtain ⟨-, hbuf, -⟩ := read_number_local hnum
        simp only at hbehind
        split at hbehind
        · cases hbehind
        · split at hbehind
          · cases hbehind
          · split at hbehind
            · cases hbehind
            · cases hbehind
              rw [hbuf, List.append_assoc, List.take_append_drop]
      · obtain ⟨⟨slen, number, behind⟩, hnum, hbehind⟩ := bind_eq_ok.mp h
        obtain ⟨-, hbuf, -⟩ := read_number_local hnum
        simp only at hbehind
        split at hbehind
        · cases hbehind
        · cases hbehind
          rw [hbuf, List.append_assoc, List.take_append_drop]

/-- What is kept beside a string that has been decoded is a literal of that string. -/
theorem decode_string_captures {buf s encoded rest : Bytes}
    (h : decode_string_from_rbuf buf = .ok ((s, encoded), rest)) : Literal encoded s := by
  obtain ⟨own, -, hbuf, htakes⟩ := decode_string_local _ _ _ h
  have heq := decode_string_octets h
  obtain rfl : own = encoded := List.append_cancel_right (hbuf.symm.trans heq)
  exact htakes

/-- A header made of a name and a value has no literal yet, which is in order. -/
theorem paired_new (name value : Bytes) : Paired { name := name, value := value } :=
  ⟨fun h => absurd rfl h, fun h => absurd rfl h⟩

theorem get_paired {table_ : DynamicTable} (h : AllPaired table_) {index : Nat} {header : Header}
    (hget : HeaderTable.get table_ index = .ok header) : Paired header := by
  unfold HeaderTable.get at hget
  split at hget
  · unfold StaticTable.get at hget
    split at hget
    · cases hget
    · cases hget
      exact paired_new _ _
  · unfold DynamicTable.get at hget
    split at hget
    · cases hget
    · split at hget
      · rename_i entry hentry
        cases hget
        exact h _ (List.mem_of_getElem? hentry)
      · cases hget

theorem decode_literal_paired {table_ : DynamicTable} (h : AllPaired table_) {buf rest : Bytes}
    {bits : Nat} {header : Header}
    (hdecode : decode_literal table_ buf bits = .ok (header, rest)) : Paired header := by
  obtain ⟨⟨idx, number, behind⟩, -, hliteral⟩ := bind_eq_ok.mp hdecode
  simp only at hliteral
  split at hliteral
  · -- the name of an entry, with the literal the entry has of it
    obtain ⟨entry, hget, hliteral⟩ := bind_eq_ok.mp hliteral
    obtain ⟨⟨⟨value, encoded⟩, behind'⟩, hvalue, hliteral⟩ := bind_eq_ok.mp hliteral
    cases hliteral
    exact ⟨(get_paired h hget).name, fun _ => decode_string_captures hvalue⟩
  · obtain ⟨⟨⟨name, name_encoded⟩, behind'⟩, hname, hliteral⟩ := bind_eq_ok.mp hliteral
    obtain ⟨⟨⟨value, value_encoded⟩, behind''⟩, hvalue, hliteral⟩ := bind_eq_ok.mp hliteral
    cases hliteral
    exact ⟨fun _ => decode_string_captures hname, fun _ => decode_string_captures hvalue⟩

/-! ## Tables -/

theorem pop_back_while_subset (too_large : List Header → Bool) : ∀ (n : Nat) (l : List Header),
    pop_back_while too_large n l ⊆ l := by
  intro n
  induction n with
  | zero => exact fun l => List.Subset.refl l
  | succ n ih =>
      intro l
      unfold pop_back_while
      split
      · exact fun header hmem => List.dropLast_subset l (ih l.dropLast hmem)
      · exact List.Subset.refl l

theorem insert_paired {table_ : DynamicTable} (h : AllPaired table_) {header : Header}
    (hheader : Paired header) : AllPaired (table_.insert header) := by
  unfold DynamicTable.insert
  simp only
  split
  · intro entry hmem
    cases hmem
  · intro entry hmem
    rcases List.mem_cons.mp hmem with rfl | hmem
    · exact hheader
    · exact h entry (pop_back_while_subset _ _ _ hmem)

theorem resize_paired {table_ table' : DynamicTable} (h : AllPaired table_) {new_size : Nat}
    (hresize : table_.resize new_size = .ok table') : AllPaired table' := by
  unfold DynamicTable.resize at hresize
  split at hresize
  · cases hresize
    exact h
  · split at hresize
    · cases hresize
      exact h
    · obtain ⟨nremove, -, hresize⟩ := bind_eq_ok.mp hresize
      cases hresize
      exact fun entry hmem => h entry (List.mem_of_mem_take hmem)

/-! ## Blocks -/

theorem parse_field_paired {table_ table' : DynamicTable} (h : AllPaired table_) {octet : Octet}
    {rest behind : Bytes} {header : Option Header}
    (hfield : parse_field table_ octet (octet :: rest) = .ok (header, behind, table')) :
    (∀ entry ∈ header, Paired entry) ∧ AllPaired table' := by
  cases parse_field_read hfield with
  | indexed hnumber hget => exact ⟨fun entry hmem => by cases hmem; exact get_paired h hget, h⟩
  | incremental hoctet hliteral =>
      have hpaired := decode_literal_paired h hliteral
      exact ⟨fun entry hmem => by cases hmem; exact hpaired, insert_paired h hpaired⟩
  | update hoctet hmarked hnumber hresize =>
      refine ⟨fun entry hmem => ?_, resize_paired h hresize⟩
      cases hmem
  | never_indexed hliteral =>
      have hpaired := decode_literal_paired h hliteral
      exact ⟨fun entry hmem => by cases hmem; exact ⟨hpaired.name, hpaired.value⟩, h⟩
  | without_indexing hliteral =>
      exact ⟨fun entry hmem => by cases hmem; exact decode_literal_paired h hliteral, h⟩

theorem parse_loop_paired (turns : Nat) : ∀ {table_ : DynamicTable} {buf : Bytes}
    {headers : List Header}, AllPaired table_ → (∀ header ∈ headers, Paired header) →
      (∀ result, (parse_loop turns table_ buf headers).1 = .ok result →
        ∀ header ∈ result, Paired header) ∧ AllPaired (parse_loop turns table_ buf headers).2 := by
  induction turns with
  | zero =>
      intro table_ buf headers h hheaders
      cases buf with
      | nil => exact ⟨fun result hresult => by cases hresult; exact hheaders, h⟩
      | cons octet rest => exact ⟨fun result hresult => by cases hresult; exact hheaders, h⟩
  | succ turns ih =>
      intro table_ buf headers h hheaders
      cases buf with
      | nil => exact ⟨fun result hresult => by cases hresult; exact hheaders, h⟩
      | cons octet rest =>
          rw [parse_loop]
          cases hfield : parse_field table_ octet (octet :: rest) with
          | error e => exact ⟨fun result hresult => (by cases hresult), h⟩
          | ok found =>
              obtain ⟨header, behind, table'⟩ := found
              obtain ⟨hheader, htable⟩ := parse_field_paired h hfield
              refine ih htable fun entry hmem => ?_
              rcases List.mem_append.mp hmem with hmem | hmem
              · exact hheaders entry hmem
              · exact hheader entry (Option.mem_toList.mp hmem)

theorem parseHeaders_paired {table_ : DynamicTable} (h : AllPaired table_) (block : Bytes) :
    (∀ headers, (parseHeaders table_ block).1 = .ok headers → ∀ header ∈ headers, Paired header) ∧
      AllPaired (parseHeaders table_ block).2 :=
  parse_loop_paired block.length h fun header hmem => by cases hmem

/-- What has been made keeps no wrong literal. -/
theorem Made.paired {x : Header ⊕ DynamicTable} (h : Made x) :
    Sum.elim Paired AllPaired x := by
  induction h with
  | construct name value => exact paired_new name value
  | new => exact fun entry hmem => by cases hmem
  | parse _ block ih => exact (parseHeaders_paired ih block).2
  | parsed _ block returned hmem ih => exact (parseHeaders_paired ih block).1 _ returned _ hmem
  | get _ index returned ih => exact get_paired ih returned
  | insert _ _ ih ihheader => exact insert_paired ih ihheader
  | resize _ new_size returned ih => exact resize_paired ih returned

/-! ## The accessors -/

/-- `name_encoded()` and `value_encoded()` are literals of the name and the value, whatever
is in the local arrays of the encoder. -/
def EncodingsAgree (h : Header) : Prop :=
  ∀ raws_length_prefix₀ encoded_number,
    (∃ encoded kept, h.get_name_encoded raws_length_prefix₀ encoded_number = .ok (encoded, kept) ∧
      Literal encoded h.name) ∧
    ∃ encoded kept, h.get_value_encoded raws_length_prefix₀ encoded_number = .ok (encoded, kept) ∧
      Literal encoded h.value

/-- A string that is not shorter raw. -/
def CodesShorter (s : Bytes) : Prop :=
  (rawLength s < UINT_MOD ∧ codedLength s ≤ rawLength s) ∨
    (codedLength s ≤ s.length ∧ huffmanLength s * 8 < UINTMAX_MOD)

theorem codesShorter_iff (s : Bytes) :
    CodesShorter s ↔ ∀ raws_length_prefix₀, Sound raws_length_prefix₀ s := by
  constructor
  · rintro (⟨hsmall, hle⟩ | hcoded) octets
    · exact .inl ⟨hsmall, .inl hle⟩
    · exact .inr hcoded
  · intro h
    rcases h (fun _ => 0xff#8) with ⟨hsmall, hle | ⟨hbit, -⟩⟩ | hcoded
    · exact .inl ⟨hsmall, hle⟩
    · exact absurd hbit (by decide)
    · exact .inr hcoded

theorem Literal.unique {encoded s v : Bytes} (h : Literal encoded s) (h' : Literal encoded v) :
    s = v := by
  have heq := (h []).symm.trans (h' [])
  cases heq
  rfl

/-- What `hpack_encode_string` makes of a string is a literal of that string only. -/
theorem encodes_as_iff (s v : Bytes) :
    (∀ raws_length_prefix₀ encoded_number, ∃ encoded,
      hpack_encode_string raws_length_prefix₀ encoded_number s = .ok encoded ∧ Literal encoded v) ↔
      s = v ∧ CodesShorter s := by
  constructor
  · intro h
    -- with the bit clear, the literal is one of the string itself
    have hself : s = v := by
      obtain ⟨encoded, henc, hliteral⟩ := h (fun _ => 0) (fun _ => 0)
      have hencodes := hpack_encode_string_encodes (fun _ => 0) (fun _ => 0) s
      rw [henc] at hencodes
      cases hencodes with
      | coded takes body coding =>
          have hnil := hliteral []
          rw [List.append_nil] at hnil
          exact ((coded_round_trip_iff coding takes).mpr (coded_decodes coding takes hnil)).unique
            hliteral
      | raw takes => exact ((raw_round_trip_iff takes).mpr (by decide)).unique hliteral
    subst hself
    exact ⟨rfl, (codesShorter_iff s).mpr fun octets =>
      (string_round_trip_iff octets (fun _ => 0) s).mp (h octets fun _ => 0)⟩
  · rintro ⟨rfl, hshorter⟩ octets number
    exact (string_round_trip_iff octets number s).mpr ((codesShorter_iff s).mp hshorter octets)

/-- A literal that is not there yet is made of the name. -/
theorem encodings_agree_iff {h : Header} (hmade : Made (.inl h)) :
    EncodingsAgree h ↔
      (h.name_encoded ≠ [] ∨ CodesShorter h.name) ∧
        (h.value_encoded ≠ [] ∨ (h.name = h.value ∧ CodesShorter h.name)) := by
  have hpaired : Paired h := hmade.paired
  -- the name and the value are looked at one by one
  have hname : (∀ raws_length_prefix₀ encoded_number, ∃ encoded kept,
      h.get_name_encoded raws_length_prefix₀ encoded_number = .ok (encoded, kept) ∧
        Literal encoded h.name) ↔ h.name_encoded ≠ [] ∨ CodesShorter h.name := by
    by_cases hkept : h.name_encoded ≠ []
    · refine iff_of_true (fun octets number => ?_) (.inl hkept)
      exact ⟨h.name_encoded, h, if_pos hkept, hpaired.name hkept⟩
    · rw [or_iff_right hkept, show CodesShorter h.name ↔ h.name = h.name ∧ CodesShorter h.name from
        (and_iff_right rfl).symm, ← encodes_as_iff]
      refine forall_congr' fun octets => forall_congr' fun number => ?_
      unfold Header.get_name_encoded
      rw [if_neg hkept]
      cases hpack_encode_string octets number h.name <;> simp
  have hvalue : (∀ raws_length_prefix₀ encoded_number, ∃ encoded kept,
      h.get_value_encoded raws_length_prefix₀ encoded_number = .ok (encoded, kept) ∧
        Literal encoded h.value) ↔
          h.value_encoded ≠ [] ∨ (h.name = h.value ∧ CodesShorter h.name) := by
    by_cases hkept : h.value_encoded ≠ []
    · refine iff_of_true (fun octets number => ?_) (.inl hkept)
      exact ⟨h.value_encoded, h, if_pos hkept, hpaired.value hkept⟩
    · rw [or_iff_right hkept, ← encodes_as_iff]
      refine forall_congr' fun octets => forall_congr' fun number => ?_
      unfold Header.get_value_encoded
      rw [if_neg hkept]
      cases hpack_encode_string octets number h.name <;> simp
  rw [← hname, ← hvalue]
  exact ⟨fun hall => ⟨fun octets number => (hall octets number).1,
    fun octets number => (hall octets number).2⟩, fun hboth octets number =>
    ⟨hboth.1 octets number, hboth.2 octets number⟩⟩

/-- The name and the value of `a: a` are the same, and Huffman-coded. -/
theorem encodings_agree_same :
    EncodingsAgree { name := octets "a", value := octets "a" } := by
  have hshorter : CodesShorter (octets "a") := .inl (by decide +kernel)
  exact (encodings_agree_iff (.construct (octets "a") (octets "a"))).mpr
    ⟨.inr hshorter, .inr ⟨rfl, hshorter⟩⟩

/-- Entry 2 of the static table is `:method: GET`. Its value is encoded as `:method`. -/
theorem static_value_encoded :
    ∃ h, HeaderTable.get {} 2 = .ok h ∧ h.name = octets ":method" ∧ h.value = octets "GET" ∧
      ¬ EncodingsAgree h := by
  refine ⟨{ name := octets ":method", value := octets "GET" }, rfl, rfl, rfl, fun hagrees => ?_⟩
  have hnames : octets ":method" = octets "GET" ∧ CodesShorter (octets ":method") := by
    refine (encodes_as_iff (octets ":method") (octets "GET")).mp fun octets number => ?_
    obtain ⟨encoded, kept, hencoded, hliteral⟩ := (hagrees octets number).2
    obtain ⟨own, hown, hreturn⟩ := bind_eq_ok.mp hencoded
    cases hreturn
    exact ⟨_, hown, hliteral⟩
  exact absurd hnames.1 (by decide)

end Shitty.Hpack
