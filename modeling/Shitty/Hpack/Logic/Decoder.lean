import Shitty.Hpack.Decoder
import Shitty.Hpack.Reference
import Shitty.Hpack.Logic.Table
import Shitty.Hpack.Theorems.Huffman

/-!
# The decoder against the reference

One lemma for each kind of octets a block is made of, whatever follows them: a number, a
string literal, a field. The dynamic table of the code mirrors that of the reference all
along, entry by entry; from there on, one field is read as it denotes, and both tables
stay the same.
-/

namespace Shitty.Hpack

open Lib.Eviction

/-! ## Numbers -/

theorem read_number_numberOctets {p n : Nat} (first : Octet) (hp : 1 ≤ p ∧ p ≤ 8)
    (hn : n < UINTMAX_MOD) (rest : Bytes) (what : String) :
    read_number (numberOctets p first n ++ rest) p what =
      .ok (n, numberOctets p first n, rest) := by
  have hpos := length_numberOctets_pos p first n
  unfold read_number
  rw [decode_number_numberOctets first hp hn]
  simp only
  rw [if_neg (by omega), Int.toNat_natCast, List.take_left, List.drop_left]

/-- A bit of the first octet above the prefix. -/
theorem prefixOctet_and {p m : Nat} {first mask : Octet} (hp : p ≤ 8) (hm : m < 2 ^ p)
    (hmask : mask &&& mask_from_bits p = 0#8) : prefixOctet p first m &&& mask = first &&& mask := by
  apply BitVec.eq_of_getLsbD_eq
  intro j hj
  rw [BitVec.getLsbD_and, BitVec.getLsbD_and]
  by_cases hjp : j < p
  · have hbit := congrArg (fun b => b.getLsbD j) hmask
    simp only [BitVec.getLsbD_and, getLsbD_mask hp, hjp, decide_true, Bool.and_true] at hbit
    rw [hbit]
    simp
  · rw [getLsbD_prefixOctet first hp hm (by omega)]

/-- The first octet of a number, and what a test of it sees. -/
theorem numberOctets_first {p : Nat} (hp : p ≤ 8) (first : Octet) (n : Nat) :
    ∃ octet tail, numberOctets p first n = octet :: tail ∧
      ∀ mask : Octet, mask &&& mask_from_bits p = 0#8 → octet &&& mask = first &&& mask := by
  refine ⟨_, _, numberOctets_cons p first n, ?_⟩
  intro mask hmask
  have hpos := Nat.two_pow_pos p
  exact prefixOctet_and hp (by omega) hmask

theorem Rfc.Name.octets_first (name : Rfc.Name) (pattern : Octet) {width : Nat} (hw : width ≤ 8) :
    ∃ octet tail, name.octets pattern width = octet :: tail ∧
      ∀ mask : Octet, mask &&& mask_from_bits width = 0#8 →
        octet &&& mask = pattern &&& mask := by
  cases name with
  | indexed index => exact numberOctets_first hw pattern index
  | literal name =>
      obtain ⟨octet, tail, hfirst, hmask⟩ := numberOctets_first hw pattern 0
      refine ⟨octet, tail ++ name.octets, ?_, hmask⟩
      rw [Rfc.Name.octets, hfirst, List.cons_append]

/-! ## String literals -/

/-- No code is shorter than five bits. -/
theorem length_encode_ge (l : Bytes) : 5 * l.length ≤ (huffmanCode.encode l).length := by
  induction l with
  | nil => simp
  | cons c l ih =>
      have hb := (encvOf_bounds c).1
      rw [Lib.PrefixCode.encode_cons, List.length_append, List.length_cons]
      change _ ≤ (huffmanWord c).length + _
      rw [length_huffmanWord]
      omega

/-- A coded string is not longer than 8/5 of its octets. -/
theorem HuffmanBody.string_length_le {s body : Bytes} (h : HuffmanBody s body) :
    5 * s.length ≤ 8 * body.length := by
  obtain ⟨pad, -, hbits⟩ := h
  have hlen := congrArg List.length hbits
  rw [Lib.Bits.length_ofOctets, List.length_append] at hlen
  have hcode := length_encode_ge s
  omega

/-- The octets of a string literal, one way or the other. -/
theorem Rfc.Serialised.cases {s o : Bytes} (h : Rfc.Serialised s o) :
    o = numberOctets 7 0x00#8 s.length ++ s ∨
      ∃ body, HuffmanBody s body ∧ o = huffmanOctets body := by
  cases h with
  | raw => exact Or.inl rfl
  | huffman encoded succeeded inside =>
      obtain ⟨body, hbody, -, rfl, hread⟩ := huffman_encode_ok encoded succeeded
      exact Or.inr ⟨body, hbody, hread⟩

theorem Rfc.StringLiteral.string_length_le (l : Rfc.StringLiteral) :
    l.string.length ≤ 2 * l.octets.length := by
  rcases l.serialised.cases with h | ⟨body, hbody, h⟩
  · rw [h, List.length_append]
    omega
  · have := hbody.string_length_le
    rw [h, huffmanOctets, List.length_append]
    omega

/-- A raw literal is read, whatever follows it. -/
theorem decode_raw_literal {first : Octet} (hfirst : first &&& 0x80#8 = 0#8) {s : Bytes}
    (hlen : s.length < UINTMAX_MOD) (rest : Bytes) :
    decode_string_from_rbuf (numberOctets 7 first s.length ++ s ++ rest) =
      .ok ((s, numberOctets 7 first s.length ++ s), rest) := by
  obtain ⟨octet, tail, hcons, hmask⟩ := numberOctets_first (p := 7) (by omega) first s.length
  have h80 := hmask 0x80#8 (by decide)
  rw [List.append_assoc, hcons, List.cons_append, decode_string_from_rbuf,
    if_neg (by rw [h80, hfirst]; decide), ← List.cons_append, ← hcons, decode_raw_string_from_rbuf,
    read_number_numberOctets first (by omega) hlen, ok_bind]
  simp only
  rw [if_neg (by simp), List.take_left, List.drop_left]

/-- A Huffman-coded literal is read, whatever follows it. -/
theorem decode_huffman_literal {s body : Bytes} (hbody : HuffmanBody s body)
    (hlen : body.length * 8 < UINTMAX_MOD) (rest : Bytes) :
    decode_string_from_rbuf (huffmanOctets body ++ rest) =
      .ok ((s, huffmanOctets body), rest) := by
  have hle := hbody.string_length_le
  obtain ⟨octet, tail, hcons, hmask⟩ :=
    numberOctets_first (p := 7) (by omega) 0x80#8 body.length
  have h80 := hmask 0x80#8 (by decide)
  rw [huffmanOctets, List.append_assoc, hcons, List.cons_append, decode_string_from_rbuf,
    if_pos (by rw [h80]; decide), ← List.cons_append, ← hcons, decode_huff_string_from_rbuf,
    read_number_numberOctets 0x80#8 (by omega) (by omega), ok_bind]
  simp only
  rw [if_neg (by simp), List.take_left, List.drop_left, Nat.mod_eq_of_lt hlen,
    (hbody.huffman_decode _).1 (by omega)]
  simp only
  rw [if_neg (by omega), if_neg (by omega), Int.toNat_natCast, List.take_length]

/-- The decoder reads a string literal, whatever follows it. -/
theorem decode_string_literal (l : Rfc.StringLiteral) (hlen : l.octets.length < 2 ^ 24)
    (rest : Bytes) :
    decode_string_from_rbuf (l.octets ++ rest) = .ok ((l.string, l.octets), rest) := by
  obtain ⟨s, o, hs⟩ := l
  simp only at hlen ⊢
  rcases hs.cases with rfl | ⟨body, hbody, rfl⟩
  · rw [List.length_append] at hlen
    exact decode_raw_literal (by decide) (by rw [UINTMAX_MOD]; omega) rest
  · rw [huffmanOctets, List.length_append] at hlen
    exact decode_huffman_literal hbody (by rw [UINTMAX_MOD]; omega) rest

/-! ## Tables -/

/-- Name and value of a header. -/
def Header.entry (h : Header) : Rfc.Entry := (h.name, h.value)

/-- Name, value and whether the header is never indexed. -/
def Header.triple (h : Header) : Rfc.Triple := (h.name, h.value, h.never_indexed)

/-- The decoder's table holds the entries of the reference table. -/
structure Mirrors (d : DynamicTable) (t : Rfc.DynTable) : Prop where
  entries : d.table_.map Header.entry = t.entries
  size_octets : d.size_octets_ = 4096
  limit : t.limit = 4096
  indexed : ∀ h ∈ d.table_, h.never_indexed = false

theorem mirrors_init : Mirrors {} Rfc.DynTable.init :=
  ⟨rfl, rfl, rfl, by simp⟩

theorem Mirrors.total_eq {d : DynamicTable} {t : Rfc.DynTable} (h : Mirrors d t) :
    total entrySize d.table_ = total Rfc.size t.entries := by
  rw [← h.entries, total, total, List.map_map]
  rfl

theorem Mirrors.total_le {d : DynamicTable} {t : Rfc.DynTable} (h : Mirrors d t) :
    total entrySize d.table_ ≤ 4096 := by
  have hfits := t.fits
  have hlimit := h.limit
  rw [h.total_eq]
  omega

/-- Insertion on both sides keeps the two tables the same, entry by entry. -/
theorem Mirrors.insert {d : DynamicTable} {t : Rfc.DynTable} (hm : Mirrors d t) {h : Header}
    (hsize : entrySize h < 2 ^ 31) (hindexed : h.never_indexed = false) :
    Mirrors (d.insert h) (t.insert h.entry) := by
  have htotal := hm.total_le
  have htable := DynamicTable.insert_table d h (by rw [UINT_MOD]; omega)
  rw [hm.size_octets] at htable
  have hweight : Rfc.size h.entry = entrySize h := rfl
  refine ⟨?_, ?_, hm.limit, ?_⟩
  · rw [htable]
    simp only [Table.insert, hm.limit, hweight]
    split
    · rw [List.map_cons, map_keep entrySize (fun a => (rfl : Rfc.size a.entry = entrySize a)),
        hm.entries]
    · rfl
  · rw [DynamicTable.insert_size_octets, hm.size_octets]
  · intro a ha
    rw [htable] at ha
    split at ha
    · rcases List.mem_cons.mp ha with rfl | ha
      · exact hindexed
      · exact hm.indexed a ((keep_front entrySize).subset ha)
    · cases ha

theorem static_table_entries :
    ∀ i : Fin 62, ∀ e ∈ static_table[i.val]?,
      (octets e.1).length + (octets e.2).length ≤ 4096 := by
  decide +kernel

/-- Looking an index up on both sides. -/
theorem Mirrors.get {d : DynamicTable} {t : Rfc.DynTable} (hm : Mirrors d t) {index : Nat}
    {e : Rfc.Entry} (h : Rfc.entryAt t index = some e) :
    e.1.length + e.2.length ≤ 4096 ∧
      ∃ header, HeaderTable.get d index = .ok header ∧ header.entry = e ∧
        header.never_indexed = false := by
  unfold Rfc.entryAt at h
  split at h
  · cases h
  · rename_i hne
    split at h
    · -- the static table
      rename_i hstatic
      obtain ⟨s, hs, rfl⟩ := Option.map_eq_some_iff.mp h
      have hlen : index ≤ static_table.length := by
        rw [show static_table.length = 62 from rfl]
        omega
      refine ⟨static_table_entries ⟨index, by omega⟩ s hs, ?_⟩
      rw [HeaderTable.get, if_pos (by omega), StaticTable.get, if_neg (by omega),
        List.getD_eq_getElem?_getD, hs]
      exact ⟨_, rfl, rfl, rfl⟩
    · -- the dynamic table
      have hmem := List.mem_of_getElem? h
      have hfits := t.fits
      have hle := weight_le_total Rfc.size hmem
      rw [← hm.entries, List.getElem?_map] at h
      obtain ⟨a, ha, rfl⟩ := Option.map_eq_some_iff.mp h
      have hlimit := hm.limit
      refine ⟨?_, a, ?_, rfl, hm.indexed a (List.mem_of_getElem? ha)⟩
      · rw [Rfc.size] at hle
        omega
      · rw [HeaderTable.get, if_neg (by omega), DynamicTable.get, start_, if_neg (by omega), ha]

/-! ## Fields -/

/-- An index that stands for an entry is far below 2^32. -/
theorem Mirrors.index_lt {d : DynamicTable} {t : Rfc.DynTable} (hm : Mirrors d t) {index : Nat}
    {e : Rfc.Entry} (h : Rfc.entryAt t index = some e) : 0 < index ∧ index < 2 ^ 13 := by
  have hcount : t.entries.length * 32 ≤ total Rfc.size t.entries := by
    apply length_le_total
    intro e
    rw [Rfc.size]
    omega
  have hfits := t.fits
  have hlimit := hm.limit
  unfold Rfc.entryAt at h
  split at h
  · cases h
  · split at h
    · omega
    · have := (List.getElem?_eq_some_iff.mp h).1
      omega

/-- `decode_literal` on a name and a value. -/
theorem decode_literal_field {d : DynamicTable} {t : Rfc.DynTable} (hm : Mirrors d t)
    (pattern : Octet) {width : Nat} (hw : 1 ≤ width ∧ width ≤ 8) {name : Rfc.Name}
    {value : Rfc.StringLiteral} {n : Bytes} (hname : name.denotes t = some n)
    (hlen : (name.octets pattern width ++ value.octets).length < 2 ^ 24) (rest : Bytes) :
    ∃ h, decode_literal d (name.octets pattern width ++ value.octets ++ rest) width =
        .ok (h, rest) ∧ h.entry = (n, value.string) ∧ h.never_indexed = false ∧
      entrySize h < 2 ^ 31 := by
  rw [List.length_append] at hlen
  have hvalue := value.string_length_le
  cases name with
  | indexed index =>
      obtain ⟨e, he, rfl⟩ := Option.map_eq_some_iff.mp hname
      obtain ⟨hpos, hlt⟩ := hm.index_lt he
      obtain ⟨hsize, header, hget, rfl, hindexed⟩ := hm.get he
      refine ⟨header.set_value value.string value.octets, ?_, rfl, hindexed, ?_⟩
      · rw [Rfc.Name.octets, List.append_assoc, decode_literal,
          read_number_numberOctets pattern hw (by rw [UINTMAX_MOD]; omega), ok_bind]
        simp only
        rw [if_pos (by omega), Nat.mod_eq_of_lt (by rw [UINT_MOD]; omega),
          decode_literal_indexed, hget, ok_bind, decode_string_literal value (by omega), ok_bind]
        rfl
      · simp only [Header.entry] at hsize
        simp only [entrySize, Header.set_value]
        omega
  | literal name =>
      have hn : name.string = n := by simpa [Rfc.Name.denotes] using hname
      have hnlen := name.string_length_le
      rw [Rfc.Name.octets, List.length_append] at hlen
      refine ⟨{ name := name.string, value := value.string, name_encoded := name.octets,
                value_encoded := value.octets }, ?_, by rw [Header.entry, hn], rfl, ?_⟩
      · rw [Rfc.Name.octets, List.append_assoc, List.append_assoc, decode_literal,
          read_number_numberOctets pattern hw (by decide), ok_bind]
        simp only
        rw [if_neg (by simp), decode_string_literal name (by omega), ok_bind]
        simp only
        rw [decode_string_literal value (by omega), ok_bind]
        rfl
      · simp only [entrySize]
        omega

/-- One field, whatever follows it: the decoder returns what it denotes, and
both tables go on alike. -/
theorem parse_field_denotes {d : DynamicTable} {t t' : Rfc.DynTable} (hm : Mirrors d t)
    {field : Rfc.Field} {triple : Rfc.Triple} (h : field.denotes t = some (triple, t'))
    (hlen : field.octets.length < 2 ^ 24) (rest : Bytes) :
    ∃ octet tail header d', field.octets = octet :: tail ∧
      parse_field d octet (field.octets ++ rest) = .ok (some header, rest, d') ∧
      header.triple = triple ∧ Mirrors d' t' := by
  cases field with
  | indexed index =>
      obtain ⟨e, he, heq⟩ := Option.map_eq_some_iff.mp h
      obtain ⟨rfl, rfl⟩ := Prod.mk.inj heq
      obtain ⟨hpos, hlt⟩ := hm.index_lt he
      obtain ⟨-, header, hget, rfl, hindexed⟩ := hm.get he
      obtain ⟨octet, tail, hfirst, hmask⟩ := numberOctets_first (p := 7) (by omega) 0x80#8 index
      have h80 := hmask 0x80#8 (by decide)
      refine ⟨octet, tail, header, d, hfirst, ?_, ?_, hm⟩
      · rw [parse_field, if_pos (by rw [h80]; decide), Rfc.Field.octets, decode_indexed,
          read_number_numberOctets 0x80#8 (by omega) (by rw [UINTMAX_MOD]; omega), ok_bind]
        simp only
        rw [Nat.mod_eq_of_lt (by rw [UINT_MOD]; omega), hget]
        rfl
      · rw [Header.triple, hindexed]
        rfl
  | literal indexing name value =>
      obtain ⟨n, hn, heq⟩ := Option.map_eq_some_iff.mp h
      obtain ⟨rfl, rfl⟩ := Prod.mk.inj heq
      -- literals are read alike; their first bits tell them apart
      have hw : 1 ≤ indexing.width ∧ indexing.width ≤ 8 := by cases indexing <;> decide
      obtain ⟨header, hdec, hentry, hindexed, hsize⟩ :=
        decode_literal_field hm indexing.pattern hw hn hlen rest
      have hnames : header.name = n ∧ header.value = value.string := Prod.mk.inj hentry
      obtain ⟨octet, tail, hfirst, hmask⟩ := name.octets_first indexing.pattern hw.2
      replace hfirst : Rfc.Field.octets (.literal indexing name value) =
          octet :: (tail ++ value.octets) := by
        rw [Rfc.Field.octets, hfirst, List.cons_append]
      have h80 := hmask 0x80#8 (by cases indexing <;> decide)
      have h40 := hmask 0x40#8 (by cases indexing <;> decide)
      cases indexing with
      | incremental =>
          refine ⟨octet, tail ++ value.octets, header, d.insert header, hfirst, ?_, ?_, ?_⟩
          · rw [parse_field, if_neg (by rw [h80]; decide), if_pos (by rw [h40]; decide),
              decode_literal_incremental, Rfc.Field.octets]
            rw [show Rfc.Indexing.incremental.width = 6 from rfl] at hdec ⊢
            rw [hdec]
            rfl
          · rw [Header.triple, hindexed, hnames.1, hnames.2]
            rfl
          · rw [if_pos rfl, ← hentry]
            exact hm.insert hsize hindexed
      | without =>
          have h20 := hmask 0x20#8 (by decide)
          have h10 := hmask 0x10#8 (by decide)
          refine ⟨octet, tail ++ value.octets, header, d, hfirst, ?_, ?_, ?_⟩
          · rw [parse_field, if_neg (by rw [h80]; decide), if_neg (by rw [h40]; decide),
              if_neg (by rw [h20]; decide), if_neg (by rw [h10]; decide),
              decode_literal_without_indexing, Rfc.Field.octets]
            rw [show Rfc.Indexing.without.width = 4 from rfl] at hdec ⊢
            rw [hdec]
            rfl
          · rw [Header.triple, hindexed, hnames.1, hnames.2]
            rfl
          · rw [if_neg (by decide)]
            exact hm
      | never =>
          have h20 := hmask 0x20#8 (by decide)
          have h10 := hmask 0x10#8 (by decide)
          refine ⟨octet, tail ++ value.octets, { header with never_indexed := true }, d, hfirst, ?_, ?_, ?_⟩
          · rw [parse_field, if_neg (by rw [h80]; decide), if_neg (by rw [h40]; decide),
              if_neg (by rw [h20]; decide), if_pos (by rw [h10]; decide),
              decode_literal_never_indexed, Rfc.Field.octets]
            rw [show Rfc.Indexing.never.width = 4 from rfl] at hdec ⊢
            rw [hdec]
            rfl
          · rw [Header.triple, hnames.1, hnames.2]
            rfl
          · rw [if_neg (by decide)]
            exact hm

end Shitty.Hpack
