import Shitty.Hpack.Decoder
import Shitty.Lib.Checked

/-!
# What the decoder reads and writes

The decoder once more, with pointers and indices where the source has them: whatever
reaches outside of its span, array or destination is a fault, and so is a loop that goes
on for too long. `asserted` says whether the assertion of `resize` is compiled in.
-/

namespace Shitty.Hpack.Accesses

open Lib Lib.Checked

/-- What is outside of what it may be. -/
inductive Fault where
  /-- A span is shortened by more octets than it has. -/
  | subspan
  /-- Octets behind the end of a span are read. -/
  | span
  /-- An octet is loaded through `pos` behind the end of the coded octets. -/
  | coded
  /-- An octet is stored through `dest` behind the end of the destination. -/
  | dest
  /-- An index into one of the decoder's tables of symbols. -/
  | symbols
  | static_table
  | table_
  /-- Another turn of a loop, behind as many as it may have. -/
  | endless
  deriving DecidableEq, Repr

abbrev Access (α : Type) := Checked Fault Exn α

/-- `std::string(buf.data(), n)`, which reads `n` octets from the front of the span. -/
def front (buf : Bytes) (n : Nat) : Access Bytes := do
  check .span (n ≤ buf.length)
  return buf.take n

/-- `buf.subspan(n)`, which is undefined for more octets than the span has. -/
def subspan (buf : Bytes) (n : Nat) : Access Bytes := do
  check .subspan (n ≤ buf.length)
  return buf.drop n

/-! ## `hpack/number.c` -/

/-- The variables of the loop of `decode_number`. -/
structure NumberState where
  i : Nat
  mult : Nat
  number : Nat

def decode_number_turn (buf : Bytes) (st : NumberState) :
    Access (NumberState ⊕ (Int × Nat)) := do
  check .span (st.i < buf.length)
  let b := buf.getD st.i 0
  let field := (b &&& 0x7f#8).toNat
  let number := (st.number + field * st.mult) % UINTMAX_MOD
  if b &&& 0x80#8 = 0#8 then return .inr ((st.i : Int) + 1, number)
  else if (st.mult <<< 7) % UINTMAX_MOD < st.mult then return .inr (-INTERNAL_ERROR, number)
  else return .inl { i := st.i + 1, mult := (st.mult <<< 7) % UINTMAX_MOD, number := number }

def decode_number_loop (buf : Bytes) (turns : Nat) (st : NumberState) : Access (Int × Nat) :=
  whileLoop (fun st => decide (st.i < buf.length ∧ st.i ≤ MAX_OCTETS)) (decode_number_turn buf)
    (fun st => (-PROTOCOL_ERROR, st.number)) .endless turns st

def decode_number (buf : Bytes) (bits : Nat) : Access (Int × Nat) :=
  if buf.length = 0 ∨ 8 < bits then return (-PROTOCOL_ERROR, 0)
  else do
    check .span (0 < buf.length)
    let mask := mask_from_bits bits
    let field := buf.getD 0 0 &&& mask
    if field ≠ mask then return (1, field.toNat)
    else decode_number_loop buf buf.length { i := 1, mult := 1, number := field.toNat }

/-! ## `huffy/bitbuf.c` -/

/-- `pos` is an index into the coded octets, and `end` is behind the last of them. -/
structure BbReader where
  bb : BitBuf
  pos : Nat
  deriving DecidableEq, Repr

/-- An octet is loaded unless there are bits enough or `pos == end`. The bits are those of
`bb_load_next` on what is loaded. -/
def bb_load_next (buf : Bytes) (bb : BitBuf) (discard_bits pos : Nat) : Access BbReader :=
  if bb.next_bits ≤ discard_bits ∧ pos ≠ buf.length then do
    check .coded (pos < buf.length)
    return { bb := (Hpack.bb_load_next bb discard_bits [buf.getD pos 0]).bb, pos := pos + 1 }
  else return { bb := (Hpack.bb_load_next bb discard_bits []).bb, pos := pos }

def bb_next (buf : Bytes) (bbr : BbReader) (seek_bits : Nat) : Access BbReader :=
  bb_load_next buf bbr.bb seek_bits bbr.pos

def bb_peek (bbr : BbReader) : Octet := bbr.bb.octet

/-- `bb_eos`, which looks at the octets in the reader only: nothing is read behind them. -/
def bb_eos (bbr : BbReader) : Bool := Hpack.bb_eos { bb := bbr.bb, pos := [] }

def bb_reader_init (buf : Bytes) : Access BbReader := do
  let bb : BitBuf := { octet := 0, next := 0, next_bits := 8, eos_after_bits := -1 }
  let bbr ← bb_next buf { bb := bb, pos := 0 } 8
  bb_next buf bbr 8

/-! ## `huffy/decode.c` -/

/-- `table[octet]`, in a symbol table that may be shorter than the octets there are. -/
def symbol (table : List FastFindSymbol) (octet : Octet) : Access FastFindSymbol := do
  check .symbols (octet.toNat < table.length)
  return FastFindSymbol.at table octet

/-- One turn of the main loop of `huffman_decode`, without its store. -/
def decode_symbol (buf : Bytes) (reader : BbReader) : Access (Option (Octet × BbReader)) := do
  let octet := bb_peek reader
  let sym ← symbol shortbits0 octet
  if sym.octet ≠ SENTINEL then do
    let reader ← bb_next buf reader sym.bits
    return some (sym.octet, reader)
  else do
    let reader ← bb_next buf reader 8
    if octet = 0xfe#8 then do
      let octets := [0x21#8, 0x22#8, 0x28#8, 0x29#8]
      let octet := bb_peek reader
      check .symbols ((octet >>> 6).toNat < octets.length)
      let reader ← bb_next buf reader 2
      return some (octets.getD (octet >>> 6).toNat 0, reader)
    else do
      let octet := bb_peek reader
      let sym ← symbol shortbits1_ff octet
      if sym.octet ≠ SENTINEL then do
        let reader ← bb_next buf reader (sym.bits % 8)
        return some (sym.octet, reader)
      else do
        let reader ← bb_next buf reader 8
        if octet = 0xfe#8 then do
          let sym ← symbol shortbits2_fffe (bb_peek reader)
          let reader ← bb_next buf reader (sym.bits % 8)
          return some (sym.octet, reader)
        else do
          let octet := bb_peek reader
          let sym ← symbol shortbits2_ffff octet
          if sym.octet ≠ SENTINEL then do
            let reader ← bb_next buf reader (sym.bits - 16)
            return some (sym.octet, reader)
          else do
            let reader ← bb_next buf reader 8
            if octet ≠ 0xfe#8 ∧ octet ≠ 0xff#8 then do
              let sym ← symbol shortbits23 ((octet <<< 4) ||| (bb_peek reader >>> 4))
              let reader ← bb_next buf reader (sym.bits % 8)
              return some (sym.octet, reader)
            else do
              let octet := ((octet <<< 6) &&& 64#8) ||| (bb_peek reader >>> 2)
              let sym ← symbol shortbits3 octet
              if sym.octet ≠ SENTINEL then do
                let reader ← bb_next buf reader (sym.bits % 8)
                return some (sym.octet, reader)
              else return none

/-- The main loop: `dest` is an index into the octets `s`, and `end` is behind them. -/
structure DecodeState where
  reader : BbReader
  dest : Nat
  s : Bytes

def decode_turn (buf : Bytes) (st : DecodeState) : Access (DecodeState ⊕ (Int × Bytes)) :=
  if bb_eos st.reader then return .inr (st.dest, st.s)
  else do
    let found ← decode_symbol buf st.reader
    match found with
    | some (octet, reader) => do
        check .dest (st.dest < st.s.length)
        return .inl { reader := reader, dest := st.dest + 1, s := st.s.set st.dest octet }
    | none => return .inr (st.dest, st.s)

def decode_loop (buf : Bytes) (turns : Nat) (st : DecodeState) : Access (Int × Bytes) :=
  whileLoop (fun st => st.dest ≠ st.s.length) (decode_turn buf)
    (fun st => (if bb_eos st.reader then (st.dest : Int) else -1, st.s)) .endless turns st

/-- `huffman_decode(buf, buflen, first_octet_bits, &s[0], s.size())`: the result, and `s`
behind it. -/
def huffman_decode (buf : Bytes) (first_octet_bits : Nat) (s : Bytes) : Access (Int × Bytes) :=
  if first_octet_bits < 1 ∨ 8 < first_octet_bits then return (-3, s)
  else do
    let reader ← bb_reader_init buf
    let reader ←
      (if first_octet_bits ≠ 8 then bb_next buf reader (8 - first_octet_bits) else pure reader)
    decode_loop buf s.length { reader := reader, dest := 0, s := s }

/-! ## Header tables -/

/-- `static_table[index]`, where index 0 is no entry. -/
def StaticTable.get (index : Nat) : Access Header :=
  if index = 0 ∨ static_table.length < index then
    .error (.thrown (.out_of_range "invalid index for static table"))
  else do
    check .static_table (1 ≤ index ∧ index ≤ 61)
    let entry := static_table.getD index ("", "")
    return { name := octets entry.1, value := octets entry.2 }

namespace DynamicTable

def get (t : DynamicTable) (index : Nat) : Access Header :=
  if index < start_ then
    .error (.thrown (.out_of_range "requested static table index from dynamic table"))
  else
    let index := index - start_
    if t.table_.length ≤ index then
      .error (.thrown (.out_of_range "dynamic table index out of range"))
    else do
      check .table_ (index < t.table_.length)
      return t.table_.getD index { name := [], value := [] }

/-- `table_.pop_back()`, which is undefined for a table without entries. -/
def pop_back (table_ : List Header) : Access (List Header) := do
  check .table_ (table_ ≠ [])
  return table_.dropLast

/-- `while (too_large && !table_.empty()) table_.pop_back()`. -/
def pop_back_while (too_large : List Header → Bool) (turns : Nat) (table_ : List Header) :
    Access (List Header) :=
  whileLoop (fun table_ => decide (too_large table_ ∧ table_ ≠ []))
    (fun table_ => do
      let table_ ← pop_back table_
      return .inl table_)
    id .endless turns table_

def insert (t : DynamicTable) (header : Header) : Access DynamicTable :=
  let newh_size := header.hpack_size
  if t.size_octets_ < newh_size then return { t with table_ := [] }
  else do
    let too_large := fun table_ => decide (t.size_octets_ < (hpack_size table_ + newh_size) % UINT_MOD)
    let table_ ← pop_back_while too_large t.table_.length t.table_
    return { t with table_ := header :: table_ }

/-- One turn of the loop of `resize`, with `nremove` and `hsize`. Below zero the index
`table_.size() - nremove` would be a very large one. -/
def resize_turn (asserted : Bool) (table_ : List Header) (st : Nat × Nat) :
    Access ((Nat × Nat) ⊕ Nat) := do
  let nremove := st.1 + 1
  check .table_ (nremove ≤ table_.length ∧ table_.length - nremove < table_.length)
  let this_entry_sz :=
    (table_.getD (table_.length - nremove) { name := [], value := [] }).hpack_size
  if asserted ∧ ¬ st.2 < this_entry_sz then .error (.thrown (.assertion "this_entry_sz > hsize"))
  else return .inl (nremove, (st.2 + UINT_MOD - this_entry_sz) % UINT_MOD)

def resize_loop (asserted : Bool) (new_hpack_size : Nat) (table_ : List Header) (turns : Nat)
    (st : Nat × Nat) : Access Nat :=
  whileLoop (fun st => decide (table_ ≠ [] ∧ new_hpack_size < st.2)) (resize_turn asserted table_)
    Prod.fst .endless turns st

def resize (asserted : Bool) (t : DynamicTable) (new_hpack_size : Nat) : Access DynamicTable :=
  if t.size_octets_ ≤ new_hpack_size then return { t with size_octets_ := new_hpack_size }
  else do
    let nremove ← resize_loop asserted new_hpack_size t.table_ t.table_.length
      (0, hpack_size t.table_)
    check .table_ (nremove ≤ t.table_.length)
    return { t with table_ := t.table_.take (t.table_.length - nremove) }

end DynamicTable

def HeaderTable.get (dtable_ : DynamicTable) (index : Nat) : Access Header :=
  if index < 62 then StaticTable.get index else DynamicTable.get dtable_ index

/-! ## `HeaderDecoder` -/

def read_number (buf : Bytes) (bits : Nat) (what : String) : Access (Nat × Bytes × Bytes) := do
  let (len, number) ← decode_number buf bits
  if len < 1 then .error (.thrown (.runtime_error what))
  else do
    let encoded ← front buf len.toNat
    let buf ← subspan buf len.toNat
    return (number, encoded, buf)

def decode_raw_string_from_rbuf (buf : Bytes) : Access ((Bytes × Bytes) × Bytes) := do
  let (slen, encoded, buf) ← read_number buf 7 "String length decode failure"
  if buf.length < slen then
    .error (.thrown (.runtime_error "String prefix longer than buffer"))
  else do
    let s ← front buf slen
    let buf ← subspan buf slen
    return ((s, encoded ++ s), buf)

def decode_huff_string_from_rbuf (buf : Bytes) : Access ((Bytes × Bytes) × Bytes) := do
  let (coded_len, encoded, buf) ←
    read_number buf 7 "Huffman-coded string length decode failure"
  if buf.length < coded_len then
    .error (.thrown (.runtime_error "Huffman-coded string length longer than buffer"))
  else do
    let coded ← front buf coded_len
    let s := List.replicate (coded_len * 8 % UINTMAX_MOD / 5 + 1) 0#8
    let (decoded_len, s) ← huffman_decode coded 8 s
    let buf ← subspan buf coded_len
    if ¬ decoded_len ≤ s.length then
      .error (.thrown (.assertion "decoded_len <= static_cast<ssize_t>(s.size())"))
    else if decoded_len < 0 then
      .error (.thrown (.length_error "basic_string::_M_replace_aux"))
    else return ((s.take decoded_len.toNat, encoded ++ coded), buf)

def decode_string_from_rbuf (buf : Bytes) : Access ((Bytes × Bytes) × Bytes) :=
  match buf with
  | [] => .error (.thrown (.runtime_error "End of buffer decoding string"))
  | octet :: _ =>
      if octet &&& 0x80#8 ≠ 0#8 then decode_huff_string_from_rbuf buf
      else decode_raw_string_from_rbuf buf

def decode_indexed (table_ : DynamicTable) (buf : Bytes) : Access (Header × Bytes) := do
  let (idx, _, buf) ← read_number buf 7 "Failed to decode indexed header"
  let h ← HeaderTable.get table_ (idx % UINT_MOD)
  return (h, buf)

def decode_literal_indexed (table_ : DynamicTable) (index : Nat) (buf : Bytes) :
    Access (Header × Bytes) := do
  let h ← HeaderTable.get table_ index
  let (value, buf) ← decode_string_from_rbuf buf
  return (h.set_value value.1 value.2, buf)

def decode_literal (table_ : DynamicTable) (buf : Bytes) (length_bits : Nat) :
    Access (Header × Bytes) := do
  let (idx, _, buf) ← read_number buf length_bits "Failed to decode literal incremental header"
  if idx ≠ 0 then decode_literal_indexed table_ (idx % UINT_MOD) buf
  else do
    let (name, buf) ← decode_string_from_rbuf buf
    let (value, buf) ← decode_string_from_rbuf buf
    return ({ name := name.1, value := value.1, name_encoded := name.2,
              value_encoded := value.2 }, buf)

def decode_literal_incremental (table_ : DynamicTable) (buf : Bytes) :
    Access (Header × Bytes × DynamicTable) := do
  let (h, buf) ← decode_literal table_ buf 6
  let table_ ← DynamicTable.insert table_ h
  return (h, buf, table_)

def dynamic_table_resize (asserted : Bool) (table_ : DynamicTable) (buf : Bytes) :
    Access (Bytes × DynamicTable) :=
  match buf with
  | [] => .error (.thrown (.logic_error "Not a dynamic table size update message"))
  | octet :: _ =>
      if octet &&& 0x02#8 ≠ 0x02#8 then
        .error (.thrown (.logic_error "Not a dynamic table size update message"))
      else do
        let (new_size, _, buf) ← read_number buf 5 "Error decoding buffer resize message"
        let table_ ← DynamicTable.resize asserted table_ (new_size % UINT_MOD)
        return (buf, table_)

def decode_literal_without_indexing (table_ : DynamicTable) (buf : Bytes) :
    Access (Header × Bytes) :=
  decode_literal table_ buf 4

def decode_literal_never_indexed (table_ : DynamicTable) (buf : Bytes) :
    Access (Header × Bytes) := do
  let (h, buf) ← decode_literal table_ buf 4
  return ({ h with never_indexed := true }, buf)

/-! ## `parseHeaders` -/

/-- One turn of the loop, for a block that begins with `octet`. -/
def parse_field (asserted : Bool) (table_ : DynamicTable) (octet : Octet) (buf : Bytes) :
    Access (Option Header × Bytes × DynamicTable) :=
  if octet &&& 0x80#8 ≠ 0#8 then do
    let (h, buf) ← decode_indexed table_ buf
    return (some h, buf, table_)
  else if octet &&& 0x40#8 ≠ 0#8 then do
    let (h, buf, table_) ← decode_literal_incremental table_ buf
    return (some h, buf, table_)
  else if octet &&& 0x20#8 ≠ 0#8 then do
    let (buf, table_) ← dynamic_table_resize asserted table_ buf
    return (none, buf, table_)
  else if octet &&& 0x10#8 ≠ 0#8 then do
    let (h, buf) ← decode_literal_never_indexed table_ buf
    return (some h, buf, table_)
  else do
    let (h, buf) ← decode_literal_without_indexing table_ buf
    return (some h, buf, table_)

/-- What `parseHeaders` goes on with: the table, what is left of the block, the headers. -/
structure ParseState where
  table_ : DynamicTable
  buf : Bytes
  headers : List Header

def parse_turn (asserted : Bool) (st : ParseState) :
    Access (ParseState ⊕ (List Header × DynamicTable)) := do
  check .span (0 < st.buf.length)
  let octet := st.buf.headD 0
  let (h, buf, table_) ← parse_field asserted st.table_ octet st.buf
  return .inl { table_ := table_, buf := buf, headers := st.headers ++ h.toList }

/-- `parseHeaders(buf)`, which has as many turns as the block has octets: the headers and
the decoder's table. -/
def parseHeaders (asserted : Bool) (table_ : DynamicTable) (buf : Bytes) :
    Access (List Header × DynamicTable) :=
  whileLoop (fun st => st.buf ≠ []) (parse_turn asserted) (fun st => (st.headers, st.table_))
    .endless buf.length { table_ := table_, buf := buf, headers := [] }

end Shitty.Hpack.Accesses
