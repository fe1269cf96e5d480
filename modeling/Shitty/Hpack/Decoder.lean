import Shitty.Hpack.HuffDecode
import Shitty.Hpack.Number
import Shitty.Hpack.Table

/-!
# The header decoder

`HeaderDecoder` of `hpack/header.cpp`. The functions take what is left of the block and
return what is left behind them, as the span by reference does; the table is that of the
decoder. An octet is read behind the end nowhere: where the source has no more octets,
it throws, and what it throws is the error here.
-/

namespace Shitty.Hpack

/-- `ssize_t len = decode_number(...)`, the check after it, and the octets of
the number with what is behind them. -/
def read_number (buf : Bytes) (bits : Nat) (what : String) : Except Exn (Nat × Bytes × Bytes) :=
  let (len, number) := decode_number buf bits
  if len < 1 then .error (.runtime_error what)
  else .ok (number, buf.take len.toNat, buf.drop len.toNat)

/-! ## String literals -/

/-- The string, its literal, and what is left of the block. -/
def decode_raw_string_from_rbuf (buf : Bytes) : Except Exn ((Bytes × Bytes) × Bytes) := do
  let (slen, encoded, buf) ← read_number buf 7 "String length decode failure"
  if buf.length < slen then .error (.runtime_error "String prefix longer than buffer")
  else .ok ((buf.take slen, encoded ++ buf.take slen), buf.drop slen)

def decode_huff_string_from_rbuf (buf : Bytes) : Except Exn ((Bytes × Bytes) × Bytes) := do
  let (coded_len, encoded, buf) ←
    read_number buf 7 "Huffman-coded string length decode failure"
  if buf.length < coded_len then
    .error (.runtime_error "Huffman-coded string length longer than buffer")
  else
    let s_size := coded_len * 8 % UINTMAX_MOD / 5 + 1
    let (decoded_len, s) := huffman_decode (buf.take coded_len) 8 s_size
    if ¬ decoded_len ≤ s_size then
      .error (.assertion "decoded_len <= static_cast<ssize_t>(s.size())")
    else if decoded_len < 0 then
      -- `resize` with a negative length
      .error (.length_error "basic_string::_M_replace_aux")
    else
      .ok ((s.take decoded_len.toNat, encoded ++ buf.take coded_len), buf.drop coded_len)

def decode_string_from_rbuf (buf : Bytes) : Except Exn ((Bytes × Bytes) × Bytes) :=
  match buf with
  | [] => .error (.runtime_error "End of buffer decoding string")
  | octet :: _ =>
      if octet &&& 0x80#8 ≠ 0#8 then decode_huff_string_from_rbuf buf
      else decode_raw_string_from_rbuf buf

/-! ## Header fields -/

/-- An indexed field: RFC 7541 section 6.1. -/
def decode_indexed (table_ : DynamicTable) (buf : Bytes) : Except Exn (Header × Bytes) := do
  let (idx, _, buf) ← read_number buf 7 "Failed to decode indexed header"
  let h ← HeaderTable.get table_ (idx % UINT_MOD)
  return (h, buf)

/-- A header with an indexed name and literal value. -/
def decode_literal_indexed (table_ : DynamicTable) (index : Nat) (buf : Bytes) :
    Except Exn (Header × Bytes) := do
  let h ← HeaderTable.get table_ index
  let (value, buf) ← decode_string_from_rbuf buf
  return (h.set_value value.1 value.2, buf)

def decode_literal (table_ : DynamicTable) (buf : Bytes) (length_bits : Nat) :
    Except Exn (Header × Bytes) := do
  let (idx, _, buf) ← read_number buf length_bits "Failed to decode literal incremental header"
  if idx ≠ 0 then decode_literal_indexed table_ (idx % UINT_MOD) buf
  else do
    let (name, buf) ← decode_string_from_rbuf buf
    let (value, buf) ← decode_string_from_rbuf buf
    return ({ name := name.1, value := value.1, name_encoded := name.2,
              value_encoded := value.2 }, buf)

/-- A literal field that is put into the table: RFC 7541 section 6.2.1. -/
def decode_literal_incremental (table_ : DynamicTable) (buf : Bytes) :
    Except Exn (Header × Bytes × DynamicTable) := do
  let (h, buf) ← decode_literal table_ buf 6
  return (h, buf, table_.insert h)

/-- A size update of the dynamic table: RFC 7541 section 6.3. -/
def dynamic_table_resize (table_ : DynamicTable) (buf : Bytes) :
    Except Exn (Bytes × DynamicTable) :=
  match buf with
  | [] => .error (.logic_error "Not a dynamic table size update message")
  | octet :: _ =>
      if octet &&& 0x02#8 ≠ 0x02#8 then
        .error (.logic_error "Not a dynamic table size update message")
      else do
        let (new_size, _, buf) ← read_number buf 5 "Error decoding buffer resize message"
        let table_ ← table_.resize (new_size % UINT_MOD)
        return (buf, table_)

/-- A literal field that is not put into the table: RFC 7541 section 6.2.2. -/
def decode_literal_without_indexing (table_ : DynamicTable) (buf : Bytes) :
    Except Exn (Header × Bytes) :=
  decode_literal table_ buf 4

/-- A literal field that no table may keep: RFC 7541 section 6.2.3. -/
def decode_literal_never_indexed (table_ : DynamicTable) (buf : Bytes) :
    Except Exn (Header × Bytes) := do
  let (h, buf) ← decode_literal table_ buf 4
  return ({ h with never_indexed := true }, buf)

/-! ## `parseHeaders` -/

/-- One turn of the loop, for a block that begins with `octet`: the header if
there is one, what is left of the block, and the table. -/
def parse_field (table_ : DynamicTable) (octet : Octet) (buf : Bytes) :
    Except Exn (Option Header × Bytes × DynamicTable) :=
  if octet &&& 0x80#8 ≠ 0#8 then do
    let (h, buf) ← decode_indexed table_ buf
    return (some h, buf, table_)
  else if octet &&& 0x40#8 ≠ 0#8 then do
    let (h, buf, table_) ← decode_literal_incremental table_ buf
    return (some h, buf, table_)
  else if octet &&& 0x20#8 ≠ 0#8 then do
    let (buf, table_) ← dynamic_table_resize table_ buf
    return (none, buf, table_)
  else if octet &&& 0x10#8 ≠ 0#8 then do
    let (h, buf) ← decode_literal_never_indexed table_ buf
    return (some h, buf, table_)
  else do
    let (h, buf) ← decode_literal_without_indexing table_ buf
    return (some h, buf, table_)

/-- The loop, for at most the given number of turns. -/
def parse_loop : (turns : Nat) → DynamicTable → Bytes → (headers : List Header) →
    Except Exn (List Header) × DynamicTable
  | _, table_, [], headers => (.ok headers, table_)
  | 0, table_, _ :: _, headers => (.ok headers, table_)
  | turns + 1, table_, octet :: rest, headers =>
      match parse_field table_ octet (octet :: rest) with
      | .error e => (.error e, table_)
      | .ok (h, buf, table_) => parse_loop turns table_ buf (headers ++ h.toList)

/-- `parseHeaders(buf)`: the headers, or what was thrown, and the decoder's table
afterwards. Every turn takes an octet at least, so there are no more turns than
octets. -/
def parseHeaders (table_ : DynamicTable) (buf : Bytes) :
    Except Exn (List Header) × DynamicTable :=
  parse_loop buf.length table_ buf []

end Shitty.Hpack
