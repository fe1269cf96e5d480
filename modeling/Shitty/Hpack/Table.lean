import Shitty.Core.Octet

/-!
# Header tables

`Header`, the static table and `DynamicTable` of `hpack/header.cpp`. The table is newest
first, as the `std::vector` is. `unsigned` is 32 bits wide. Totals of sizes are computed
modulo 2^32 as there, and the assertion of `resize` is an error that ends the process,
which a debug build has.
-/

namespace Shitty.Hpack

/-- What arithmetic on `unsigned` is modulo of: it is 32 bits wide. -/
def UINT_MOD : Nat := 2 ^ 32

/-! ## `Header` -/

structure Header where
  name : Bytes
  value : Bytes
  /-- HPACK string literals with their length; empty until they are needed. -/
  name_encoded : Bytes := []
  value_encoded : Bytes := []
  never_indexed : Bool := false
  deriving DecidableEq, Repr

namespace Header

def hpack_size (h : Header) : Nat := (32 + h.name.length + h.value.length) % UINT_MOD

/-- `value(v, encoded_value)`, which replaces the value and its literal together. -/
def set_value (h : Header) (v encoded_value : Bytes) : Header :=
  { h with value := v, value_encoded := encoded_value }

end Header

/-! ## `StaticTable` -/

/-- The entries of `static_table`; 0 is not a valid index. -/
def static_table : List (String × String) := [
  ("", ""),
  (":authority", ""),
  (":method", "GET"),
  (":method", "POST"),
  (":path", "/"),
  (":path", "/index.html"),
  (":scheme", "http"),
  (":scheme", "https"),
  (":status", "200"),
  (":status", "204"),
  (":status", "206"),
  (":status", "304"),
  (":status", "400"),
  (":status", "404"),
  (":status", "500"),
  ("accept-charset", ""),
  ("accept-encoding", "gzip, deflate"),
  ("accept-language", ""),
  ("accept-ranges", ""),
  ("accept", ""),
  ("access-control-allow-origin", ""),
  ("age", ""),
  ("allow", ""),
  ("authorization", ""),
  ("cache-control", ""),
  ("content-disposition", ""),
  ("content-encoding", ""),
  ("content-language", ""),
  ("content-length", ""),
  ("content-location", ""),
  ("content-range", ""),
  ("content-type", ""),
  ("cookie", ""),
  ("date", ""),
  ("etag", ""),
  ("expect", ""),
  ("expires", ""),
  ("from", ""),
  ("host", ""),
  ("if-match", ""),
  ("if-modified-since", ""),
  ("if-none-match", ""),
  ("if-range", ""),
  ("if-unmodified-since", ""),
  ("last-modified", ""),
  ("link", ""),
  ("location", ""),
  ("max-forwards", ""),
  ("proxy-authenticate", ""),
  ("proxy-authorization", ""),
  ("range", ""),
  ("referer", ""),
  ("refresh", ""),
  ("retry-after", ""),
  ("server", ""),
  ("set-cookie", ""),
  ("strict-transport-security", ""),
  ("transfer-encoding", ""),
  ("user-agent", ""),
  ("vary", ""),
  ("via", ""),
  ("www-authenticate", "")]

/-- `Header(static_table[index].name, static_table[index].value)`. The check
lets one index past the array through, which `HeaderTable.get` never asks for. -/
def StaticTable.get (index : Nat) : Except Exn Header :=
  if index = 0 ∨ static_table.length < index then
    .error (.out_of_range "invalid index for static table")
  else
    let entry := static_table.getD index ("", "")
    .ok { name := octets entry.1, value := octets entry.2 }

/-! ## `DynamicTable` -/

/-- Index of the first entry of the dynamic table (RFC 7541). -/
def start_ : Nat := 62

structure DynamicTable where
  size_octets_ : Nat := 4096
  table_ : List Header := []
  deriving DecidableEq, Repr

/-- Size of some entries in octets according to HPACK. -/
def hpack_size (table_ : List Header) : Nat :=
  table_.foldl (fun s header => (s + header.hpack_size) % UINT_MOD) 0

/-- `while (too_large && !table_.empty()) table_.pop_back()` for a table of that
many entries. -/
def pop_back_while (too_large : List Header → Bool) : Nat → List Header → List Header
  | 0, table_ => table_
  | n + 1, table_ =>
      if too_large table_ then pop_back_while too_large n table_.dropLast else table_

/-- The loop of `resize`, over the entries not yet counted, oldest first. -/
def resize_loop (new_hpack_size : Nat) : List Header → (nremove hsize : Nat) → Except Exn Nat
  | [], nremove, hsize =>
      if new_hpack_size < hsize then .error (.out_of_range "table_[table_.size() - nremove]")
      else .ok nremove
  | oldest :: newer, nremove, hsize =>
      if new_hpack_size < hsize then
        let this_entry_sz := oldest.hpack_size
        if hsize < this_entry_sz then
          resize_loop new_hpack_size newer (nremove + 1)
            ((hsize + UINT_MOD - this_entry_sz) % UINT_MOD)
        else .error (.assertion "this_entry_sz > hsize")
      else .ok nremove

namespace DynamicTable

def get (t : DynamicTable) (index : Nat) : Except Exn Header :=
  if index < start_ then
    .error (.out_of_range "requested static table index from dynamic table")
  else
    match t.table_[index - start_]? with
    | some h => .ok h
    | none => .error (.out_of_range "dynamic table index out of range")

def insert (t : DynamicTable) (header : Header) : DynamicTable :=
  let newh_size := header.hpack_size
  if t.size_octets_ < newh_size then { t with table_ := [] }
  else
    let too_large := fun table_ => decide (t.size_octets_ < (hpack_size table_ + newh_size) % UINT_MOD)
    { t with table_ := header :: pop_back_while too_large t.table_.length t.table_ }

def resize (t : DynamicTable) (new_hpack_size : Nat) : Except Exn DynamicTable :=
  if t.size_octets_ ≤ new_hpack_size then .ok { t with size_octets_ := new_hpack_size }
  else if t.table_ = [] then .ok t
  else do
    let nremove ← resize_loop new_hpack_size t.table_.reverse 0 (hpack_size t.table_)
    return { t with table_ := t.table_.take (t.table_.length - nremove) }

end DynamicTable

/-! ## `HeaderTable` -/

/-- The static table and a dynamic table under one numbering. -/
def HeaderTable.get (dtable_ : DynamicTable) (index : Nat) : Except Exn Header :=
  if index < 62 then StaticTable.get index else dtable_.get index

end Shitty.Hpack
