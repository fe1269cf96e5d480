import Shitty.Hpack.HuffEncode
import Shitty.Hpack.Table
import Shitty.Lib.Eviction

/-!
# Field representations and what they denote

RFC 7541 section 6 without size updates: how a field is put into octets, and what it
means for a peer that keeps the table of section 4. Nothing of it is taken from the
code: a representation is a value, its octets are one function and its meaning for a
table another one, which the decoder is compared with.
-/

namespace Shitty.Hpack.Rfc

open Lib.Eviction

/-! ## The table -/

/-- An entry of a table: a name and a value. -/
abbrev Entry := Bytes × Bytes

/-- The size of an entry (section 4.1). -/
def size (e : Entry) : Nat := 32 + e.1.length + e.2.length

abbrev DynTable := Table size

/-- The table of a new connection. -/
def DynTable.init : DynTable where
  limit := 4096
  entries := []
  fits := Nat.zero_le 4096

/-- The entry an index stands for: 1 to 61 in the static table, the newest of
the dynamic table from 62 on (section 2.3.3). -/
def entryAt (t : DynTable) (index : Nat) : Option Entry :=
  if index = 0 then none
  else if index ≤ 61 then (static_table[index]?).map fun e => (octets e.1, octets e.2)
  else t.entries[index - 62]?

/-! ## String literals -/

/-- How a string is serialised: raw, or as `huffman_encode` does in a large
enough buffer. -/
inductive Serialised (s : Bytes) : Bytes → Prop where
  | raw : Serialised s (numberOctets 7 0x00#8 s.length ++ s)
  | huffman {encoded_number buf buf' : Mem} {buflen : Nat} {len : Int}
      (encoded : huffman_encode s encoded_number buf buflen = (len, buf'))
      (succeeded : 0 ≤ len) (inside : len ≤ buflen) : Serialised s (buf'.read 0 len.toNat)

structure StringLiteral where
  string : Bytes
  octets : Bytes
  serialised : Serialised string octets

/-! ## Fields -/

/-- The three kinds of literal, by what a peer does with its table. -/
inductive Indexing where
  | incremental
  | without
  | never
  deriving DecidableEq, Repr

/-- The bits of the first octet in front of the index, and how many are left for
the index (sections 6.2.1 to 6.2.3). -/
def Indexing.pattern : Indexing → Octet
  | .incremental => 0x40#8
  | .without => 0x00#8
  | .never => 0x10#8

def Indexing.width : Indexing → Nat
  | .incremental => 6
  | .without => 4
  | .never => 4

inductive Name where
  | indexed (index : Nat)
  | literal (name : StringLiteral)

inductive Field where
  | indexed (index : Nat)
  | literal (indexing : Indexing) (name : Name) (value : StringLiteral)

def Name.octets (pattern : Octet) (width : Nat) : Name → Bytes
  | .indexed index => numberOctets width pattern index
  | .literal name => numberOctets width pattern 0 ++ name.octets

def Field.octets : Field → Bytes
  | .indexed index => numberOctets 7 0x80#8 index
  | .literal indexing name value =>
      name.octets indexing.pattern indexing.width ++ value.octets

def blockOctets (fields : List Field) : Bytes := fields.flatMap Field.octets

/-- The name a literal stands for, if its index is valid here. An index of 0
announces a literal name, so it is none. -/
def Name.denotes (t : DynTable) : Name → Option Bytes
  | .indexed index => (entryAt t index).map Prod.fst
  | .literal name => some name.string

/-- A header as the claimant of a block sees it: name, value, never indexed. -/
abbrev Triple := Bytes × Bytes × Bool

/-- What a field denotes, and the table behind it. -/
def Field.denotes (t : DynTable) : Field → Option (Triple × DynTable)
  | .indexed index => (entryAt t index).map fun e => ((e.1, e.2, false), t)
  | .literal indexing name value =>
      (name.denotes t).map fun n =>
        ((n, value.string, indexing == .never),
          if indexing = .incremental then t.insert (n, value.string) else t)

/-- What a list of fields denotes, if every index is valid where it occurs. -/
def denotes (t : DynTable) : List Field → Option (List Triple × DynTable)
  | [] => some ([], t)
  | field :: fields =>
      (field.denotes t).bind fun (triple, t) =>
        (denotes t fields).map fun (triples, t) => (triple :: triples, t)

end Shitty.Hpack.Rfc
