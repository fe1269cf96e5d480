import Shitty.Core.Stream
import Shitty.Lib.HashMultimap

/-!
# The table of a header

`Headers.cpp` over its `std::unordered_multimap`: what `std::hash` returns, where an
entry is put in its bucket and how many buckets there are is left open. The operations
are those of the class, each as the calls of the container that its source makes. What
they come to, for any of these choices, is in `Core/Theorems/Headers.lean`.
-/

namespace Shitty

open Lib.HashMultimap

/-- `ascii::CaseInsensitiveHash`: `std::hash` of the string in lower case. -/
def CaseInsensitiveHash (std_hash : Bytes → Nat) (s : Bytes) : Nat := std_hash (asciiLower s)

def hashing (std_hash : Bytes → Nat) : Hashing Bytes where
  hash := CaseInsensitiveHash std_hash
  equal := CaseInsensitiveEqual

/-- `kv_`, the hash table of a `Headers`, whose keys are hashed and compared without letter
case. -/
abbrev HeaderTable (std_hash : Bytes → Nat) := Table (hashing std_hash) Bytes

namespace HeaderTable

variable {std_hash : Bytes → Nat} (place : Place Bytes Bytes)

/-- The name and the value in a string. -/
def splitString (hstr : Bytes) : Except Exn (Bytes × Bytes) :=
  match hstr.idxOf? 0x3a with
  | none => .error (.runtime_error "Malformed string header; ':' required")
  | some col => .ok (trimLWS (hstr.take col), trimLWS (hstr.drop (col + 1)))

/-- The constructor that takes strings, each of which is split at its colon and added. -/
def ofStrings (more : Nat) (headers : List Bytes) : Except Exn (HeaderTable std_hash) :=
  headers.foldlM (fun t hstr => do
    let (name, value) ← splitString hstr
    return t.emplace place name value) (Table.empty _ _ more)

/-- The constructor that takes names and values. -/
def ofPairs (more : Nat) (headers : List (Bytes × Bytes)) : HeaderTable std_hash :=
  (Table.empty _ _ more).emplaceAll place headers

/-- `operator+=`, which adds the elements of another table to this one, one by one. -/
def append (t headers : HeaderTable std_hash) : HeaderTable std_hash :=
  t.emplaceAll place headers.elements

def set (t : HeaderTable std_hash) (name value : Bytes) : HeaderTable std_hash :=
  (t.erase name).emplace place name value

def add (t : HeaderTable std_hash) (name value : Bytes) : HeaderTable std_hash :=
  t.emplace place name value

def remove (t : HeaderTable std_hash) (name : Bytes) : HeaderTable std_hash := t.erase name

def get (t : HeaderTable std_hash) (name : Bytes) : Bytes × Bytes :=
  (t.find? name).getD no_header

/-- `setContentLength`, and the functions of `Stream.cpp`. -/
def setMissing (t : HeaderTable std_hash) (name value : Bytes) : HeaderTable std_hash :=
  match t.find? name with
  | some _ => t
  | none => t.emplace place name value

end HeaderTable

/-- What is done to a header once it is there, by its own functions or by the table. -/
inductive HeaderCall where
  | add (name value : Bytes)
  | set (name value : Bytes)
  | remove (name : Bytes)
  /-- `+=`, with the entries of the other one. -/
  | append (more : Nat) (headers : List (Bytes × Bytes))
  | setMissing (name value : Bytes)
  | rehash (more : Nat)

namespace HeaderCall

/-- What a call does to the hash table, where each element goes to the place it is given. -/
def onTable {std_hash : Bytes → Nat} (place : Place Bytes Bytes) (t : HeaderTable std_hash) :
    HeaderCall → HeaderTable std_hash
  | add name value => t.add place name value
  | set name value => t.set place name value
  | remove name => t.remove name
  | append more headers => t.append place (.ofPairs place more headers)
  | setMissing name value => t.setMissing place name value
  | rehash more => t.rehash place more

end HeaderCall

end Shitty
