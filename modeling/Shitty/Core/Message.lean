import Shitty.Core.StringUtils

/-!
# Messages

`Headers.h`, `Message.h`, `Request.h` and `Response.h`. The fields of a message are a
`std::unordered_multimap`; the list is in the order of their arrival, which the code
cannot see. Which of several fields with one name `find` returns is up to the
implementation, and so it is a parameter, of which only that is known which the standard
promises.
-/

namespace Shitty

/-- The fields of a message, each with its name and its value. -/
abbrev Headers := List (Bytes × Bytes)

def no_header : Bytes × Bytes := ([], [])

/-- `unordered_multimap::find`, as an index: some field with an equal name, when
there is one. Which of several it is, is left open. -/
structure Find where
  find : Headers → Bytes → Option Nat
  sound : ∀ headers name i, find headers name = some i →
    ∃ field, headers[i]? = some field ∧ CaseInsensitiveEqual field.1 name = true
  complete : ∀ headers name, find headers name = none →
    ∀ field ∈ headers, CaseInsensitiveEqual field.1 name = false

namespace Headers

def add (headers : Headers) (name value : Bytes) : Headers := headers ++ [(name, value)]

/-- `erase` takes all fields of the name. -/
def remove (headers : Headers) (name : Bytes) : Headers :=
  headers.filter fun field => !CaseInsensitiveEqual field.1 name

def set (headers : Headers) (name value : Bytes) : Headers :=
  (headers.remove name).add name value

def get (headers : Headers) (find : Find) (name : Bytes) : Bytes × Bytes :=
  match find.find headers name with
  | some i => headers.getD i no_header
  | none => no_header

end Headers

/-- The choice that returns, of the fields of a name, the one that arrived first. -/
def Find.first : Find where
  find headers name := headers.findIdx? fun field => CaseInsensitiveEqual field.1 name
  sound headers name i h := by
    obtain ⟨hi, hfield, -⟩ := List.findIdx?_eq_some_iff_getElem.mp h
    exact ⟨headers[i], List.getElem?_eq_getElem hi, hfield⟩
  complete headers name h field hfield := by
    have hnone := List.findIdx?_eq_none_iff.mp h field hfield
    simpa using hnone

namespace Find

variable (find : Find) {headers : Headers} {name : Bytes}

/-- Without a field of the name there is none to be found. -/
theorem find_none (h : ∀ field ∈ headers, CaseInsensitiveEqual field.1 name = false) :
    find.find headers name = none := by
  cases hfind : find.find headers name with
  | none => rfl
  | some i =>
      obtain ⟨field, hfield, hequal⟩ := find.sound _ _ _ hfind
      rw [h field (List.mem_of_getElem? hfield)] at hequal
      cases hequal

theorem get_none (h : ∀ field ∈ headers, CaseInsensitiveEqual field.1 name = false) :
    headers.get find name = no_header := by
  rw [Headers.get, find.find_none h]

/-- What is found is a field of the name. -/
theorem get_mem {i : Nat} (h : find.find headers name = some i) :
    headers.getD i no_header ∈ headers ∧
      CaseInsensitiveEqual (headers.getD i no_header).1 name = true := by
  obtain ⟨field, hfield, hequal⟩ := find.sound _ _ _ h
  rw [List.getD_eq_getElem?_getD, hfield, Option.getD_some]
  exact ⟨List.mem_of_getElem? hfield, hequal⟩

end Find

structure Message where
  body_ : Bytes := []
  headers_ : Headers := []
  deriving DecidableEq, Repr

structure Request where
  method_ : Bytes
  path_ : Bytes
  message_ : Message := {}
  deriving DecidableEq, Repr

structure Response where
  status_code_ : UInt32 := 200
  message : Message := {}
  deriving DecidableEq, Repr

end Shitty
