import Shitty.Core.Message

/-!
# General headers

`Stream.cpp`, and `setContentLength` of `Headers.cpp`: what is put into the header of a
message on its way out. A general field is put in unless there is one of its name
already. The lemmas say which fields there are behind that, whatever the order of the
map is.
-/

namespace Shitty

def PRODUCT : Bytes := octets "Shitty"

/-- A field is put in where there is none of its name. -/
def setMissing (find : Find) (name value : Bytes) (headers : Headers) : Headers :=
  match find.find headers name with
  | some _ => headers
  | none => headers.add name value

section

variable (find : Find)

/-- With the string that `Date::now` returns. -/
def setDateHeader (now : Bytes) (headers : Headers) : Headers :=
  setMissing find (octets "date") now headers

def setServerHeader (headers : Headers) : Headers :=
  setMissing find (octets "server") PRODUCT headers

def setGeneralServerHeaders (now : Bytes) (headers : Headers) : Headers :=
  setServerHeader find (setDateHeader find now headers)

def setUserAgentHeader (headers : Headers) : Headers :=
  setMissing find (octets "user-agent") PRODUCT headers

/-- "Trust the caller, it's faster ;)" -/
def setContentLength (content_length : Nat) (headers : Headers) : Headers :=
  setMissing find (octets "content-length") (to_string content_length) headers

end

/-! ## Which fields there are -/

namespace Headers

/-- A field of the name, in any letter case. -/
def has (headers : Headers) (name : Bytes) : Bool :=
  headers.any fun field => CaseInsensitiveEqual field.1 name

@[simp] theorem has_nil (name : Bytes) : has [] name = false := rfl

@[simp] theorem has_append (headers others : Headers) (name : Bytes) :
    has (headers ++ others) name = (headers.has name || has others name) := List.any_append

@[simp] theorem has_singleton (name value other : Bytes) :
    has [(name, value)] other = CaseInsensitiveEqual name other := by
  simp [has]

theorem has_perm {headers others : Headers} (h : headers.Perm others) (name : Bytes) :
    headers.has name = others.has name := by
  rw [Bool.eq_iff_iff, has, has, List.any_eq_true, List.any_eq_true]
  exact exists_congr fun field => and_congr_left' h.mem_iff

theorem not_has {headers : Headers} {name : Bytes} :
    headers.has name = false ↔ ∀ field ∈ headers, CaseInsensitiveEqual field.1 name = false := by
  simp [has]

end Headers

theorem Find.isSome_eq (find : Find) (headers : Headers) (name : Bytes) :
    (find.find headers name).isSome = headers.has name := by
  cases hfind : find.find headers name with
  | none =>
      rw [Option.isSome_none, Headers.not_has.mpr (find.complete _ _ hfind)]
  | some i =>
      obtain ⟨field, hfield, hequal⟩ := find.sound _ _ _ hfind
      rw [Option.isSome_some, Headers.has, eq_comm, List.any_eq_true]
      exact ⟨field, List.mem_of_getElem? hfield, hequal⟩

/-- The field to be put in, or nothing. -/
def missing (headers : Headers) (name value : Bytes) : Headers :=
  if headers.has name then [] else [(name, value)]

theorem missing_congr {headers others : Headers} {name : Bytes}
    (h : headers.has name = others.has name) (value : Bytes) :
    missing headers name value = missing others name value := by
  rw [missing, missing, h]

theorem has_missing (headers : Headers) (name value other : Bytes) :
    Headers.has (missing headers name value) other =
      (!headers.has name && CaseInsensitiveEqual name other) := by
  rw [missing]
  cases headers.has name <;> simp

theorem setMissing_eq (find : Find) (name value : Bytes) (headers : Headers) :
    setMissing find name value headers = headers ++ missing headers name value := by
  have hsome := find.isSome_eq headers name
  unfold setMissing missing
  cases hfind : find.find headers name with
  | none =>
      rw [hfind] at hsome
      rw [← hsome, if_neg (by simp)]
      rfl
  | some i =>
      rw [hfind] at hsome
      rw [← hsome, if_pos (by simp), List.append_nil]

@[simp] theorem caseInsensitiveEqual_self (s : Bytes) : CaseInsensitiveEqual s s = true := by
  simp [CaseInsensitiveEqual]

/-! ## What is put in -/

/-- No field that is put in makes a difference to the other. -/
theorem setGeneralServerHeaders_eq (find : Find) (now : Bytes) (headers : Headers) :
    setGeneralServerHeaders find now headers =
      headers ++ missing headers (octets "date") now ++ missing headers (octets "server") PRODUCT := by
  have hnames : CaseInsensitiveEqual (octets "date") (octets "server") = false := by decide +kernel
  rw [setGeneralServerHeaders, setServerHeader, setDateHeader, setMissing_eq, setMissing_eq]
  congr 1
  refine missing_congr ?_ PRODUCT
  rw [Headers.has_append, has_missing, hnames, Bool.and_false, Bool.or_false]

end Shitty
