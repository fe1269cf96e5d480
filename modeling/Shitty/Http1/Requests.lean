import Shitty.Http1.ServerTransport

/-!
# Requests on the wire

The text of a request as a client writes it, and the message that is meant by it. The
limits of a field and of a request are fields of their structures: what is a separator
stands in no part, and the length of the body is the one that is announced.
-/

namespace Shitty.Http1

/-- A header field: a name, and a value without white space around it. -/
structure Field where
  name : Bytes
  value : Bytes
  name_ne : name ≠ []
  name_colon : (0x3a : Octet) ∉ name
  name_line : LF ∉ name
  name_front : ∀ c, name.head? = some c → isLWS c = false
  value_line : LF ∉ value
  value_front : ∀ c, value.head? = some c → isLWS c = false
  value_back : ∀ c, value.getLast? = some c → isLWS c = false

namespace Field

/-- The line of a field, `name: value`, without the end of the line. -/
def line (f : Field) : Bytes := f.name ++ [0x3a, SP] ++ f.value

/-- What is kept of the field. -/
def header (f : Field) : Bytes × Bytes := (asciiLower f.name, f.value)

/-- Whether it is a field of the name, in any letter case. -/
def is (f : Field) (name : String) : Bool := CaseInsensitiveEqual f.name (octets name)

theorem line_no_LF (f : Field) : LF ∉ f.line := by
  simp only [line, List.mem_append, not_or]
  exact ⟨⟨f.name_line, by decide⟩, f.value_line⟩

/-- Whether a field has a name does not depend on letter case. -/
theorem is_header (f : Field) (name : String) :
    CaseInsensitiveEqual f.header.1 (octets name) = f.is name :=
  caseInsensitiveEqual_lower f.name (octets name)

end Field

theorem fields_find_none (find : Find) {fields : List Field} {name : String}
    (h : ∀ f ∈ fields, f.is name = false) :
    find.find (fields.map Field.header) (octets name) = none := by
  refine find.find_none fun field hfield => ?_
  obtain ⟨f, hf, rfl⟩ := List.mem_map.mp hfield
  rw [f.is_header]
  exact h f hf

/-- The text of the head of a message: its first line, its fields and an empty line. -/
def headText (first_line : Bytes) (fields : List Field) : Bytes :=
  first_line ++ CRLF ++ (fields.map fun f => f.line ++ CRLF).flatten ++ CRLF

/-- A request with a method and a path without spaces, and a body of exactly
Content-Length octets when that field is there and none otherwise. -/
structure WireRequest where
  method : Bytes
  path : Bytes
  fields : List Field
  body : Bytes
  method_space : SP ∉ method
  method_line : LF ∉ method
  path_space : SP ∉ path
  path_line : LF ∉ path
  content_length : ∀ f ∈ fields, f.is "content-length" = true →
    f.value ≠ [] ∧ (∀ c ∈ f.value, isdigit c = true) ∧ decimal f.value = body.length
  no_body : (∀ f ∈ fields, f.is "content-length" = false) → body = []
  not_chunked : ∀ f ∈ fields, f.is "transfer-encoding" = false
  /-- No `std::string` is longer, whatever memory there is. -/
  body_fits : body.length < 2 ^ 63

namespace WireRequest

def first_line (r : WireRequest) : Bytes :=
  r.method ++ SP :: r.path ++ SP :: octets "HTTP/1.1"

def head (r : WireRequest) : Bytes := headText r.first_line r.fields

def text (r : WireRequest) : Bytes := r.head ++ r.body

/-- The request's own first line, header fields and body. -/
def message (r : WireRequest) : IncomingMessage where
  first_line := r.first_line
  message := { body_ := r.body, headers_ := r.fields.map Field.header }

/-- No Upgrade, no Expect and no `Connection: close`. -/
structure Plain (r : WireRequest) : Prop where
  upgrade : ∀ f ∈ r.fields, f.is "upgrade" = false
  expect : ∀ f ∈ r.fields, f.is "expect" = false
  connection : ∀ f ∈ r.fields, f.is "connection" = true → f.value ≠ octets "close"

/-! ## What the transport makes of the fields -/

section

variable (find : Find) (r : WireRequest)

theorem first_line_no_LF : LF ∉ r.first_line := by
  have hversion : LF ∉ octets "HTTP/1.1" := by decide +kernel
  have hspace : LF ≠ SP := by decide
  simp only [first_line, List.mem_append, List.mem_cons, not_or]
  exact ⟨⟨r.method_line, hspace, r.path_line⟩, hspace, hversion⟩

theorem get_none {name : String} (h : ∀ f ∈ r.fields, f.is name = false) :
    Headers.get (r.fields.map Field.header) find (octets name) = no_header := by
  rw [Headers.get, fields_find_none find h]

/-- A field that is found is a field of the name. -/
theorem find_some {name : String} {i : Nat}
    (h : find.find (r.fields.map Field.header) (octets name) = some i) :
    ∃ f ∈ r.fields, f.is name = true ∧ (r.fields.map Field.header).getD i no_header = f.header := by
  obtain ⟨hmem, hequal⟩ := find.get_mem h
  obtain ⟨f, hf, heq⟩ := List.mem_map.mp hmem
  rw [← heq, f.is_header] at hequal
  exact ⟨f, hf, hequal, heq.symm⟩

/-- Whichever Content-Length field is found, it is that of the body. -/
theorem getContentLength_eq :
    getContentLength find (r.fields.map Field.header) = .ok (r.body.length : Int) := by
  have hfits := r.body_fits
  unfold getContentLength
  cases hfind : find.find (r.fields.map Field.header) (octets "content-length") with
  | some i =>
      obtain ⟨f, hf, his, heq⟩ := r.find_some find hfind
      obtain ⟨hne, hdigits, hvalue⟩ := r.content_length f hf his
      have hstoul := stoul_decimal hne hdigits (by omega)
      simp only [heq, Field.header, hstoul, hvalue]
      exact if_neg (by omega)
  | none =>
      have hnone : r.body = [] := by
        refine r.no_body fun f hf => ?_
        have := find.complete _ _ hfind f.header (List.mem_map_of_mem hf)
        rwa [f.is_header] at this
      simp only [fields_find_none find r.not_chunked, hnone]
      rfl

/-- The connection stays open behind a plain request. -/
theorem not_closes (h : r.Plain) :
    (r.message.message.headers_.get find (octets "connection")).2 ≠ octets "close" := by
  rw [message, Headers.get]
  cases hfind : find.find (r.fields.map Field.header) (octets "connection") with
  | none =>
      show ([] : Bytes) ≠ octets "close"
      decide +kernel
  | some i =>
      obtain ⟨f, hf, his, heq⟩ := r.find_some find hfind
      simp only [heq]
      exact h.connection f hf his

theorem parseRequestLine_first_line :
    parseRequestLine r.first_line =
      .ok { method := r.method, path := r.path, version := octets "HTTP/1.1" } :=
  parseRequestLine_ok _ r.method_space r.path_space

end

end WireRequest

/-- The requests one behind the other. -/
def stream (requests : List WireRequest) : Bytes := (requests.map WireRequest.text).flatten

theorem stream_cons (r : WireRequest) (requests : List WireRequest) :
    stream (r :: requests) = r.text ++ stream requests := rfl

/-! ## Parts of a request for `/` -/

theorem get_space : SP ∉ octets "GET" := by decide +kernel

theorem get_line : LF ∉ octets "GET" := by decide +kernel

theorem root_space : SP ∉ octets "/" := by decide +kernel

theorem root_line : LF ∉ octets "/" := by decide +kernel

theorem no_fields (name : String) : ∀ f ∈ ([] : List Field), f.is name = false := by simp

theorem empty_fits : ([] : Bytes).length < 2 ^ 63 := Nat.two_pow_pos 63

end Shitty.Http1
