import Mathlib.Data.List.Perm.Basic
import Shitty.Core.Theorems.Date
import Shitty.Http1.Logic.Messages
import Shitty.Http1.Theorems.Heads
import Shitty.Http1.Theorems.Sending

/-!
# Messages as they are given to a transport

What `sendMessage` makes of a message: fields are put behind its own where they are
missing, the map of all of them is written in some order, and what is on the wire says
how long its body is. Read again, the message has the body and the fields it was sent
with, and beside them those that were put in; that is said up to the order of the map,
which the reader does not see.
-/

namespace Shitty.Http1

/-! ## Fields that are put in -/

theorem not_isLWS_of_isdigit {c : Octet} (h : isdigit c = true) : isLWS c = false := by
  have hrange := isdigit_iff.mp h
  have hspace : c ≠ SP := by
    rintro rfl
    simp [SP] at hrange
  have htab : c ≠ 0x09#8 := by
    rintro rfl
    simp at hrange
  simp [isLWS, hspace, htab]

theorem not_LF_of_isdigit {c : Octet} (h : isdigit c = true) : LF ≠ c := by
  rintro rfl
  exact absurd h (by decide)

theorem to_string_digit {n : Nat} {c : Octet} (h : c ∈ to_string n) : isdigit c = true :=
  (to_string_decimal n).1 c h

/-- With the number of octets of a body. -/
def contentLengthField (n : Nat) : Field where
  name := octets "content-length"
  value := to_string n
  name_ne := by decide +kernel
  name_colon := by decide +kernel
  name_line := by decide +kernel
  name_front := by decide +kernel
  value_line h := not_LF_of_isdigit (to_string_digit h) rfl
  value_front _ h := not_isLWS_of_isdigit (to_string_digit (List.mem_of_mem_head? h))
  value_back _ h := not_isLWS_of_isdigit (to_string_digit (List.mem_of_mem_getLast? h))

def serverField : Field where
  name := octets "server"
  value := PRODUCT
  name_ne := by decide +kernel
  name_colon := by decide +kernel
  name_line := by decide +kernel
  name_front := by decide +kernel
  value_line := by decide +kernel
  value_front := by decide +kernel
  value_back := by decide +kernel

theorem now_line {tm : Tm} (h : Date.year tm ≤ 9999) : LF ∉ Date.now tm := by
  have hdays : ∀ day : Fin 7, LF ∉ Date.daysOfWeek.get day := by decide +kernel
  have hmonths : ∀ month : Fin 12, LF ∉ Date.months.get month := by decide +kernel
  have hcomma : LF ∉ octets ", " := by decide +kernel
  have hgmt : LF ∉ octets " GMT" := by decide +kernel
  have htwo : ∀ n, n < 100 → LF ∉ Date.two n :=
    fun n hn hmem => not_LF_of_isdigit ((Date.two_digits hn).digits LF hmem) rfl
  have hfour : LF ∉ Date.four (Date.year tm) :=
    fun hmem => not_LF_of_isdigit ((Date.four_digits (by omega)).digits LF hmem) rfl
  have hspace : LF ∉ [SP] := by decide
  have hcolon : LF ∉ [Date.COLON] := by decide
  rw [Date.now_eq]
  simp only [List.mem_append, hdays, hmonths, hcomma, hgmt, hfour, hspace, hcolon,
    htwo tm.tm_mday (by omega), htwo tm.tm_hour (by omega), htwo tm.tm_min (by omega),
    htwo tm.tm_sec (by omega), or_self, not_false_eq_true]

theorem now_front (tm : Tm) : ∀ c, (Date.now tm).head? = some c → isLWS c = false := by
  have hdays : ∀ day : Fin 7, ∀ c, (Date.daysOfWeek.get day).head? = some c → isLWS c = false := by
    decide +kernel
  intro c hc
  obtain ⟨a, b, d, hday⟩ := Date.eq_three (Date.daysOfWeek_three tm.tm_wday)
  rw [Date.now_eq, hday] at hc
  exact hdays tm.tm_wday c (by rw [hday]; simpa using hc)

theorem now_back (tm : Tm) : ∀ c, (Date.now tm).getLast? = some c → isLWS c = false := by
  have hgmt : octets " GMT" = [SP, 0x47, 0x4d] ++ [0x54] := by decide +kernel
  intro c hc
  rw [Date.now_eq, hgmt, ← List.append_assoc, List.getLast?_append] at hc
  simp only [List.getLast?_singleton, Option.some_or, Option.some.injEq] at hc
  rw [← hc]
  decide

def dateField (tm : Tm) (h : Date.year tm ≤ 9999) : Field where
  name := octets "date"
  value := Date.now tm
  name_ne := by decide +kernel
  name_colon := by decide +kernel
  name_line := by decide +kernel
  name_front := by decide +kernel
  value_line := now_line h
  value_front := now_front tm
  value_back := now_back tm

theorem contentLengthField_value (n : Nat) : (contentLengthField n).value = to_string n := rfl

theorem serverField_value : serverField.value = PRODUCT := rfl

theorem dateField_value {tm : Tm} (h : Date.year tm ≤ 9999) :
    (dateField tm h).value = Date.now tm := by
  simp only [dateField]

/-! ## Parcels -/

/-- A message for `sendMessage`, at some time. Content-Length, if it is among the fields, is
that of the body. -/
structure Parcel where
  first_line : Bytes
  fields : List Field
  body : Bytes
  moment : Moment
  first_line_line : LF ∉ first_line
  content_length : ∀ f ∈ fields, f.is "content-length" = true →
    f.value ≠ [] ∧ (∀ c ∈ f.value, isdigit c = true) ∧ decimal f.value = body.length
  /-- No `std::string` is longer, whatever memory there is. -/
  body_fits : body.length < 2 ^ 63
  year : Date.year moment.tm ≤ 9999

namespace Parcel

def message (p : Parcel) : Message where
  body_ := p.body
  headers_ := p.fields.map Field.entry

/-- A field that is put in, or nothing. -/
def missingField (fields : List Field) (field : Field) (name : String) : List Field :=
  if fields.any fun f => f.is name then [] else [field]

/-- The fields of a message as it is sent: its own, and those that are put in where they are
missing. -/
def outgoing (p : Parcel) : List Field :=
  p.fields ++ missingField p.fields (dateField p.moment.tm p.year) "date" ++
    missingField p.fields serverField "server" ++
    missingField p.fields (contentLengthField p.body.length) "content-length"

theorem has_entries (fields : List Field) (name : String) :
    Headers.has (fields.map Field.entry) (octets name) = fields.any fun f => f.is name := by
  rw [Headers.has, List.any_map]
  rfl

theorem missing_entries (fields : List Field) (field : Field) (name : String)
    (hname : field.name = octets name) :
    missing (fields.map Field.entry) (octets name) field.value =
      (missingField fields field name).map Field.entry := by
  rw [missing, has_entries, missingField]
  split
  · rfl
  · rw [List.map_singleton, Field.entry, hname]

/-- What is put in is among the fields. -/
theorem outgoingHeaders_eq (find : Find) (p : Parcel) :
    Sending.outgoingHeaders find p.moment p.message = p.outgoing.map Field.entry := by
  have hdate := missing_entries p.fields (dateField p.moment.tm p.year) "date" rfl
  have hserver := missing_entries p.fields serverField "server" rfl
  have hlength := missing_entries p.fields (contentLengthField p.body.length) "content-length" rfl
  rw [dateField_value] at hdate
  rw [serverField_value] at hserver
  rw [contentLengthField_value] at hlength
  rw [outgoing, List.map_append, List.map_append, List.map_append, ← hdate, ← hserver, ← hlength,
    Sending.outgoingHeaders_eq, message]

/-- Content-Length is there, and is that of the body. -/
theorem outgoing_length (p : Parcel) :
    (∃ f ∈ p.outgoing, f.is "content-length" = true) ∧
      ∀ f ∈ p.outgoing, f.is "content-length" = true →
        f.value ≠ [] ∧ (∀ c ∈ f.value, isdigit c = true) ∧ decimal f.value = p.body.length := by
  have hdate : (dateField p.moment.tm p.year).is "content-length" = false := by
    show CaseInsensitiveEqual (octets "date") (octets "content-length") = false
    decide +kernel
  have hserver : serverField.is "content-length" = false := by decide +kernel
  have hlength : (contentLengthField p.body.length).is "content-length" = true :=
    caseInsensitiveEqual_self _
  have hmem : ∀ f ∈ p.outgoing, f.is "content-length" = true →
      f ∈ p.fields ∨ f = contentLengthField p.body.length := by
    intro f hf his
    simp only [outgoing, missingField, List.mem_append] at hf
    rcases hf with ((hf | hf) | hf) | hf
    · exact .inl hf
    · split at hf
      · cases hf
      · rw [List.mem_singleton.mp hf, hdate] at his
        cases his
    · split at hf
      · cases hf
      · rw [List.mem_singleton.mp hf, hserver] at his
        cases his
    · split at hf
      · cases hf
      · exact .inr (List.mem_singleton.mp hf)
  refine ⟨?_, fun f hf his => ?_⟩
  · by_cases hown : (p.fields.any fun f => f.is "content-length") = true
    · obtain ⟨f, hf, his⟩ := List.any_eq_true.mp hown
      exact ⟨f, by simp [outgoing, hf], his⟩
    · refine ⟨_, ?_, hlength⟩
      simp [outgoing, missingField, hown]
  · rcases hmem f hf his with hf | rfl
    · exact p.content_length f hf his
    · exact ⟨to_string_ne_nil _, (to_string_decimal _).1, (to_string_decimal _).2⟩

end Parcel

/-! ## On the wire -/

/-- What is in some order the values of a function is what the function makes of its
arguments in some order. -/
theorem exists_map_of_perm {α β : Type*} {f : α → β} {l : List β} {xs : List α}
    (h : l.Perm (xs.map f)) : ∃ ys : List α, l = ys.map f ∧ ys.Perm xs := by
  have hcomp := congrFun (congrFun (List.eq_map_comp_perm f) l) xs
  exact hcomp.mpr h

/-- Whichever Content-Length field is found, it is that of the body. -/
theorem getContentLength_fields {fields : List Field} {length : Nat}
    (hsome : ∃ f ∈ fields, f.is "content-length" = true)
    (hall : ∀ f ∈ fields, f.is "content-length" = true →
      f.value ≠ [] ∧ (∀ c ∈ f.value, isdigit c = true) ∧ decimal f.value = length)
    (hfits : length < 2 ^ 63) (find : Find) :
    getContentLength find (fields.map Field.header) = .ok (length : Int) := by
  unfold getContentLength
  cases hfind : find.find (fields.map Field.header) (octets "content-length") with
  | none =>
      obtain ⟨f, hf, his⟩ := hsome
      have hnone := find.complete _ _ hfind f.header (List.mem_map_of_mem hf)
      rw [f.is_header, his] at hnone
      cases hnone
  | some i =>
      obtain ⟨hmem, hequal⟩ := find.get_mem hfind
      obtain ⟨f, hf, heq⟩ := List.mem_map.mp hmem
      rw [← heq, f.is_header] at hequal
      obtain ⟨hne, hdigits, hvalue⟩ := hall f hf hequal
      have hstoul := stoul_decimal hne hdigits (by omega)
      simp only [← heq, Field.header, hstoul, hvalue]
      exact if_neg (by omega)

/-- A parcel as it is on the wire, with its fields in some order. -/
structure OnWire (p : Parcel) (m : WireMessage) : Prop where
  first_line : m.first_line = p.first_line
  body : m.body = p.body
  fields : m.fields.Perm p.outgoing

/-- What the other side has of a parcel. -/
structure Arrives (p : Parcel) (msg : Message) : Prop where
  body : msg.body_ = p.body
  headers : msg.headers_.Perm (p.outgoing.map Field.header)

theorem OnWire.arrives {p : Parcel} {m : WireMessage} (h : OnWire p m) :
    Arrives p m.message.message :=
  ⟨h.body, h.fields.map Field.header⟩

namespace Parcel

variable (find : Find) (order : Order)

/-- What is given to the transport. -/
def output (p : Parcel) : Sending.Output := .sendMessage p.moment p.first_line p.message

/-- How long head and body are. -/
def sizes (p : Parcel) : Nat × Nat :=
  ((p.output.text find order).length - p.body.length, p.body.length)

theorem exists_onWire (p : Parcel) :
    ∃ m, OnWire p m ∧ m.text = p.output.text find order := by
  have hperm := order.perm (Sending.outgoingHeaders find p.moment p.message)
  have hfields := p.outgoingHeaders_eq find
  rw [hfields] at hperm
  obtain ⟨fields, hrendered, hperm⟩ := exists_map_of_perm hperm
  obtain ⟨⟨f, hf, his⟩, hall⟩ := p.outgoing_length
  let m : WireMessage := {
    first_line := p.first_line
    fields := fields
    body := p.body
    first_line_line := p.first_line_line
    length := getContentLength_fields ⟨f, hperm.mem_iff.mpr hf, his⟩
      (fun f hf => hall f (hperm.mem_iff.mp hf)) p.body_fits }
  refine ⟨m, ⟨rfl, rfl, hperm⟩, ?_⟩
  show headText p.first_line fields ++ p.body =
    Sending.messageText find order p.moment p.first_line p.message
  rw [headText_eq, Sending.messageText, hfields, hrendered]
  rfl

/-- Parcels that are sent one behind the other are the stream of the messages they are on the
wire. -/
theorem exists_stream (parcels : List Parcel) :
    ∃ ms, List.Forall₂ OnWire parcels ms ∧
      WireMessage.stream ms = Sending.texts find order (parcels.map output) ∧
      ms.map WireMessage.sizes = parcels.map (sizes find order) := by
  induction parcels with
  | nil => exact ⟨[], .nil, rfl, rfl⟩
  | cons p parcels ih =>
      obtain ⟨m, hm, htext⟩ := p.exists_onWire find order
      obtain ⟨ms, hms, hstream, hsizes⟩ := ih
      refine ⟨m :: ms, .cons hm hms, ?_, ?_⟩
      · rw [WireMessage.stream, List.flatMap_cons, List.map_cons, Sending.texts, List.flatMap_cons,
          htext]
        exact congrArg _ hstream
      · have hlen : m.text.length = m.head.length + m.body.length := List.length_append
        rw [htext] at hlen
        rw [List.map_cons, List.map_cons, hsizes, sizes, hlen, ← hm.body, Nat.add_sub_cancel]
        rfl

/-- No field that is put in has the name. -/
theorem mem_outgoing {p : Parcel} {f : Field} {name : String} (hf : f ∈ p.outgoing)
    (his : f.is name = true)
    (hothers : ∀ other ∈ ["date", "server", "content-length"],
      CaseInsensitiveEqual (octets other) (octets name) = false) : f ∈ p.fields := by
  have hput : ∀ field other, f ∈ missingField p.fields field other → f = field := by
    intro field other hmem
    rw [missingField] at hmem
    split at hmem
    · cases hmem
    · exact List.mem_singleton.mp hmem
  have hnone : ∀ field : Field, f = field → field.is name = false → False := by
    rintro field rfl hother
    rw [his] at hother
    cases hother
  simp only [outgoing, List.mem_append] at hf
  rcases hf with ((hf | hf) | hf) | hf
  · exact hf
  · exact (hnone _ (hput _ _ hf) (hothers "date" (by simp))).elim
  · exact (hnone _ (hput _ _ hf) (hothers "server" (by simp))).elim
  · exact (hnone _ (hput _ _ hf) (hothers "content-length" (by simp))).elim

end Parcel

end Shitty.Http1
