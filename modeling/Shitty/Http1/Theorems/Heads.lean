import Shitty.Http1.Theorems.Segmentation

/-!
# Heads of messages there and back

A first line and what `renderHeaders` writes of some fields are read as one message with
these fields, however they are cut into reads. The one call of the handler is for the
whole of it, and what that call makes of the world is all that happens.
-/

namespace Shitty.Http1

open Lib Lib.Resumable Transport

variable {ω σ : Type}

/-- In a world as it was, one message has been given to `handleIncomingMessage`: with the first
line, no body and the fields with their names in lower case. The world is what that call has made
of it, and nothing is left in the buffer. -/
structure HandledOnce (virtual : Virtual ω) (w : ω) (first_line : Bytes) (fields : List Field)
    (s : Transport ω) : Prop where
  handled : ∃ msg, s.handled = [msg] ∧ msg.first_line = first_line ∧ msg.message.body_ = [] ∧
    msg.message.headers_.Perm (fields.map Field.header) ∧
    s.world = endState (virtual.handleIncomingMessage msg w)
  consumed : s.buf = []

/-- The fields that make a difference to how a message is read or what is done with it. -/
def significant : List String :=
  ["content-length", "transfer-encoding", "expect", "upgrade", "connection"]

/-- A derived class that does not override `onEndOfMessageHeaders`. -/
def inherited (virtual : Virtual ω) : Virtual ω :=
  { virtual with onEndOfMessageHeaders := fun _ => pure () }

/-- A name and a value as they are put into the map. -/
def Field.entry (f : Field) : Bytes × Bytes := (f.name, f.value)

theorem headText_eq (first_line : Bytes) (fields : List Field) :
    headText first_line fields = first_line ++ CRLF ++ renderHeaders (fields.map Field.entry) := by
  have hcolon : octets ": " = [0x3a, SP] := by decide +kernel
  have hlines : (fields.map Field.entry).map
      (fun header => header.1 ++ octets ": " ++ header.2 ++ CRLF) =
        fields.map fun f => f.line ++ CRLF := by
    rw [List.map_map]
    refine List.map_congr_left fun f _ => ?_
    rw [Function.comp_apply, hcolon]
    rfl
  rw [headText, renderHeaders_eq, hlines]
  simp only [List.append_assoc]

section

variable (find : Find) (virtual : Virtual ω) {first_line : Bytes} {fields : List Field}

/-- There is no body behind such a head. -/
theorem getContentLength_zero (hlength : ∀ f ∈ fields, f.is "content-length" = false)
    (hchunked : ∀ f ∈ fields, f.is "transfer-encoding" = false) :
    getContentLength find (fields.map Field.header) = .ok 0 := by
  unfold getContentLength
  rw [fields_find_none find hlength]
  simp only
  rw [fields_find_none find hchunked]

/-- Nothing closes the connection behind such a head. -/
theorem closes_headOnly (hconnection : ∀ f ∈ fields, f.is "connection" = false) :
    closes find (headOnly first_line fields) = false := by
  have hnone : Headers.get (fields.map Field.header) find (octets "connection") = no_header := by
    rw [Headers.get, fields_find_none find hconnection]
  unfold closes headOnly
  rw [hnone]
  decide +kernel

/-- The reads of a head are drained with one message. -/
theorem run_head {s : Transport ω} {world : ω} (hfresh : s = { world := s.world })
    (hline : LF ∉ first_line) (hfields : ∀ name ∈ significant, ∀ f ∈ fields, f.is name = false)
    (hreplaced : virtual.replaced s.world = false)
    (hend : virtual.onEndOfMessageHeaders (fields.map Field.header) s.world = .ok () world)
    {pieces : List Bytes} (hne : ∀ piece ∈ pieces, piece ≠ [])
    (hcut : pieces.flatten = headText first_line fields) :
    (run find virtual pieces s).1.handled = [headOnly first_line fields] ∧
      (run find virtual pieces s).1.buf = [] ∧
      (run find virtual pieces s).1.world =
        endState (virtual.handleIncomingMessage (headOnly first_line fields) world) := by
  have hbuf : s.buf = [] := by rw [hfresh]
  have hincoming : s.incoming_message_ = none := by rw [hfresh]
  have hnone : s.handled = [] := by rw [hfresh]
  have hparked : parked s = false := by
    rw [parked, hincoming]
    rfl
  have hdrains := run_drains find virtual hne hbuf hparked
  have hfed : (s.feed pieces.flatten).buf = headText first_line fields := by
    rw [Transport.feed, hbuf, List.nil_append, hcut]
  have hlength := getContentLength_zero find (hfields "content-length" (by decide))
    (hfields "transfer-encoding" (by decide))
  obtain ⟨t, err, hdrains', hhandled, hempty, hworld⟩ := head_drains find (secondEnd pieces)
    pieces.flatten.length hline (s := s.feed pieces.flatten) hincoming hreplaced hfed hlength hend
  have hsame := hdrains.unique hdrains'
  simp only [Prod.mk.injEq] at hsame
  rw [hsame.1.1]
  refine ⟨?_, hempty, hworld (closes_headOnly find (hfields "connection" (by decide)))⟩
  rw [hhandled]
  exact congrArg (· ++ [headOnly first_line fields]) hnone

end

/-- For a server transport, and for any class that does nothing at the end of a head. -/
theorem head_round_trip (find : Find) (server : Server σ) (app : σ) (virtual : Virtual ω) (w : ω)
    (hfresh : virtual.replaced w = false) (first_line : Bytes) (hline : LF ∉ first_line)
    (fields order : List Field) (hfields : ∀ f ∈ fields, ∀ name ∈ significant, f.is name = false)
    (horder : order.Perm fields) (pieces : List Bytes) (hne : ∀ piece ∈ pieces, piece ≠ [])
    (hcut : pieces.flatten = first_line ++ CRLF ++ renderHeaders (order.map Field.entry)) :
    HandledOnce (ServerTransport.virtual find server) (ServerTransport.new app).world first_line
        fields (run find (ServerTransport.virtual find server) pieces (ServerTransport.new app)).1 ∧
      HandledOnce (inherited virtual) w first_line fields
        (run find (inherited virtual) pieces { world := w }).1 := by
  have hnone : ∀ name ∈ significant, ∀ f ∈ order, f.is name = false :=
    fun name hname f hf => hfields f (horder.subset hf) name hname
  have hexpect : Headers.get (order.map Field.header) find (octets "expect") = no_header := by
    rw [Headers.get, fields_find_none find (hnone "expect" (by decide))]
  rw [← headText_eq] at hcut
  -- the fields arrive in the order in which they were written
  have hperm : (order.map Field.header).Perm (fields.map Field.header) := horder.map _
  constructor
  · have hend : (ServerTransport.virtual find server).onEndOfMessageHeaders
        (order.map Field.header) (ServerTransport.new app).world =
          .ok () (ServerTransport.new app).world :=
      ServerTransport.onEndOfMessageHeaders_none hexpect
    obtain ⟨hhandled, hempty, hworld⟩ := run_head find _ rfl hline hnone rfl hend hne hcut
    exact ⟨⟨_, hhandled, rfl, rfl, hperm, hworld⟩, hempty⟩
  · obtain ⟨hhandled, hempty, hworld⟩ := run_head find (inherited virtual)
      (s := { world := w }) rfl hline hnone hfresh rfl hne hcut
    exact ⟨⟨_, hhandled, rfl, rfl, hperm, hworld⟩, hempty⟩

/-! ## A head in three reads -/

def emptyField : Field where
  name := octets "X-Empty"
  value := []
  name_ne := by decide +kernel
  name_colon := by decide +kernel
  name_line := by decide +kernel
  name_front := by decide +kernel
  value_line := by decide +kernel
  value_front := by decide +kernel
  value_back := by decide +kernel

def returnField : Field where
  name := octets "X-Return"
  value := octets "a" ++ [CR]
  name_ne := by decide +kernel
  name_colon := by decide +kernel
  name_line := by decide +kernel
  name_front := by decide +kernel
  value_line := by decide +kernel
  value_front := by decide +kernel
  value_back := by decide +kernel

/-- The second read ends between the carriage return of the value and the one behind it. -/
def cutHead : List Bytes :=
  [octets "GET / HTT", octets "P/1.1" ++ CRLF ++ octets "X-Return: a" ++ [CR],
    CRLF ++ octets "X-Empty: " ++ CRLF ++ CRLF]

/-- An empty value and one that ends in a carriage return, in three reads. -/
theorem head_round_trip_cut :
    HandledOnce (ServerTransport.virtual Find.first okServer) (ServerTransport.new ()).world
        (octets "GET / HTTP/1.1") [emptyField, returnField]
        (run Find.first (ServerTransport.virtual Find.first okServer) cutHead
          (ServerTransport.new ())).1 ∧
      HandledOnce (inherited (ServerTransport.virtual Find.first okServer)) { app := () }
        (octets "GET / HTTP/1.1") [emptyField, returnField]
        (run Find.first (inherited (ServerTransport.virtual Find.first okServer)) cutHead
          { world := { app := () } }).1 :=
  head_round_trip Find.first okServer () (ServerTransport.virtual Find.first okServer)
    { app := () } rfl _ (by decide +kernel) _ [returnField, emptyField] (by decide +kernel)
    (.swap _ _ _) cutHead (by decide +kernel) (by decide +kernel)

end Shitty.Http1
