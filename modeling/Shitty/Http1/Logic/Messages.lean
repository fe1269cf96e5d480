import Shitty.Http1.Logic.Bodies
import Shitty.Http1.Logic.Pipeline

/-!
# Messages with bodies

Messages of any kind one behind the other, requests or responses: where each body is due
where it ends, the virtual functions are called for one message after the other. One
message is reached behind another by the way through its head and its body. The run of
all of them is by induction on the list, with the offset at which the next one begins.
-/

namespace Shitty.Http1

open Lib.Resumable Transport

/-- A message whose fields say how long its body is. -/
structure WireMessage where
  first_line : Bytes
  fields : List Field
  body : Bytes
  first_line_line : LF ∉ first_line
  length : ∀ find, getContentLength find (fields.map Field.header) = .ok (body.length : Int)

namespace WireMessage

def head (m : WireMessage) : Bytes := headText m.first_line m.fields

def text (m : WireMessage) : Bytes := m.head ++ m.body

/-- The message that the transport makes of it, with its names in lower case. -/
def message (m : WireMessage) : IncomingMessage where
  first_line := m.first_line
  message := { body_ := m.body, headers_ := m.fields.map Field.header }

/-- The texts of messages, one behind the other, as they are on the wire. -/
def stream (messages : List WireMessage) : Bytes := messages.flatMap text

end WireMessage

/-- How long head and body are. -/
def WireMessage.sizes (m : WireMessage) : Nat × Nat := (m.head.length, m.body.length)

/-- The bodies of messages that begin at an offset are due where they end. -/
def Paced (due : Nat → Option Nat) : Nat → List (Nat × Nat) → Prop
  | _, [] => True
  | start, (head, body) :: sizes =>
      (body ≠ 0 → due (start + head) = some (start + head + body)) ∧
        Paced due (start + head + body) sizes

namespace Transport

variable {ω : Type} {find : Find} {virtual : Virtual ω}

/-- What the virtual functions make of the world for one message, without an exception and
without replacing the transport. -/
structure Takes (find : Find) (virtual : Virtual ω) (m : WireMessage) (w w' : ω) : Prop where
  calls : ∃ w₁ w₂, virtual.onEndOfMessageHeaders (m.fields.map Field.header) w = .ok () w₁ ∧
    virtual.handleIncomingMessage m.message w₁ = .ok () w₂ ∧ virtual.replaced w₁ = false ∧
    virtual.replaced w₂ = false ∧ w' = if closes find m.message then virtual.close w₂ else w₂
  stays : virtual.replaced w' = false

/-- What the virtual functions make of the world for messages one behind the other. -/
inductive TakesAll (find : Find) (virtual : Virtual ω) : List WireMessage → ω → ω → Prop
  | nil {w} : TakesAll find virtual [] w w
  | cons {m messages w w' w''} : Takes find virtual m w w' →
      TakesAll find virtual messages w' w'' → TakesAll find virtual (m :: messages) w w''

section

variable {due : Nat → Option Nat} {received : Nat} {m : WireMessage} {w w' : ω}

/-- Behind the head of a message with a body. -/
theorem body_reached (due : Nat → Option Nat) (received : Nat) (hbody : m.body ≠ [])
    (hreplaced : virtual.replaced w = false)
    (hend : virtual.onEndOfMessageHeaders (m.fields.map Field.header) w = .ok () w')
    (rest : Bytes) (handled : List IncomingMessage) :
    ∃ s : Transport ω, Reaches (messages find virtual due)
        (between (m.text ++ rest) handled w, received) (s, received) ∧
      s.Awaits (headOnly m.first_line m.fields) m.body.length ∧
      s.buf = m.body ++ rest ∧ s.handled = handled ∧ s.world = w' := by
  have hpos := List.length_pos_iff.mpr hbody
  have hbuf : (between (m.text ++ rest) handled w).buf =
      headText m.first_line m.fields ++ (m.body ++ rest) := List.append_assoc _ _ _
  obtain ⟨last_header_, hparked⟩ := head_parked due received m.first_line_line rfl hreplaced hbuf
    (m.length find) (by omega) hend
  exact ⟨_, hparked, ⟨rfl, rfl, rfl, rfl, hpos⟩, rfl, rfl, rfl⟩

/-- A message whose body is due where it ends. -/
theorem message_reaches (h : Takes find virtual m w w') (rest : Bytes)
    (handled : List IncomingMessage) (hreplaced : virtual.replaced w = false)
    (hinside : (m.text ++ rest).length ≤ received)
    (hdue : m.body.length ≠ 0 → due (received - (m.text ++ rest).length + m.head.length) =
      some (received - (m.text ++ rest).length + m.head.length + m.body.length)) :
    Reaches (messages find virtual due) (between (m.text ++ rest) handled w, received)
      (between rest (handled ++ [m.message]) w', received) := by
  obtain ⟨w₁, w₂, hend, hhandle, hstays, hstays', rfl⟩ := h.calls
  have hlen : (m.text ++ rest).length = m.head.length + (m.body ++ rest).length := by
    rw [WireMessage.text, List.append_assoc, List.length_append]
  have htext : m.text.length = m.head.length + m.body.length := List.length_append
  have hbuf : (between (m.text ++ rest) handled w).buf =
      headText m.first_line m.fields ++ (m.body ++ rest) := by
    show m.text ++ rest = _
    rw [WireMessage.text, List.append_assoc]
    rfl
  by_cases hbody : m.body = []
  · -- handled at the empty line
    have hmsg : m.message = headOnly m.first_line m.fields := by
      rw [WireMessage.message, hbody]
      rfl
    have hlength := m.length find
    rw [hbody] at hlength hbuf
    rw [hmsg] at hhandle
    rw [hmsg]
    exact head_handled due received m.first_line_line rfl hreplaced hbuf hlength hend hhandle hstays'
  · -- parked behind the head, then read at once
    have hpos := List.length_pos_iff.mpr hbody
    obtain ⟨s, hparked, hawaits, hrest, hhandled, hworld⟩ :=
      body_reached due received hbody hreplaced hend rest handled
    refine hparked.tail ?_
    have hstart : received - (m.text ++ rest).length + m.head.length =
        received - (m.body ++ rest).length := by omega
    have hmsg : IncomingMessage.append (headOnly m.first_line m.fields)
        ((m.body ++ rest).take m.body.length) = m.message := by
      rw [List.take_left]
      rfl
    have hdue' := hdue (by omega)
    rw [hstart] at hdue'
    rw [← hrest] at hdue' hmsg
    have hread := body_read find hawaits (by rw [hworld]; exact hstays)
      (by rw [hrest]; omega) (by rw [hrest, List.length_append]; omega) hdue'
      (by rw [hmsg, hworld]; exact hhandle) hstays'
    rw [hmsg, hrest, hhandled, List.drop_left] at hread
    exact hread

theorem messages_reach (due : Nat → Option Nat) (received : Nat) {ms : List WireMessage}
    (h : TakesAll find virtual ms w w') (rest : Bytes) :
    ∀ handled : List IncomingMessage, virtual.replaced w = false →
      (WireMessage.stream ms ++ rest).length ≤ received →
      Paced due (received - (WireMessage.stream ms ++ rest).length) (ms.map WireMessage.sizes) →
      Reaches (messages find virtual due)
        (between (WireMessage.stream ms ++ rest) handled w, received)
        (between rest (handled ++ ms.map WireMessage.message) w', received) := by
  induction h with
  | nil =>
      intro handled _ _ _
      rw [List.map_nil, List.append_nil]
      exact .refl
  | @cons m ms w₀ w₁ w₂ hm _ ih =>
      intro handled hreplaced hinside hpaced
      have hstream : WireMessage.stream (m :: ms) ++ rest =
          m.text ++ (WireMessage.stream ms ++ rest) := by
        rw [WireMessage.stream, List.flatMap_cons, List.append_assoc]
        rfl
      rw [hstream] at hinside hpaced ⊢
      obtain ⟨hdue, hrest⟩ := hpaced
      have hfirst := message_reaches hm (WireMessage.stream ms ++ rest) handled hreplaced hinside hdue
      have htext : m.text.length = m.head.length + m.body.length := List.length_append
      rw [List.length_append] at hinside hrest
      rw [show received - (m.text.length + (WireMessage.stream ms ++ rest).length) +
        m.head.length + m.body.length = received - (WireMessage.stream ms ++ rest).length by omega]
        at hrest
      have hothers := ih (handled ++ [m.message]) hm.stays (by omega) hrest
      rw [List.append_assoc] at hothers
      exact hfirst.trans hothers

end

/-- Any cutting of messages in which each body is read in two reads: one that ends in it or
right in front of it, and one that ends where it ends. -/
theorem run_messages {ms : List WireMessage} {w w' : ω} (h : TakesAll find virtual ms w w')
    (hreplaced : virtual.replaced w = false) {pieces : List Bytes}
    (hne : ∀ piece ∈ pieces, piece ≠ []) (hcut : pieces.flatten = WireMessage.stream ms)
    (hpaced : Paced (secondEnd pieces) 0 (ms.map WireMessage.sizes)) (handled : List IncomingMessage) :
    run find virtual pieces (between [] handled w) =
      (between [] (handled ++ ms.map WireMessage.message) w', none) := by
  refine run_fresh find hne handled w ?_
  have hreached := messages_reach (secondEnd pieces) pieces.flatten.length h [] handled hreplaced
    (by rw [List.append_nil, hcut])
    (by rw [List.append_nil, hcut, Nat.sub_self]; exact hpaced)
  rw [List.append_nil] at hreached
  rw [hcut] at hreached ⊢
  exact (Drains.iff_of_reaches hreached).mpr (.wait (waits_empty find virtual _ _ rfl))

end Transport

end Shitty.Http1
