import Shitty.Http1.Logic.Heads

/-!
# Bodies of messages

What becomes of a body that is due somewhere: it is read when it is due where it
ends; when it is due sooner, more is read than there is; and when it is due later,
more is taken than belongs to it, and the message is never complete.
-/

namespace Shitty.Http1.Transport

open Lib.Resumable

variable {ω : Type} {find : Find} {virtual : Virtual ω} {due : Nat → Option Nat}
  {received : Nat} {s t : Transport ω}

/-- A body of `length` octets is to be read, none of which has been read. -/
structure Awaits (s : Transport ω) (msg : IncomingMessage) (length : Nat) : Prop where
  message : s.incoming_message_ = some msg
  nothing : msg.message.body_ = []
  complete : s.message_headers_complete_ = true
  expected : s.expected_body_length_ = length
  pos : 0 < length

section

variable {msg : IncomingMessage} {length : Nat}

theorem Awaits.parked (h : s.Awaits msg length) : parked s = true := by
  refine parked_iff.mpr ⟨msg, h.message, h.complete, ?_⟩
  have := h.pos
  rw [h.nothing, h.expected, List.length_nil]
  omega

theorem Awaits.not_chunked (h : s.Awaits msg length) : s.expected_body_length_ ≠ -1 := by
  rw [h.expected]
  omega

theorem Awaits.toNat (h : s.Awaits msg length) : s.expected_body_length_.toNat = length := by
  rw [h.expected, Int.toNat_natCast]

theorem processInput_awaits (h : s.Awaits msg length) (hbuf : s.buf ≠ [])
    (hreplaced : virtual.replaced s.world = false) :
    processInput find virtual s = processBody find virtual s :=
  processInput_body hreplaced hbuf h.parked

/-- The first `n` octets from the place where the body begins. -/
theorem Awaits.take (h : s.Awaits msg length) (n : Nat) :
    Awaits { s with buf := s.buf.take n } msg length :=
  ⟨h.message, h.nothing, h.complete, h.expected, h.pos⟩

/-- A body that is due where it ends: the message is complete and is handled. -/
theorem body_handled (find : Find) {u : Transport ω} (h : s.Awaits msg length)
    (hreplaced : virtual.replaced s.world = false) (hinside : s.buf.length ≤ received)
    (hlen : length ≤ s.buf.length)
    (hdue : due (received - s.buf.length) = some (received - s.buf.length + length))
    (hhandled : handleMessage find virtual { s with
        incoming_message_ := some (IncomingMessage.append msg (s.buf.take length)), buf := [] } =
      .ok () u) :
    (messages find virtual due).step (s, received) =
      .next (u.feed (s.buf.drop length), received) := by
  have hpos := h.pos
  have hbuf : s.buf ≠ [] := List.length_pos_iff.mp (by omega)
  have htake : (s.buf.take length).length = length := by
    rw [List.length_take]
    omega
  have hbuf' : s.buf.take length ≠ [] := List.length_pos_iff.mp (by omega)
  refine (Counting.next_iff (y := (_, received))).mpr ⟨?_, rfl⟩
  show step find virtual due s received = _
  rw [step_due hbuf h.parked hdue (by omega),
    show received - s.buf.length + length - (received - s.buf.length) = length by omega, bodyPart,
    processInput_awaits (h.take length) hbuf' hreplaced,
    processBody_all (h.take length).message (h.take length).not_chunked
      (by rw [(h.take length).toNat]; exact htake.ge)]
  have hcomplete : isMessageComplete { s with
      incoming_message_ := some (IncomingMessage.append msg (s.buf.take length))
      buf := [] } = true := by
    show ((_ : Nat) : Int) == s.expected_body_length_
    rw [h.expected]
    simp only [IncomingMessage.append, h.nothing, List.nil_append, htake, beq_self_eq_true]
  rw [handleComplete_true hcomplete hhandled]
  rfl

/-- The transport is still in its place then. -/
theorem body_read (find : Find) {world : ω} (h : s.Awaits msg length)
    (hreplaced : virtual.replaced s.world = false) (hinside : s.buf.length ≤ received)
    (hlen : length ≤ s.buf.length)
    (hdue : due (received - s.buf.length) = some (received - s.buf.length + length))
    (hhandle : virtual.handleIncomingMessage
      (IncomingMessage.append msg (s.buf.take length)) s.world = .ok () world)
    (hstays : virtual.replaced world = false) :
    (messages find virtual due).step (s, received) =
      .next (between (s.buf.drop length)
        (s.handled ++ [IncomingMessage.append msg (s.buf.take length)])
        (if closes find (IncomingMessage.append msg (s.buf.take length)) then virtual.close world
          else world), received) :=
  body_handled find h hreplaced hinside hlen hdue (handleMessage_ok rfl hhandle hstays)

/-- A body that is due too soon. -/
theorem body_short (find : Find) {stop : Nat} (h : s.Awaits msg length)
    (hreplaced : virtual.replaced s.world = false) (hinside : s.buf.length ≤ received)
    (hdue : due (received - s.buf.length) = some stop) (hstart : received - s.buf.length < stop)
    (hstop : stop < received - s.buf.length + length) (hreceived : stop ≤ received) :
    ∃ t, (messages find virtual due).step (s, received) = .fail (t, received) .overread := by
  have hbuf : s.buf ≠ [] := List.length_pos_iff.mp (by omega)
  have htake : (s.buf.take (stop - (received - s.buf.length))).length =
      stop - (received - s.buf.length) := by
    rw [List.length_take]
    omega
  have hbuf' : s.buf.take (stop - (received - s.buf.length)) ≠ [] :=
    List.length_pos_iff.mp (by omega)
  have hshort : ((s.buf.take (stop - (received - s.buf.length))).length) <
      s.expected_body_length_.toNat := by
    rw [h.toNat, htake]
    omega
  have hfail : step find virtual due s received =
      .fail (Transport.feed { s with buf := s.buf.take (stop - (received - s.buf.length)) }
        (s.buf.drop (stop - (received - s.buf.length)))) .overread := by
    rw [step_due hbuf h.parked hdue hreceived, bodyPart,
      processInput_awaits (h.take _) hbuf' hreplaced,
      processBody_short (h.take _).message (h.take _).not_chunked hshort]
    rfl
  exact ⟨_, (Counting.fail_iff (y := (_, received))).mpr ⟨hfail, rfl⟩⟩

end

/-! ## Bodies of which too much has been read -/

/-- More has been taken for the body than belongs to it. -/
def Overfull (s : Transport ω) : Prop :=
  ∃ msg, s.incoming_message_ = some msg ∧ s.message_headers_complete_ = true ∧
    0 ≤ s.expected_body_length_ ∧ s.expected_body_length_ < msg.message.body_.length

theorem Overfull.parked (h : s.Overfull) : parked s = true := by
  obtain ⟨msg, hmsg, hcomplete, -, hlt⟩ := h
  exact parked_iff.mpr ⟨msg, hmsg, hcomplete, (ne_of_lt hlt).symm⟩

/-- A body that has more octets than are due to it only gets more of them by reading on. -/
theorem processInput_overfull {b : Bool} (h : s.Overfull)
    (hok : processInput find virtual s = .ok b t) : t.Overfull := by
  have hparked := h.parked
  obtain ⟨msg, hmsg, hcomplete, hnonneg, hlt⟩ := h
  cases hreplaced : virtual.replaced s.world with
  | true =>
      rw [processInput_replaced hreplaced] at hok
      cases hok
  | false =>
      by_cases hbuf : s.buf = []
      · rw [processInput_empty hreplaced hbuf] at hok
        cases hok
        exact ⟨msg, hmsg, hcomplete, hnonneg, hlt⟩
      · rw [processInput_body hreplaced hbuf hparked] at hok
        have hchunks : s.expected_body_length_ ≠ -1 := by omega
        by_cases hlen : s.buf.length < s.expected_body_length_.toNat
        · rw [processBody_short hmsg hchunks hlen] at hok
          cases hok
        · rw [processBody_all hmsg hchunks (Nat.le_of_not_lt hlen)] at hok
          have hmore : s.expected_body_length_ <
              ((IncomingMessage.append msg s.buf).message.body_.length : Int) := by
            simp only [IncomingMessage.append, List.length_append]
            omega
          have hfalse : isMessageComplete { s with
              incoming_message_ := some (IncomingMessage.append msg s.buf), buf := [] } = false :=
            beq_false_of_ne (ne_of_lt hmore).symm
          rw [handleComplete_false hfalse] at hok
          cases hok
          exact ⟨_, rfl, hcomplete, hnonneg, hmore⟩

theorem step_overfull (h : s.Overfull)
    (hnext : step find virtual due s received = .next t) : t.Overfull := by
  by_cases hbuf : s.buf = []
  · rw [step_empty hbuf] at hnext
    cases hnext
  · rw [step_parked hbuf h.parked, bodyStep] at hnext
    cases hdue : due (received - s.buf.length) with
    | none =>
        simp only [hdue] at hnext
        cases hnext
    | some stop =>
        simp only [hdue] at hnext
        by_cases hstop : received < stop
        · rw [if_pos hstop] at hnext
          cases hnext
        · rw [if_neg hstop, bodyPart] at hnext
          cases hresult : processInput find virtual
              { s with buf := s.buf.take (stop - (received - s.buf.length)) } with
          | error e u =>
              rw [hresult] at hnext
              cases hnext
          | ok b u =>
              rw [hresult] at hnext
              cases hnext
              have hpart : Overfull
                  { s with buf := s.buf.take (stop - (received - s.buf.length)) } := h
              have hover : u.Overfull := processInput_overfull hpart hresult
              exact hover

/-- Such a message stays pending for good. -/
theorem drains_overfull {x : Transport ω × Nat} {o : (Transport ω × Nat) × Option Exn}
    (h : Drains (messages find virtual due) x o) (hx : x.1.Overfull) (ho : o.2 = none) :
    o.1.1.incoming_message_ ≠ none := by
  induction h with
  | wait _ =>
      obtain ⟨msg, hmsg, -⟩ := hx
      rw [hmsg]
      exact Option.some_ne_none msg
  | fail _ => cases ho
  | next hn _ ih => exact ih (step_overfull hx (Counting.next_iff.mp hn).1) ho

/-- A body that is due too late. -/
theorem body_long (find : Find) {msg : IncomingMessage} {length stop : Nat}
    (h : s.Awaits msg length)
    (hreplaced : virtual.replaced s.world = false) (hinside : s.buf.length ≤ received)
    (hdue : due (received - s.buf.length) = some stop)
    (hstop : received - s.buf.length + length < stop) (hreceived : stop ≤ received) :
    ∃ t, (messages find virtual due).step (s, received) = .next (t, received) ∧ t.Overfull := by
  have hbuf : s.buf ≠ [] := List.length_pos_iff.mp (by omega)
  have htake : (s.buf.take (stop - (received - s.buf.length))).length =
      stop - (received - s.buf.length) := by
    rw [List.length_take]
    omega
  have hbuf' : s.buf.take (stop - (received - s.buf.length)) ≠ [] :=
    List.length_pos_iff.mp (by omega)
  have henough : s.expected_body_length_.toNat ≤
      (s.buf.take (stop - (received - s.buf.length))).length := by
    rw [h.toNat, htake]
    omega
  have hmore : s.expected_body_length_ < ((IncomingMessage.append msg
      (s.buf.take (stop - (received - s.buf.length)))).message.body_.length : Int) := by
    rw [h.expected]
    simp only [IncomingMessage.append, h.nothing, List.nil_append, htake]
    omega
  have hfalse : isMessageComplete { s with
      incoming_message_ := some
        (IncomingMessage.append msg (s.buf.take (stop - (received - s.buf.length))))
      buf := [] } = false := beq_false_of_ne (ne_of_lt hmore).symm
  have hnext : step find virtual due s received =
      .next (Transport.feed { s with
        incoming_message_ := some
          (IncomingMessage.append msg (s.buf.take (stop - (received - s.buf.length))))
        buf := [] } (s.buf.drop (stop - (received - s.buf.length)))) := by
    rw [step_due hbuf h.parked hdue hreceived, bodyPart,
      processInput_awaits (h.take _) hbuf' hreplaced,
      processBody_all (h.take _).message (h.take _).not_chunked henough,
      handleComplete_false hfalse]
    rfl
  refine ⟨_, (Counting.next_iff (y := (_, received))).mpr ⟨hnext, rfl⟩, _, rfl, h.complete, ?_, hmore⟩
  rw [show (_ : Int) = s.expected_body_length_ from rfl, h.expected]
  omega

end Shitty.Http1.Transport
