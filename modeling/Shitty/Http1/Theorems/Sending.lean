import Shitty.Http1.Sending
import Shitty.Net.Theorems.Wire

/-!
# Messages on the wire

What a transport sends on its connection, however long a message is and whatever of it
has gone through the payload into the connection's queue. One message is followed
through the payload, and then any number of them, with the polls in between. They stay
in order exactly when the kernel takes no part of one that is sent at once.
-/

namespace Shitty.Http1.Sending

open Lib Net

/-! ## Runs -/

inductive Output where
  | sendHeaders (moment : Moment) (first_line : Bytes) (headers : Headers)
  | sendMessage (moment : Moment) (first_line : Bytes) (message : Message)
  | pollOut

section

variable (kernel : Nat → Reply) (find : Find) (order : Order)

def step (c : Connection) : Output → Except Exn Connection
  | .sendHeaders moment first_line headers => sendHeaders kernel find order moment first_line headers c
  | .sendMessage moment first_line message => sendMessage kernel find order moment first_line message c
  | .pollOut => onPollOut kernel c

/-- On a connection that has just been made. -/
def run (outputs : List Output) : Except Exn Connection :=
  Run.run (step kernel find order) Connection.new outputs

def Output.text : Output → Bytes
  | .sendHeaders moment first_line headers => headersText find order moment first_line headers
  | .sendMessage moment first_line message => messageText find order moment first_line message
  | .pollOut => []

/-- The texts of what is sent, one behind the other in the order of sending. -/
def texts (outputs : List Output) : Bytes := outputs.flatMap (Output.text find order)

/-- The kernel does not take a part of a message that fits into the payload and that is
sent while nothing waits. -/
def AtOnce (c : Connection) (text : Bytes) : Prop :=
  c.isOpen = true → c.outgoing_.empty = true → text.length ≤ Payload.capacity_ →
    ∀ more, kernel c.calls = .accepts more → text.length ≤ more + 1

end

/-! ## Payloads -/

section

variable {p : Payload}

/-- What fits in is put in. -/
theorem write_fits {buf : Bytes} (h : p.size + buf.length ≤ Payload.capacity_) :
    (p.write buf).target_ = p.target_ ∧ (p.write buf).size = p.size + buf.length := by
  have hroom : p.makeRoom buf.length = p := if_neg (Nat.not_lt.mpr h)
  unfold Payload.write
  rw [dif_neg (by omega)]
  simp only [hroom, Payload.append, Payload.size, and_self]

theorem call_fits (call : Payload.Call) (h : p.size + call.octets.length ≤ Payload.capacity_) :
    (call.apply p).target_ = p.target_ ∧ (call.apply p).size = p.size + call.octets.length := by
  cases call with
  | write buf => exact write_fits h
  | send buf => exact write_fits h
  | writeOctet octet => exact write_fits h

theorem calls_fit (calls : List Payload.Call) : ∀ p : Payload,
    p.size + (calls.flatMap Payload.Call.octets).length ≤ Payload.capacity_ →
    (calls.foldl Payload.Call.apply p).target_ = p.target_ ∧
      (calls.foldl Payload.Call.apply p).size =
        p.size + (calls.flatMap Payload.Call.octets).length := by
  induction calls with
  | nil => exact fun p _ => ⟨rfl, rfl⟩
  | cons call calls ih =>
      intro p h
      rw [List.flatMap_cons, List.length_append] at h ⊢
      obtain ⟨htarget, hsize⟩ := call_fits (p := p) call (by omega)
      obtain ⟨htarget', hsize'⟩ := ih (call.apply p) (by omega)
      rw [List.foldl_cons, htarget', hsize', htarget, hsize]
      exact ⟨rfl, Nat.add_assoc _ _ _⟩

end

/-! ## One message -/

/-- What stands behind the octets to be sent makes no difference, unless the kernel takes a part
of them and is offered more than there is. -/
theorem send_congr {kernel : Nat → Reply} {data data' : Mem} {len : Nat} {c : Connection}
    (hread : data.read 0 len = data'.read 0 len)
    (hwhole : c.isOpen = true → c.outgoing_.empty = true →
      ∀ more, kernel c.calls = .accepts more → len ≤ more + 1) :
    send kernel data len c = send kernel data' len c := by
  unfold send
  by_cases hempty : c.outgoing_.empty = true
  · rw [if_pos hempty, if_pos hempty]
    unfold send_immediate send_immediate_loop sys_send
    by_cases hopen : c.isOpen = true
    · simp only [if_pos hopen, Nat.add_sub_cancel, Nat.add_zero, Nat.zero_add]
      cases hk : kernel c.calls with
      | accepts more =>
          have hall : min len (more + 1) = len := Nat.min_eq_left (hwhole hopen hempty more hk)
          simp only [hall, hread, Nat.lt_irrefl, and_false, if_false]
      | again => simp only [hread, Nat.sub_zero]
      | failed => rfl
    · simp only [if_neg hopen, or_true, if_true]
  · rw [if_neg hempty, if_neg hempty, queue_and_send, queue_and_send, hread]

section

variable {kernel : Nat → Reply} {moment : Moment} {c c' : Connection} {sent : Bytes}

/-- A payload that has been filled by some calls. -/
def filled (moment : Moment) (c : Connection) (calls : List Payload.Call) : Payload :=
  calls.foldl Payload.Call.apply (getOutgoingPayload moment c)

theorem filled_queued (moment : Moment) (c : Connection) (calls : List Payload.Call) :
    (filled moment c calls).target_.contents ++ (filled moment c calls).contents =
      c.outgoing_.contents ++ calls.flatMap Payload.Call.octets := by
  have hqueued := (Payload.calls_extend calls (getOutgoingPayload moment c)).queued
  have hempty : (getOutgoingPayload moment c).contents = [] := rfl
  rw [Payload.queued, Payload.queued, hempty, List.append_nil] at hqueued
  exact hqueued

/-- The payload's octets, in its memory. -/
theorem read_payload (p : Payload) : (memOf p.data_).read 0 p.size = p.contents :=
  read_memOf p.data_ (by rw [p.length_data_]; exact p.inside)

/-- Where nothing waits behind the calls, all they wrote is in the payload. -/
theorem filled_empty {calls : List Payload.Call}
    (h : (filled moment c calls).target_.empty = true) :
    c.outgoing_.empty = true ∧
      (filled moment c calls).size = (calls.flatMap Payload.Call.octets).length := by
  have hqueued := filled_queued moment c calls
  rw [(StreamBuf.empty_iff _).mp h, List.nil_append] at hqueued
  have hnone : c.outgoing_.contents = [] := by
    have htarget := (Payload.calls_extend calls (getOutgoingPayload moment c)).target
    change c.outgoing_.contents <+: (filled moment c calls).target_.contents at htarget
    rw [(StreamBuf.empty_iff _).mp h] at htarget
    exact List.prefix_nil.mp htarget
  rw [hnone, List.nil_append] at hqueued
  exact ⟨(StreamBuf.empty_iff _).mpr hnone, by rw [← Payload.length_contents, hqueued]⟩

/-- Sent in order: what has been flushed, and behind it what is in the payload. -/
theorem sendPayload_inOrder {calls : List Payload.Call} (h : InOrder sent c)
    (honce : AtOnce kernel c (calls.flatMap Payload.Call.octets))
    (hsend : sendPayload kernel (filled moment c calls) c = .ok c') :
    InOrder (sent ++ calls.flatMap Payload.Call.octets) c' := by
  obtain ⟨more, hmore⟩ := (Payload.calls_extend calls (getOutgoingPayload moment c)).target
  change c.outgoing_.contents ++ more = (filled moment c calls).target_.contents at hmore
  have hqueued := filled_queued moment c calls
  rw [← hmore, List.append_assoc] at hqueued
  have htext := List.append_cancel_left hqueued
  have hflushed : InOrder (sent ++ more)
      { c with outgoing_ := (filled moment c calls).target_ } := by
    refine ⟨fun hopen => ?_, h.inside⟩
    show c.wire ++ (filled moment c calls).target_.contents = _
    rw [← hmore, ← List.append_assoc, h.stream hopen]
  have hsent := hflushed.step (e := .send (memOf (filled moment c calls).data_)
    (filled moment c calls).size) ?_ hsend
  · rw [Event.payload, read_payload, List.append_assoc, htext] at hsent
    exact hsent
  · intro hopen hempty more hk
    obtain ⟨hnone, hsize⟩ := filled_empty hempty
    have hfits : (filled moment c calls).size ≤ Payload.capacity_ := (filled moment c calls).inside
    rw [hsize] at hfits ⊢
    exact honce hopen hnone hfits more hk

/-- Where the kernel takes a part, more is offered than there is. -/
theorem sendPayload_outside {calls : List Payload.Call}
    (hsome : ¬ AtOnce kernel c (calls.flatMap Payload.Call.octets)) :
    ∃ c', sendPayload kernel (filled moment c calls) c = .ok c' ∧ ∃ o ∈ c'.offers, ¬ o.Inside := by
  unfold AtOnce at hsome
  push Not at hsome
  obtain ⟨hopen, hempty, hfits, more, hk, hpart⟩ := hsome
  obtain ⟨htarget, hsize⟩ := calls_fit calls (getOutgoingPayload moment c)
    (by simpa [getOutgoingPayload, Payload.size] using hfits)
  have hnone : (getOutgoingPayload moment c).size = 0 := rfl
  rw [hnone, Nat.zero_add] at hsize
  have hout : (filled moment c calls).target_ = c.outgoing_ := htarget
  have hlen : (filled moment c calls).size = (calls.flatMap Payload.Call.octets).length := hsize
  have hpart' : more + 1 < (filled moment c calls).size := by rw [hlen]; exact hpart
  refine ⟨_, ?_, send_immediate_outside (memOf (filled moment c calls).data_) hopen hk hpart'⟩
  unfold sendPayload Net.send
  rw [hout, if_pos hempty]

/-- A message that fits into the payload is sent with one call. -/
theorem sendPayload_fits {calls : List Payload.Call}
    (hfits : (calls.flatMap Payload.Call.octets).length ≤ Payload.capacity_)
    (honce : AtOnce kernel c (calls.flatMap Payload.Call.octets)) :
    sendPayload kernel (filled moment c calls) c =
      send kernel (memOf (calls.flatMap Payload.Call.octets))
        (calls.flatMap Payload.Call.octets).length c := by
  obtain ⟨htarget, hsize⟩ := calls_fit calls (getOutgoingPayload moment c)
    (by simpa [getOutgoingPayload, Payload.size] using hfits)
  have hnone : (getOutgoingPayload moment c).size = 0 := rfl
  rw [hnone, Nat.zero_add] at hsize
  change (filled moment c calls).target_ = c.outgoing_ at htarget
  change (filled moment c calls).size = _ at hsize
  have hqueued := filled_queued moment c calls
  rw [htarget] at hqueued
  have htext := List.append_cancel_left hqueued
  have hsame : ({ c with outgoing_ := c.outgoing_ } : Connection) = c := rfl
  unfold sendPayload
  rw [htarget, hsame, hsize]
  refine send_congr ?_ fun hopen hempty => honce hopen hempty hfits
  rw [read_memOf _ (Nat.le_refl _), List.take_length, ← hsize, read_payload, htext]

end

/-! ## Messages -/

/-- What is written into the payload for it. -/
def Output.calls (find : Find) (order : Order) : Output → List Payload.Call
  | .sendHeaders moment first_line headers =>
      [.send first_line, .send CRLF, .send (renderHeaders
        (order.order (setGeneralServerHeaders find (Date.now moment.tm) headers)))]
  | .sendMessage moment first_line message =>
      [.send first_line, .send CRLF, .send (renderHeaders
        (order.order (outgoingHeaders find moment message))), .send message.body_]
  | .pollOut => []

theorem Output.calls_text (find : Find) (order : Order) (e : Output) :
    (e.calls find order).flatMap Payload.Call.octets = e.text find order := by
  cases e <;> simp [Output.calls, Output.text, headersText, messageText, Payload.Call.octets]

section

variable {kernel : Nat → Reply} {find : Find} {order : Order} {c c' : Connection} {sent : Bytes}

theorem step_inOrder {e : Output} (h : InOrder sent c)
    (honce : AtOnce kernel c (e.text find order)) (hstep : step kernel find order c e = .ok c') :
    InOrder (sent ++ e.text find order) c' := by
  have htext := e.calls_text find order
  cases e with
  | sendHeaders moment first_line headers =>
      rw [← htext] at honce ⊢
      exact sendPayload_inOrder h honce hstep
  | sendMessage moment first_line message =>
      rw [← htext] at honce ⊢
      exact sendPayload_inOrder h honce hstep
  | pollOut =>
      rw [Output.text, List.append_nil]
      exact h.onPollOut hstep

theorem step_outside {e : Output} (hsome : ¬ AtOnce kernel c (e.text find order)) :
    ∃ c', step kernel find order c e = .ok c' ∧ ∃ o ∈ c'.offers, ¬ o.Inside := by
  have htext := e.calls_text find order
  cases e with
  | sendHeaders moment first_line headers =>
      rw [← htext] at hsome
      exact sendPayload_outside hsome
  | sendMessage moment first_line message =>
      rw [← htext] at hsome
      exact sendPayload_outside hsome
  | pollOut =>
      refine absurd (fun _ _ _ more _ => ?_) hsome
      rw [Output.text, List.length_nil]
      exact Nat.zero_le _

/-- A response that fits into the payload is one call of `Connection::send`. -/
theorem sendResponse_eq_send {moment : Moment} {resp : Response} {text : Bytes}
    (htext : responseText find order moment resp = .ok text)
    (hfits : text.length ≤ Payload.capacity_) (honce : AtOnce kernel c text) :
    sendResponse kernel find order moment resp c = send kernel (memOf text) text.length c := by
  obtain ⟨first_line, hline, hmessage⟩ := bind_eq_ok.mp htext
  cases hmessage
  rw [sendResponse, hline]
  have hcalls := (Output.sendMessage moment first_line resp.message).calls_text find order
  change _ = messageText find order moment first_line resp.message at hcalls
  rw [← hcalls] at hfits honce ⊢
  exact sendPayload_fits hfits honce

/-- What is in order so far stays so. -/
theorem run_inOrder {outputs : List Output}
    (honce : ∀ p e, p ++ [e] <+: outputs → ∀ c, run kernel find order p = .ok c →
      AtOnce kernel c (e.text find order)) :
    ∀ p, p <+: outputs → ∀ c, run kernel find order p = .ok c →
      InOrder (texts find order p) c := by
  intro p
  induction p using List.reverseRecOn with
  | nil =>
      intro _ c hc
      cases hc
      exact ⟨fun _ => rfl, by simp [Connection.new]⟩
  | append_singleton p e ih =>
      intro hp c' hc'
      obtain ⟨c, hc, hstep⟩ := Run.run_snoc_ok hc'
      have hbefore := ih ((List.prefix_append p [e]).trans hp) c hc
      rw [texts, List.flatMap_append, List.flatMap_singleton]
      exact step_inOrder hbefore (honce p e hp c hc) hstep

end

/-- In every state of a run the octets that the kernel has taken and those that wait are
the messages, in order and whole, and nothing else was offered to it: exactly when, of a
message that fits into the payload and is sent while nothing waits, the kernel never takes
only a part. Messages that do not fit are in order whatever it takes. -/
theorem messages_inOrder_iff (kernel : Nat → Reply) (find : Find) (order : Order)
    (outputs : List Output) :
    (∀ p, p <+: outputs → ∀ c, run kernel find order p = .ok c →
        InOrder (texts find order p) c) ↔
      ∀ p e, p ++ [e] <+: outputs → ∀ c, run kernel find order p = .ok c →
        AtOnce kernel c (e.text find order) := by
  refine ⟨fun hall p e hp c hc => ?_, fun honce => run_inOrder honce⟩
  -- a message of which only a part is taken leaves its mark in what was offered
  by_contra hsome
  obtain ⟨c', hstep, o, ho, hout⟩ := step_outside hsome
  exact hout ((hall _ hp c' (Run.run_snoc_of_ok hc hstep)).inside o ho)

end Shitty.Http1.Sending
