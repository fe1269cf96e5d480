import Shitty.Server.Theorems.Requests

/-!
# From a client transport to the handlers and back

All of it together: the client transport, the connection, the loop with any other
clients, the server transport and a handler, and what comes back to the handlers of the
client transport. What the handlers answer is what arrives, and what the loop does to
send an answer is what the transport's own `sendMessage` does with it.
-/

namespace Shitty.Server

open Lib Client

/-! ## A server that answers -/

/-- One response to each request, at once. -/
def answering (answer : Request → Http1.Answer) : Http1.Server Unit where
  dispatch request _ := .ok ([(answer request).response], ())
  upgrade _ := .error (.runtime_error "internal error: new transport failed")

/-- The answers to some requests, each at its moment; the first one is the given one of its
connection. -/
def answersAt (answer : Request → Http1.Answer) {instants : Nat → Http1.Moment}
    (hyears : ∀ n, Date.year (instants n).tm ≤ 9999) : Nat → List Request → List Http1.Answer
  | _, [] => []
  | n, request :: requests =>
      (answer request).at (instants n) (hyears n) :: answersAt answer hyears (n + 1) requests

section

variable {answer : Request → Http1.Answer}

theorem answering_returns : (answering answer).Returns := fun request _ =>
  ⟨_, _, rfl, List.forall_mem_singleton.mpr (answer request).sendable⟩

theorem answering_dispatches {requests : List Request} {responses : List Response}
    {app app' : Unit} (h : Http1.Dispatches (answering answer) requests app responses app') :
    responses = requests.map fun request => (answer request).response := by
  induction h with
  | nil => rfl
  | cons hdispatch _ ih =>
      cases hdispatch
      rw [ih]
      rfl

variable {instants : Nat → Http1.Moment} (hyears : ∀ n, Date.year (instants n).tm ≤ 9999)

/-- The responses to requests are written as the answers to them, each at its moment. -/
theorem answering_texts (find : Find) (order : Http1.Order) (requests : List Request) :
    ∀ n, (Rendering.sendResponse find order).texts instants n
        (requests.map fun request => (answer request).response) =
      .ok ((answersAt answer hyears n requests).map fun a => a.output.text find order) := by
  induction requests with
  | nil => exact fun _ => rfl
  | cons request requests ih =>
      intro n
      have hfirst : (Rendering.sendResponse find order).text (instants n)
          (answer request).response =
            .ok (((answer request).at (instants n) (hyears n)).output.text find order) :=
        Http1.responseText_eq find order ((answer request).at (instants n) (hyears n))
      rw [List.map_cons, Rendering.texts, hfirst, ih (n + 1)]
      rfl

/-- The command by which a response is sent does what `sendResponse` does. -/
theorem performOn_sendResponse {find : Find} {order : Http1.Order} {kernel : Nat → Net.Reply}
    {moment : Http1.Moment} {response : Response} {text : Bytes} (a : Addr) (net : Net.Connection)
    (htext : (Rendering.sendResponse find order).text moment response = .ok text)
    (hfits : text.length ≤ Payload.capacity_) (hwhole : TakesWhole Payload.capacity_ kernel) :
    performOn kernel net (.send a text) =
      Http1.Sending.sendResponse kernel find order moment response net := by
  refine (Http1.Sending.sendResponse_eq_send htext hfits fun _ _ _ more hmore => ?_).symm
  exact Nat.le_trans hfits (hwhole net.calls more hmore)

/-- Whatever holds of every answer at any moment. -/
theorem answersAt_forall {P : Http1.Answer → Prop}
    (h : ∀ request n, P ((answer request).at (instants n) (hyears n))) (requests : List Request) :
    ∀ n, ∀ a ∈ answersAt answer hyears n requests, P a := by
  induction requests with
  | nil => exact fun _ _ ha => absurd ha List.not_mem_nil
  | cons request requests ih =>
      exact fun n => List.forall_mem_cons.mpr ⟨h request n, ih (n + 1)⟩

end

namespace Impl

/-- Requests that a client transport has sent on a connection, in any run of the loop with any
other clients: each is dispatched once, in order and with what it was sent with; and when the
answers have been accepted and read, each has been handed to the handler that was set by then,
once, in the order of the requests, with what it was given with and the date at which it was
sent. An answer is put on the connection as `sendResponse` puts it there. -/
theorem exchange {find : Find} {order : Http1.Order} {answer : Request → Http1.Answer}
    {clock : Addr → Nat → Http1.Moment} {kernel : Addr → Nat → Net.Reply}
    {signalfd listenfd_ : Fd} {opens : List Fd} {batches : List (List Event)} {front : List Event}
    {s₀ s : Impl (Backend Unit)}
    (hbatches : Run.run (turn (transports find (answering answer) (.sendResponse find order) clock)
      kernel) (Impl.new signalfd listenfd_ opens { app := () }) batches = .ok s₀)
    (hfront : Run.run (dispatch (transports find (answering answer) (.sendResponse find order)
      clock) kernel) s₀ front = .ok s)
    {a : Addr} {c : Connection} (hc : s.connections a = some c) (hopen : c.isOpen = true)
    {askings : List Http1.Asking} (hplain : ∀ a ∈ askings, a.Plain)
    (d : Http1.Direction Http1.Asking.sender askings) {first : Bytes} {rest : List Bytes}
    (hpieces : d.pieces = first :: rest)
    (hfirst : SwitchTransport.protocol first = some .http1)
    (hheard : heard a 0 (batches.flatten ++ front) = d.pieces)
    (hyears : ∀ n, Date.year (clock a n).tm ≤ 9999)
    (hstays : ∀ request, (answer request).StaysOpen)
    (hwhole : TakesWhole Payload.capacity_ (kernel a))
    (hfits : ∀ request n, (((answer request).at (clock a n) (hyears n)).output.text find
      order).length ≤ Payload.capacity_)
    (hnothing : c.outgoing_.empty = true) :
    ∃ requests, List.Forall₂ Http1.Asking.Arrives askings requests ∧
      (∀ {η τ : Type} (find' : Find) (call : η → Response → Http1.ClientTransport.Act η τ Unit)
        (w : Http1.ClientTransport.World η τ) (pieces : List Bytes),
        Http1.Obliging call → w.handler_.isSome = true →
        pieces.flatten = c.wire → (∀ piece ∈ pieces, piece ≠ []) →
        Http1.Paced (Http1.Transport.secondEnd pieces) 0
          ((answersAt answer hyears 0 requests).map fun a => a.sizes find order) →
        ∃ responses w',
          List.Forall₂ Http1.Answer.Arrives (answersAt answer hyears 0 requests) responses ∧
          Http1.Hands call responses w w' ∧
          ∃ handled, Http1.Transport.run find' (Http1.ClientTransport.virtual call) pieces
            (Http1.Transport.between [] [] w) = (Http1.Transport.between [] handled w', none)) ∧
      ∀ request n net,
        performOn (kernel a) net
            (.send a (((answer request).at (clock a n) (hyears n)).output.text find order)) =
          Http1.Sending.sendResponse (kernel a) find order (clock a n) (answer request).response
            net := by
  obtain ⟨requests, responses, texts, harrive, hdispatches, htexts, -, hsent⟩ :=
    requests_answered hbatches hfront hc hopen answering_returns hplain d hpieces hfirst hheard
  rw [answering_dispatches hdispatches, answering_texts hyears] at htexts
  cases htexts
  have hstream := hsent _ hwhole (List.forall_mem_map.mpr (answersAt_forall hyears
    (P := fun a => (a.output.text find order).length ≤ Payload.capacity_) hfits requests 0))
  rw [(StreamBuf.empty_iff _).mp hnothing, List.append_nil] at hstream
  refine ⟨requests, harrive, fun find' call w pieces hcall hset hwire hne hpaced => ?_,
    fun request n net => performOn_sendResponse a net ?_ (hfits request n) hwhole⟩
  swap
  · exact Http1.responseText_eq find order ((answer request).at (clock a n) (hyears n))
  -- the answers as they are on the wire
  obtain ⟨ms, hms, htexts, hsizes⟩ := Http1.Parcel.exists_stream find order
    ((answersAt answer hyears 0 requests).map fun a => a.toParcel)
  have hms' : List.Forall₂ (fun (a : Http1.Answer) m => Http1.OnWire a.toParcel m)
      (answersAt answer hyears 0 requests) ms := List.forall₂_map_left_iff.mp hms
  have hcut : pieces.flatten = Http1.WireMessage.stream ms := by
    rw [hwire, hstream, htexts, List.map_map, Http1.Sending.texts, List.flatMap_map,
      ← List.flatMap_def]
    rfl
  rw [List.map_map] at hsizes
  obtain ⟨received, w', hreceived, hhands, htakes⟩ := Http1.takes_answers find' hcall hms'
    (answersAt_forall hyears (P := fun a => a.StaysOpen) (fun request _ => hstays request)
      requests 0) w hset
  refine ⟨received, w', hreceived, hhands, _,
    Http1.Transport.run_messages htakes rfl hne hcut ?_ []⟩
  rw [hsizes]
  exact hpaced

/-- What is posted is not found. -/
def postMissing (request : Request) : Http1.Answer :=
  if request.method_ = octets "POST" then Http1.missingAnswer else Http1.okAnswer

/-- One client, that sends two requests. -/
def twoRequests : List (List Event) :=
  [[.listener [quiet], .connection 0 false (some ⟨Http1.askedPieces, .again⟩)]]

/-- The transports of a server whose handlers answer in this way. -/
def postTransports : Transports (Backend Unit) :=
  transports Find.first (answering postMissing) written atNoon

/-- The connection when all of this has happened. -/
def answered : Option Connection :=
  match Run.run (turn postTransports fun _ => Http1.eager) noClients twoRequests with
  | .ok s => s.connections 0
  | .error _ => none

theorem answered_all : (answered.any fun c =>
    c.isOpen && c.outgoing_.empty && c.wire == Http1.answeredPieces.flatten) = true := by
  decide +kernel

theorem answered_run : ∃ (s : Impl (Backend Unit)) (c : Connection),
    Run.run (turn postTransports fun _ => Http1.eager) noClients twoRequests = .ok s ∧
      s.connections 0 = some c ∧ c.isOpen = true ∧ c.outgoing_.empty = true ∧
      c.wire = Http1.answeredPieces.flatten := by
  have hall := answered_all
  unfold answered at hall
  split at hall
  · rename_i s hrun
    obtain ⟨c, hc, hstate⟩ := (Option.any_eq_true _ _).mp hall
    simp only [Bool.and_eq_true, beq_iff_eq] at hstate
    exact ⟨s, c, hrun, hc, hstate.1.1, hstate.1.2, hstate.2⟩
  · cases hall

theorem atNoon_years (a : Addr) (n : Nat) : Date.year (atNoon a n).tm ≤ 9999 := by
  show Date.year Http1.noon.tm ≤ 9999
  decide

/-- The answers, whatever the requests have become on the way. -/
theorem postMissing_answers {requests : List Request}
    (h : List.Forall₂ Http1.Asking.Arrives [Http1.postAsking, Http1.rootAsking] requests) :
    answersAt postMissing (atNoon_years 0) 0 requests = [Http1.missingAnswer, Http1.okAnswer] := by
  cases h with
  | cons hpost h =>
      cases h with
      | cons hget h =>
          cases h
          have hsame : Http1.postAsking.method = octets "POST" := rfl
          have hdiffers : Http1.rootAsking.method ≠ octets "POST" := by decide +kernel
          simp only [answersAt, postMissing, hpost.method, hget.method]
          rw [if_pos hsame, if_neg hdiffers]
          rfl

/-- A request with a body, that is answered with one, and another one behind it. -/
theorem exchange_two : ∃ (s : Impl (Backend Unit)) (c : Connection) (requests : List Request)
    (responses : List Response) (w' : Http1.ClientTransport.World Unit Unit),
    s.connections 0 = some c ∧
      List.Forall₂ Http1.Asking.Arrives [Http1.postAsking, Http1.rootAsking] requests ∧
      List.Forall₂ Http1.Answer.Arrives [Http1.missingAnswer, Http1.okAnswer] responses ∧
      Http1.Hands (fun _ _ => pure ()) responses { handler_ := some (), app := () } w' ∧
      ∃ handled, Http1.Transport.run Find.first (Http1.ClientTransport.virtual fun _ _ => pure ())
        Http1.answeredPieces (Http1.Transport.between [] []
          ({ handler_ := some (), app := () } : Http1.ClientTransport.World Unit Unit)) =
        (Http1.Transport.between [] handled w', none) := by
  obtain ⟨s, c, hbatches, hc, hopen, hnothing, hwire⟩ := answered_run
  have hfront : Run.run (dispatch postTransports fun _ => Http1.eager) s [] = .ok s := rfl
  have hwhole : TakesWhole Payload.capacity_ Http1.eager := by
    intro i more h
    cases h
    decide
  have hstays : ∀ request, (postMissing request).StaysOpen := by
    intro request
    unfold postMissing
    split <;> decide +kernel
  have hfits : ∀ request n, (((postMissing request).at (atNoon 0 n) (atNoon_years 0 n)).output.text
      Find.first Http1.Order.asIs).length ≤ Payload.capacity_ := by
    intro request n
    have hshort : ∀ answer ∈ [Http1.missingAnswer, Http1.okAnswer],
        (answer.output.text Find.first Http1.Order.asIs).length ≤ Payload.capacity_ := by
      decide +kernel
    unfold postMissing
    split
    · exact hshort Http1.missingAnswer (by simp)
    · exact hshort Http1.okAnswer (by simp)
  obtain ⟨requests, harrive, hback, -⟩ := exchange hbatches hfront hc hopen Http1.askings_plain
    Http1.asked_sent.direction rfl (by decide +kernel) rfl (atNoon_years 0) hstays hwhole hfits
    hnothing
  rw [postMissing_answers harrive] at hback
  obtain ⟨responses, w', hreceived, hhands, hread⟩ := hback Find.first (fun _ _ => pure ())
    ({ handler_ := some (), app := () } : Http1.ClientTransport.World Unit Unit)
    Http1.answeredPieces (fun _ _ w hset => ⟨w, rfl, hset⟩) rfl hwire.symm
    Http1.answered_sent.pieces_ne Http1.answered_sent.paced
  exact ⟨s, c, requests, responses, w', hc, harrive, hreceived, hhands, hread⟩

end Impl

end Shitty.Server
