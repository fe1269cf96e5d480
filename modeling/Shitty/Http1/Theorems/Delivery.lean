import Mathlib.Data.List.ReduceOption
import Shitty.Http1.ClientTransport
import Shitty.Http1.Logic.Parcels
import Shitty.Http1.Theorems.FirstLines

/-!
# Messages from one transport to the other

What a client transport has sent, a server transport dispatches; and what a server transport
has sent, a client transport hands to its handlers: each message once, in order and with the
fields it left with, wherever the bodies are read in two reads.
-/

namespace Shitty.Http1

open Lib Lib.Resumable Transport

variable {σ η : Type}

/-! ## Requests and responses -/

/-- A request that is given to a client transport. -/
structure Asking extends Parcel where
  method : Bytes
  path : Bytes
  method_space : SP ∉ method
  path_space : SP ∉ path
  is_request : first_line = method ++ SP :: path ++ SP :: VERSION

def Asking.request (a : Asking) : Request where
  method_ := a.method
  path_ := a.path
  message_ := a.message

/-- A response that is given to a server transport. -/
structure Answer extends Parcel where
  code : UInt32
  is_response : statusLine code.toUInt64 = .ok first_line

def Answer.response (a : Answer) : Response where
  status_code_ := a.code
  message := a.message

/-- The same answer when it is sent at another moment. -/
def Answer.at (a : Answer) (moment : Moment) (year : Date.year moment.tm ≤ 9999) : Answer :=
  { a with moment := moment, year := year }

/-- As the other side has it. -/
structure Asking.Arrives (a : Asking) (request : Request) : Prop where
  method : request.method_ = a.method
  path : request.path_ = a.path
  message : Http1.Arrives a.toParcel request.message_

structure Answer.Arrives (a : Answer) (response : Response) : Prop where
  code : response.status_code_ = a.code
  message : Http1.Arrives a.toParcel response.message

/-- There is a status line for it. -/
theorem Answer.sendable (a : Answer) : Sendable a.response := by
  have hline : statusLine a.response.status_code_.toUInt64 = .ok a.first_line := a.is_response
  exact (statusLine_response.mp hline).1

section

variable (kernel : Nat → Net.Reply) (find : Find) (order : Order) (c : Net.Connection)

/-- With a handler, a request is sent as the parcel it is. -/
theorem sendRequest_eq (a : Asking) (handler : η) :
    Sending.sendRequest kernel find order a.moment (some handler) a.request c =
      Sending.step kernel find order c a.output := by
  have hline : requestLine a.request = a.first_line :=
    (requestLine_eq a.request).trans a.is_request.symm
  rw [Sending.sendRequest, if_neg (by simp), hline]
  rfl

/-- An answer is written as the parcel it is. -/
theorem responseText_eq (a : Answer) :
    Sending.responseText find order a.moment a.response = .ok (a.output.text find order) := by
  have hline : statusLine a.response.status_code_.toUInt64 = .ok a.first_line := a.is_response
  rw [Sending.responseText, hline]
  rfl

theorem sendResponse_eq (a : Answer) :
    Sending.sendResponse kernel find order a.moment a.response c =
      Sending.step kernel find order c a.output := by
  have hline : statusLine a.response.status_code_.toUInt64 = .ok a.first_line := a.is_response
  rw [Sending.sendResponse, hline]
  rfl

end

/-- A transport that sends messages, and what each of them is. -/
structure Sender (α : Type) where
  parcel : α → Parcel
  send : (Nat → Net.Reply) → Find → Order → α → Net.Connection → Except Exn Net.Connection
  send_eq : ∀ kernel find order a c,
    send kernel find order a c = Sending.step kernel find order c (parcel a).output

/-- `sendRequest` of a client transport that has a handler. -/
def Asking.sender : Sender Asking where
  parcel := Asking.toParcel
  send kernel find order a c :=
    Sending.sendRequest kernel find order a.moment (some ()) a.request c
  send_eq kernel find order a c := sendRequest_eq kernel find order c a ()

/-- A server transport as a sender of answers, which it sends by `sendResponse`. -/
def Answer.sender : Sender Answer where
  parcel := Answer.toParcel
  send kernel find order a c := Sending.sendResponse kernel find order a.moment a.response c
  send_eq kernel find order a c := sendResponse_eq kernel find order c a

/-! ## Fields that would be acted upon -/

/-- A message behind which its connection stays open, as none of its fields is `Connection:
close`. -/
def Parcel.StaysOpen (p : Parcel) : Prop :=
  ∀ f ∈ p.fields, f.is "connection" = true → f.value ≠ octets "close"

instance (p : Parcel) : Decidable p.StaysOpen :=
  inferInstanceAs (Decidable (∀ f ∈ p.fields, f.is "connection" = true → f.value ≠ octets "close"))

/-- A message that nothing is done for but handing it on: it has no Upgrade and no Expect, and
its connection stays open. -/
structure Parcel.Plain (p : Parcel) : Prop where
  upgrade : ∀ f ∈ p.fields, f.is "upgrade" = false
  expect : ∀ f ∈ p.fields, f.is "expect" = false
  connection : p.StaysOpen

section

variable {find : Find} {p : Parcel} {m : WireMessage}

theorem OnWire.get_none (h : OnWire p m) {name : String} (hnone : ∀ f ∈ p.fields, f.is name = false)
    (hothers : ∀ other ∈ ["date", "server", "content-length"],
      CaseInsensitiveEqual (octets other) (octets name) = false) :
    Headers.get m.message.message.headers_ find (octets name) = no_header := by
  refine find.get_none fun field hfield => ?_
  obtain ⟨f, hf, rfl⟩ := List.mem_map.mp hfield
  rw [f.is_header]
  by_contra his
  rw [Bool.not_eq_false] at his
  rw [hnone f (Parcel.mem_outgoing (h.fields.mem_iff.mp hf) his hothers)] at his
  cases his

/-- Nothing is sent at the end of the head. -/
theorem OnWire.head_silent {σ : Type} (h : OnWire p m)
    (hexpect : ∀ f ∈ p.fields, f.is "expect" = false) (find : Find)
    (w : ServerTransport.World σ) :
    ServerTransport.onEndOfMessageHeaders find (m.fields.map Field.header) w = .ok () w :=
  ServerTransport.onEndOfMessageHeaders_none (h.get_none hexpect (by decide +kernel))

theorem OnWire.request_line {a : Asking} (h : OnWire a.toParcel m) :
    parseRequestLine m.message.first_line =
      .ok { method := a.method, path := a.path, version := VERSION } := by
  show parseRequestLine m.first_line = _
  rw [h.first_line, a.is_request]
  exact parseRequestLine_ok _ a.method_space a.path_space

theorem OnWire.not_closes (h : OnWire p m) (hopen : p.StaysOpen) :
    closes find m.message = false := by
  refine beq_false_of_ne ?_
  show (Headers.get (m.fields.map Field.header) find (octets "connection")).2 ≠ octets "close"
  rw [Headers.get]
  cases hfind : find.find (m.fields.map Field.header) (octets "connection") with
  | none =>
      show ([] : Bytes) ≠ octets "close"
      decide +kernel
  | some i =>
      obtain ⟨hmem, hequal⟩ := find.get_mem hfind
      obtain ⟨f, hf, heq⟩ := List.mem_map.mp hmem
      rw [← heq, f.is_header] at hequal
      simp only [← heq]
      exact hopen f (Parcel.mem_outgoing (h.fields.mem_iff.mp hf) hequal (by decide +kernel)) hequal

end

/-! ## To a server -/

/-- The requests are dispatched one after the other, and these responses are given. -/
inductive Dispatches (server : Server σ) : List Request → σ → List Response → σ → Prop
  | nil {app} : Dispatches server [] app [] app
  | cons {request requests app app' app'' responses others} :
      server.dispatch request app = .ok (responses, app') →
      Dispatches server requests app' others app'' →
      Dispatches server (request :: requests) app (responses ++ others) app''

section

variable {server : Server σ}

/-- The request is dispatched, and the responses are written. -/
theorem takes_asking (find : Find) {a : Asking} {m : WireMessage} (hm : OnWire a.toParcel m)
    (hplain : a.Plain) {w : ServerTransport.World σ} (hw : w.replacedBy.isSome = false)
    (hopen : w.isOpen = true) {responses : List Response} {app : σ}
    (hdispatch : server.dispatch
      { method_ := a.method, path_ := a.path, message_ := m.message.message } w.app =
        .ok (responses, app)) (hsendable : ∀ response ∈ responses, Sendable response) :
    Takes find (ServerTransport.virtual find server) m w
      { w with sent := w.sent ++ responses, app := app } := by
  have hupgrade : Headers.get m.message.message.headers_ find (octets "upgrade") = no_header :=
    hm.get_none hplain.upgrade (by decide +kernel)
  have hwrite : w.write responses = { w with sent := w.sent ++ responses } := if_pos hopen
  refine ⟨⟨w, { w with sent := w.sent ++ responses, app := app },
    hm.head_silent hplain.expect find w, ?_, hw, hw, ?_⟩, hw⟩
  · show ServerTransport.handleIncomingMessage find server m.message w = _
    rw [ServerTransport.handleIncomingMessage_none hm.request_line hupgrade,
      ServerTransport.dispatch_ok hdispatch hsendable, hwrite]
  · rw [hm.not_closes hplain.connection, if_neg Bool.false_ne_true]

theorem takes_askings (find : Find) (hserver : server.Returns) {askings : List Asking}
    {ms : List WireMessage}
    (hms : List.Forall₂ (fun a m => OnWire a.toParcel m) askings ms)
    (hplain : ∀ a ∈ askings, a.Plain) :
    ∀ w : ServerTransport.World σ, w.replacedBy.isSome = false → w.isOpen = true →
      ∃ requests responses app, List.Forall₂ Asking.Arrives askings requests ∧
        Dispatches server requests w.app responses app ∧
        TakesAll find (ServerTransport.virtual find server) ms w
          { w with sent := w.sent ++ responses, app := app } := by
  induction hms with
  | nil =>
      intro w _ _
      exact ⟨[], [], w.app, .nil, .nil, by rw [List.append_nil]; exact .nil⟩
  | @cons a m askings ms hm _ ih =>
      intro w hw hopen
      obtain ⟨responses, app, hdispatch, hsendable⟩ := hserver
        { method_ := a.method, path_ := a.path, message_ := m.message.message } w.app
      have hfirst := takes_asking find hm (hplain a List.mem_cons_self) hw hopen hdispatch hsendable
      obtain ⟨requests, others, app', harrive, hdispatches, hrest⟩ :=
        ih (fun q hq => hplain q (List.mem_cons_of_mem _ hq))
          { w with sent := w.sent ++ responses, app := app } hw hopen
      refine ⟨_ :: requests, responses ++ others, app', .cons ⟨rfl, rfl, hm.arrives⟩ harrive,
        .cons hdispatch hdispatches, ?_⟩
      rw [← List.append_assoc]
      exact .cons hfirst hrest

end

/-! ## One direction of a connection -/

namespace Sender

variable {α : Type} (sender : Sender α)

section

variable (kernel : Nat → Net.Reply) (find : Find) (order : Order)

/-- One side's turns: a message that it sends, or `onPollOut`. -/
def turn (c : Net.Connection) : Option α → Except Exn Net.Connection
  | some a => sender.send kernel find order a c
  | none => Net.onPollOut kernel c

/-- On a connection that has just been made. -/
def run (turns : List (Option α)) : Except Exn Net.Connection :=
  Run.run (sender.turn kernel find order) Net.Connection.new turns

end

/-- What is done on a turn. -/
def output : Option α → Sending.Output
  | some a => (sender.parcel a).output
  | none => .pollOut

/-- Messages are sent as the parcels they are. -/
theorem run_eq (kernel : Nat → Net.Reply) (find : Find) (order : Order) (turns : List (Option α)) :
    sender.run kernel find order turns = Sending.run kernel find order (turns.map sender.output) := by
  have hturn : sender.turn kernel find order = fun c t =>
      Sending.step kernel find order c (sender.output t) := by
    funext c t
    cases t with
    | none => rfl
    | some a => exact sender.send_eq kernel find order a c
  rw [run, Sending.run, Run.run, Run.run, hturn, List.foldlM_map]

theorem texts_turns (find : Find) (order : Order) (turns : List (Option α)) :
    Sending.texts find order (turns.map sender.output) =
      Sending.texts find order (turns.reduceOption.map fun a => (sender.parcel a).output) := by
  induction turns with
  | nil => rfl
  | cons t turns ih =>
      cases t with
      | none =>
          rw [List.map_cons, List.reduceOption_cons_of_none, ← ih]
          rfl
      | some a =>
          rw [List.map_cons, List.reduceOption_cons_of_some, List.map_cons, Sending.texts,
            List.flatMap_cons, Sending.texts, List.flatMap_cons]
          exact congrArg _ ih

end Sender

/-- The octets one side has sent, none of which waits any more, and the reads in which the
other side has them. Whatever is sent while nothing waits is taken by the kernel as a whole
(a part of it only where it is more than a payload holds), and of each body the first octets
are read in one read and all that is left in the next one. -/
structure Direction {α : Type} (sender : Sender α) (items : List α) where
  kernel : Nat → Net.Reply
  find : Find
  order : Order
  turns : List (Option α)
  connection : Net.Connection
  pieces : List Bytes
  items_eq : turns.reduceOption = items
  sent : sender.run kernel find order turns = .ok connection
  at_once : ∀ p t, p ++ [t] <+: turns → ∀ c, sender.run kernel find order p = .ok c →
    Sending.AtOnce kernel c ((sender.output t).text find order)
  isOpen : connection.isOpen = true
  nothing_waits : connection.outgoing_.empty = true
  reads : pieces.flatten = connection.wire
  pieces_ne : ∀ piece ∈ pieces, piece ≠ []
  paced : Paced (secondEnd pieces) 0 (items.map fun a => (sender.parcel a).sizes find order)

namespace Direction

variable {α : Type} {sender : Sender α} {items : List α}

/-- What is read is what was sent. -/
theorem pieces_flatten (d : Direction sender items) :
    d.pieces.flatten =
      Sending.texts d.find d.order (items.map fun a => (sender.parcel a).output) := by
  have honce : ∀ p e, p ++ [e] <+: d.turns.map sender.output → ∀ c,
      Sending.run d.kernel d.find d.order p = .ok c →
        Sending.AtOnce d.kernel c (e.text d.find d.order) := by
    intro p e hp c hc
    obtain ⟨turns, hturns, hmap⟩ := List.prefix_map_iff.mp hp
    obtain ⟨front, last, rfl, rfl, hlast⟩ := List.map_eq_append_iff.mp hmap.symm
    obtain ⟨t, rfl, rfl⟩ := List.map_eq_singleton_iff.mp hlast
    rw [← sender.run_eq] at hc
    exact d.at_once front t hturns c hc
  have hsent := d.sent
  rw [sender.run_eq] at hsent
  have hstream := (Sending.run_inOrder honce _ List.prefix_rfl _ hsent).stream d.isOpen
  rw [(StreamBuf.empty_iff _).mp d.nothing_waits, List.append_nil] at hstream
  rw [d.reads, hstream, sender.texts_turns, d.items_eq]

/-- Messages that are on the wire. -/
theorem exists_messages (d : Direction sender items) :
    ∃ ms, List.Forall₂ (fun a m => OnWire (sender.parcel a) m) items ms ∧
      d.pieces.flatten = WireMessage.stream ms ∧
      Paced (secondEnd d.pieces) 0 (ms.map WireMessage.sizes) := by
  obtain ⟨ms, hms, hstream, hsizes⟩ := Parcel.exists_stream d.find d.order (items.map sender.parcel)
  rw [List.map_map] at hstream hsizes
  refine ⟨ms, List.forall₂_map_left_iff.mp hms, ?_, ?_⟩
  · rw [d.pieces_flatten, hstream]
    rfl
  · rw [hsizes]
    exact d.paced

end Direction

/-! ## Sent at once -/

/-- The kernel takes all it is offered. -/
def eager : Nat → Net.Reply := fun _ => .accepts 1440

section

variable {α : Type} (sender : Sender α) (items : List α) (pieces : List Bytes)

/-- The connection on which messages have been sent to such a kernel, one behind the other. -/
def sentAll : Net.Connection :=
  match sender.run eager Find.first Order.asIs (items.map some) with
  | .ok c => c
  | .error _ => Net.Connection.new

/-- The body of the first one is read by itself, and the others behind it. -/
def bodyApart (first : α) (rest : List α) : List Bytes :=
  let wire := (sentAll sender (first :: rest)).wire
  let (head, body) := (sender.parcel first).sizes Find.first Order.asIs
  [wire.take head, (wire.drop head).take body, wire.drop (head + body)]

/-- All of them have been, and these are reads of them. -/
structure SentAll : Prop where
  sent : (sender.run eager Find.first Order.asIs (items.map some)).isOk = true
  isOpen : (sentAll sender items).isOpen = true
  nothing_waits : (sentAll sender items).outgoing_.empty = true
  reads : pieces.flatten = (sentAll sender items).wire
  pieces_ne : ∀ piece ∈ pieces, piece ≠ []
  paced : Paced (secondEnd pieces) 0
    (items.map fun a => (sender.parcel a).sizes Find.first Order.asIs)

end

section

variable {α : Type} {sender : Sender α} {items : List α} {pieces : List Bytes}

theorem sentAll_ok (h : (sender.run eager Find.first Order.asIs (items.map some)).isOk = true) :
    sender.run eager Find.first Order.asIs (items.map some) = .ok (sentAll sender items) := by
  unfold sentAll
  cases hrun : sender.run eager Find.first Order.asIs (items.map some) with
  | error e =>
      rw [hrun] at h
      cases h
  | ok c => rfl

def SentAll.direction (h : SentAll sender items pieces) : Direction sender items where
  kernel := eager
  find := Find.first
  order := Order.asIs
  turns := items.map some
  connection := sentAll sender items
  pieces := pieces
  items_eq := by simp [List.reduceOption]
  sent := sentAll_ok h.sent
  at_once p t _ c _ := by
    intro _ _ hfits more hk
    cases hk
    have hcapacity : Payload.capacity_ = 1440 := rfl
    omega
  isOpen := h.isOpen
  nothing_waits := h.nothing_waits
  reads := h.reads
  pieces_ne := h.pieces_ne
  paced := h.paced

end

/-! ## Requests -/

/-- Requests that a client transport sends on one connection, each with a handler, are
dispatched by the server transport: each once, in order, with method, path, body and fields,
beside which there are only those of `sendMessage`; and what the handlers respond is given to
the connection. -/
theorem requests_delivered (find : Find) (server : Server σ) (hserver : server.Returns) (app : σ)
    (askings : List Asking) (hplain : ∀ a ∈ askings, a.Plain)
    (d : Direction Asking.sender askings) :
    ∃ requests responses app', List.Forall₂ Asking.Arrives askings requests ∧
      Dispatches server requests app responses app' ∧
      ∃ handled, run find (ServerTransport.virtual find server) d.pieces (ServerTransport.new app) =
        (between [] handled { sent := responses, app := app' }, none) := by
  obtain ⟨ms, hms, hcut, hpaced⟩ := d.exists_messages
  obtain ⟨requests, responses, app', harrive, hdispatches, htakes⟩ :=
    takes_askings find hserver hms hplain { app := app } rfl rfl
  refine ⟨requests, responses, app', harrive, hdispatches, _,
    run_messages htakes rfl d.pieces_ne hcut hpaced []⟩

theorem bodyless_content : ∀ f ∈ ([] : List Field), f.is "content-length" = true →
    f.value ≠ [] ∧ (∀ c ∈ f.value, isdigit c = true) ∧ decimal f.value = ([] : Bytes).length :=
  fun _ hf => absurd hf List.not_mem_nil

/-- The request `GET /`, without fields of its own and without a body. -/
def rootAsking : Asking where
  first_line := octets "GET" ++ SP :: octets "/" ++ SP :: VERSION
  fields := []
  body := []
  moment := noon
  first_line_line := by decide +kernel
  content_length := bodyless_content
  body_fits := empty_fits
  year := by decide
  method := octets "GET"
  path := octets "/"
  method_space := get_space
  path_space := root_space
  is_request := rfl

theorem rootAsking_plain : rootAsking.Plain :=
  ⟨no_fields "upgrade", no_fields "expect", fun _ hf => absurd hf List.not_mem_nil⟩

def acceptField : Field where
  name := octets "Accept"
  value := octets "text/html"
  name_ne := by decide +kernel
  name_colon := by decide +kernel
  name_line := by decide +kernel
  name_front := by decide +kernel
  value_line := by decide +kernel
  value_front := by decide +kernel
  value_back := by decide +kernel

theorem post_space : SP ∉ octets "POST" := by decide +kernel

theorem hi_fits : (octets "hi").length < 2 ^ 63 := by decide +kernel

/-- Two octets posted, with a field. -/
def postAsking : Asking where
  first_line := octets "POST" ++ SP :: octets "/" ++ SP :: VERSION
  fields := [acceptField]
  body := octets "hi"
  moment := noon
  first_line_line := by decide +kernel
  content_length := by decide +kernel
  body_fits := hi_fits
  year := by decide
  method := octets "POST"
  path := octets "/"
  method_space := post_space
  path_space := root_space
  is_request := rfl

theorem postAsking_plain : postAsking.Plain :=
  ⟨by decide +kernel, by decide +kernel, by decide +kernel⟩

def askedPieces : List Bytes := bodyApart Asking.sender postAsking [rootAsking]

theorem asked_sent : SentAll Asking.sender [postAsking, rootAsking] askedPieces where
  sent := by decide +kernel
  isOpen := by decide +kernel
  nothing_waits := by decide +kernel
  reads := by decide +kernel
  pieces_ne := by decide +kernel
  paced := by
    refine ⟨fun _ => ?_, fun hne => absurd rfl hne, trivial⟩
    decide +kernel

theorem askings_plain : ∀ a ∈ [postAsking, rootAsking], a.Plain :=
  List.forall_mem_cons.mpr ⟨postAsking_plain, List.forall_mem_singleton.mpr rootAsking_plain⟩

/-- A request with a body, and one behind it. -/
theorem requests_delivered_two :
    ∃ requests responses app', List.Forall₂ Asking.Arrives [postAsking, rootAsking] requests ∧
      Dispatches okServer requests () responses app' ∧
      ∃ handled, run Find.first (ServerTransport.virtual Find.first okServer) askedPieces
        (ServerTransport.new ()) =
          (between [] handled { sent := responses, app := app' }, none) :=
  requests_delivered Find.first okServer okServer_returns () [postAsking, rootAsking] askings_plain
    asked_sent.direction

/-! ## Responses -/

/-- Handlers return, and leave a handler set. -/
def Obliging (call : η → Response → ClientTransport.Act η σ Unit) : Prop :=
  ∀ handler response w, w.handler_.isSome = true →
    ∃ w', call handler response w = .ok () w' ∧ w'.handler_.isSome = true

/-- Each response is handed to the handler that is set. -/
inductive Hands (call : η → Response → ClientTransport.Act η σ Unit) :
    List Response → ClientTransport.World η σ → ClientTransport.World η σ → Prop
  | nil {w} : Hands call [] w w
  | cons {response responses handler w w' w''} : w.handler_ = some handler →
      call handler response { w with handed := w.handed ++ [(handler, response)] } = .ok () w' →
      Hands call responses w' w'' → Hands call (response :: responses) w w''

section

variable {find : Find} {call : η → Response → ClientTransport.Act η σ Unit}

theorem takes_answer {a : Answer} {m : WireMessage} (hm : OnWire a.toParcel m)
    (hopen : a.StaysOpen) {w w' : ClientTransport.World η σ} {handler : η}
    (hset : w.handler_ = some handler)
    (hcall : call handler { status_code_ := a.code, message := m.message.message }
      { w with handed := w.handed ++
        [(handler, { status_code_ := a.code, message := m.message.message })] } = .ok () w') :
    Takes find (ClientTransport.virtual call) m w w' := by
  have hresponse : statusLine a.response.status_code_.toUInt64 = .ok a.first_line := a.is_response
  have hcode := statusLine_response.mp hresponse
  have hdigits : a.code.toNat ≤ 999 :=
    Nat.le_trans (UInt32.le_iff_toNat_le.mp hcode.1.2) (by decide)
  have hline : parseStatusLine m.message.first_line =
      .ok { code := a.code.toNat, reason_phrase := REASON, version := VERSION } := by
    show parseStatusLine m.first_line = _
    rw [hm.first_line, hcode.2]
    exact parseStatusLine_ok.mpr ⟨⟨version_space, hdigits⟩, rfl⟩
  have hhandle : ClientTransport.handleIncomingMessage call m.message w = .ok () w' := by
    unfold ClientTransport.handleIncomingMessage
    rw [hline]
    simp only [UInt32.ofNat_toNat]
    have hhandle : ClientTransport.handle call
        { status_code_ := a.code, message := m.message.message } w = .ok () w' := by
      rw [← hcall]
      unfold ClientTransport.handle
      rw [hset]
    exact hhandle
  refine ⟨⟨w, w', rfl, hhandle, rfl, rfl, ?_⟩, rfl⟩
  rw [hm.not_closes hopen, if_neg Bool.false_ne_true]

theorem takes_answers (find : Find) (hcall : Obliging call) {answers : List Answer}
    {ms : List WireMessage}
    (hms : List.Forall₂ (fun a m => OnWire a.toParcel m) answers ms)
    (hopen : ∀ a ∈ answers, a.StaysOpen) :
    ∀ w : ClientTransport.World η σ, w.handler_.isSome = true →
      ∃ responses w', List.Forall₂ Answer.Arrives answers responses ∧ Hands call responses w w' ∧
        TakesAll find (ClientTransport.virtual call) ms w w' := by
  induction hms with
  | nil => exact fun w _ => ⟨[], w, .nil, .nil, .nil⟩
  | @cons a m answers ms hm _ ih =>
      intro w hset
      obtain ⟨handler, hhandler⟩ := Option.isSome_iff_exists.mp hset
      let response : Response := { status_code_ := a.code, message := m.message.message }
      obtain ⟨w₁, hfirst, hset₁⟩ :=
        hcall handler response { w with handed := w.handed ++ [(handler, response)] } hset
      obtain ⟨responses, w', harrive, hhands, htakes⟩ :=
        ih (fun q hq => hopen q (List.mem_cons_of_mem _ hq)) w₁ hset₁
      exact ⟨response :: responses, w', .cons ⟨rfl, hm.arrives⟩ harrive,
        .cons hhandler hfirst hhands,
        .cons (takes_answer hm (hopen a List.mem_cons_self) hhandler hfirst) htakes⟩

end

/-- Responses that a server transport sends on one connection are handed to the handlers of
the client transport: each once, in order, to the handler that is set by then, with code, body
and fields. -/
theorem responses_delivered (find : Find) (call : η → Response → ClientTransport.Act η σ Unit)
    (hcall : Obliging call) (w : ClientTransport.World η σ) (hset : w.handler_.isSome = true)
    (answers : List Answer) (hopen : ∀ a ∈ answers, a.StaysOpen)
    (d : Direction Answer.sender answers) :
    ∃ responses w', List.Forall₂ Answer.Arrives answers responses ∧ Hands call responses w w' ∧
      ∃ handled, run find (ClientTransport.virtual call) d.pieces (between [] [] w) =
        (between [] handled w', none) := by
  obtain ⟨ms, hms, hcut, hpaced⟩ := d.exists_messages
  obtain ⟨responses, w', harrive, hhands, htakes⟩ :=
    takes_answers find hcall hms hopen w hset
  exact ⟨responses, w', harrive, hhands, _, run_messages htakes rfl d.pieces_ne hcut hpaced []⟩

/-- An answer without a body and with the code 200. -/
def okAnswer : Answer where
  first_line := VERSION ++ SP :: three 200 ++ SP :: REASON
  fields := []
  body := []
  moment := noon
  first_line_line := by decide +kernel
  content_length := bodyless_content
  body_fits := empty_fits
  year := by decide
  code := 200
  is_response := statusLine_ok.mpr ⟨by decide, rfl⟩

/-- An answer with the code 404, a field of its own and something to read. -/
def missingAnswer : Answer where
  first_line := VERSION ++ SP :: three 404 ++ SP :: REASON
  fields := [acceptField]
  body := octets "No handler for this path.\n"
  moment := noon
  first_line_line := by decide +kernel
  content_length := by decide +kernel
  body_fits := by decide +kernel
  year := by decide
  code := 404
  is_response := statusLine_ok.mpr ⟨by decide, rfl⟩

def answeredPieces : List Bytes := bodyApart Answer.sender missingAnswer [okAnswer]

theorem answered_sent : SentAll Answer.sender [missingAnswer, okAnswer] answeredPieces where
  sent := by decide +kernel
  isOpen := by decide +kernel
  nothing_waits := by decide +kernel
  reads := by decide +kernel
  pieces_ne := by decide +kernel
  paced := by
    refine ⟨fun _ => ?_, fun hne => absurd rfl hne, trivial⟩
    decide +kernel

/-- A response with a body, and one behind it. -/
theorem responses_delivered_two :
    ∃ responses w', List.Forall₂ Answer.Arrives [missingAnswer, okAnswer] responses ∧
      Hands (fun _ _ => pure ()) responses { handler_ := some (), app := () } w' ∧
      ∃ handled, run Find.first (ClientTransport.virtual fun _ _ => pure ()) answeredPieces
        (between [] [] ({ handler_ := some (), app := () } : ClientTransport.World Unit Unit)) =
          (between [] handled w', none) :=
  responses_delivered Find.first _ (fun _ _ w hset => ⟨w, rfl, hset⟩) _ rfl
    [missingAnswer, okAnswer]
    (by decide +kernel) answered_sent.direction

end Shitty.Http1
