import Shitty.Http1.FirstLines
import Shitty.Http1.Transport
import Shitty.Http2.ServerTransport
import Shitty.Lib.Run

/-!
# The HTTP/1 server transport

`http1/ServerTransport.cpp`, with `http1/UpgradeRegistry.cpp` and
`http1/HTTP2Upgrader.cpp`. The request handlers are the application's: a handler has a
request and a `Responder`, and can do nothing to the transport but respond. A response
is written only when there is a status line for its code, and an exception of a handler
leaves `onInput`. Behind the translation there are the lemmas for requests that ask for
nothing special.
-/

namespace Shitty.Http1

/-- `Server`, over the state of the application. -/
structure Server (σ : Type) where
  /-- `dispatch`: the responses given before it returns. -/
  dispatch : Request → σ → Except Exn (List Response × σ)
  /-- `HTTP2Upgrader::upgrade`: the settings in the request are decoded by a library
  that is not part of the repository. -/
  upgrade : Request → Except Exn Http2.Impl

/-- `HTTP2Upgrader::upgrade`, which makes a transport with the settings in the request. -/
def HTTP2Upgrader.upgrade (fb64 : Http2.Fb64) (find : Find) (request : Request) :
    Except Exn Http2.Impl :=
  let http2Settings := request.message_.headers_.get find (octets "HTTP2-Settings")
  Http2.Impl.construct fb64 (some http2Settings.2)

namespace ServerTransport

/-- What a server transport works on. -/
structure World (σ : Type) where
  /-- The connection has not been closed. -/
  isOpen : Bool := true
  /-- The transport that has been put in this one's place. -/
  replacedBy : Option Http2.Impl := none
  /-- The messages that `sendMessage` and `sendHeaders` have sent. -/
  sent : List Response := []
  app : σ

variable {σ : Type}

abbrev Act (σ : Type) := EStateM Exn (World σ)

/-- On a connection that has been closed, `::send` fails. -/
def World.write (w : World σ) (responses : List Response) : World σ :=
  if w.isOpen then { w with sent := w.sent ++ responses } else w

/-- `statusLine` throws for a code that it has no line for, before anything is written. -/
def sendResponse (resp : Response) : Act σ Unit := fun w =>
  match statusLine resp.status_code_.toUInt64 with
  | .ok _ => .ok () (w.write [resp])
  | .error e => .error e w

def handleExpect (value : Bytes) : Act σ Unit :=
  if value ≠ octets "100-continue" then
    sendResponse { status_code_ := 417, message := { body_ := octets "Expectation Failed.\n" } }
  else sendResponse { status_code_ := 100 }

/-- Only for things that must occur at the end of the request headers, even if a
body is present. -/
def onEndOfMessageHeaders (find : Find) (headers : Headers) : Act σ Unit :=
  let expectHeader := headers.get find (octets "expect")
  if expectHeader ≠ no_header then handleExpect expectHeader.2 else pure ()

/-- "101 Switching Protocols", by which the upgrade to the protocol of the token is confirmed. -/
def confirmUpgrade (token : Bytes) : Act σ Unit :=
  let headers_ := (Headers.add [] (octets "Connection") (octets "Upgrade")).set
    (octets "Upgrade") token
  sendResponse { status_code_ := 101, message := { headers_ := headers_ } }

/-- The upgraded request becomes stream 1 of the new transport. -/
def upgrade (newTransport : Http2.Impl) (request : Request) : Act σ Unit := fun w =>
  let onRequest : Http2.Act Unit := do
    let stream ← Http2.ServerTransport.getStream 1
    modify fun s => { s with requests := s.requests ++ [(stream.id_, request.message_)] }
    Http2.ServerTransport.writeHeadersFrame stream.onRequest
  match onRequest newTransport with
  | .ok _ h2Transport => .ok () { w with replacedBy := some h2Transport }
  | .error e h2Transport => .error e { w with replacedBy := some h2Transport }

/-- The one protocol in the registry. -/
def registered (token : Bytes) : Bool := token == octets "h2c"

section

variable (find : Find) (server : Server σ)

/-- Whether the request has been taken over by another transport. -/
def tryUpgrade (request : Request) : Act σ Bool := do
  let upgradeHeader := request.message_.headers_.get find (octets "upgrade")
  if upgradeHeader = no_header then return false
  else
    let token := upgradeHeader.2
    if ¬ registered token then return false
    else do
      confirmUpgrade token
      match server.upgrade request with
      | .error e => throw e
      | .ok transport => do
          let headers_ := request.message_.headers_.remove (octets "Upgrade")
          upgrade transport
            { request with message_ := { request.message_ with headers_ := headers_ } }
          return true

/-- What a handler does with its `Responder`, one response after the other. -/
def respond : List Response → Act σ Unit
  | [] => return
  | response :: responses => do
      sendResponse response
      respond responses

/-- `server_->dispatch`. An exception of `sendResponse` leaves the handler, too. -/
def dispatch (request : Request) : Act σ Unit := do
  match server.dispatch request (← get).app with
  | .error e => throw e
  | .ok (responses, app) => do
      respond responses
      modify fun w => { w with app := app }

def onRequest (request : Request) : Act σ Unit := do
  if ← tryUpgrade find server request then return
  else dispatch server request

def handleIncomingMessage (msg : IncomingMessage) : Act σ Unit :=
  match parseRequestLine msg.first_line with
  | .error e => throw e
  | .ok request_line =>
      onRequest find server
        { method_ := request_line.method, path_ := request_line.path, message_ := msg.message }

/-- The virtual functions of an `http1::ServerTransport`. -/
def virtual : Virtual (World σ) where
  handleIncomingMessage := handleIncomingMessage find server
  onEndOfMessageHeaders := onEndOfMessageHeaders find
  replaced w := w.replacedBy.isSome
  close w := { w with isOpen := false }

end

theorem World.write_replacedBy (w : World σ) (responses : List Response) :
    (w.write responses).replacedBy = w.replacedBy := by
  unfold World.write
  split <;> rfl

theorem World.write_app (w : World σ) (responses : List Response) :
    (w.write responses).app = w.app := by
  unfold World.write
  split <;> rfl

theorem World.write_isOpen (w : World σ) (responses : List Response) :
    (w.write responses).isOpen = w.isOpen := by
  unfold World.write
  split <;> rfl

theorem World.write_write (w : World σ) (a b : List Response) :
    (w.write a).write b = w.write (a ++ b) := by
  unfold World.write
  by_cases hopen : w.isOpen = true
  · simp only [if_pos hopen, List.append_assoc]
  · simp only [if_neg hopen]

theorem World.write_nil (w : World σ) : w.write [] = w := by
  unfold World.write
  rw [List.append_nil]
  exact ite_self w

/-! ## Responses -/

theorem sendResponse_ok {resp : Response} (h : Sendable resp) (w : World σ) :
    sendResponse resp w = .ok () (w.write [resp]) := by
  obtain ⟨-, line, hline⟩ | ⟨hnot, -⟩ := statusLine_cases resp
  · rw [sendResponse, hline]
  · exact absurd h hnot

theorem sendResponse_error {resp : Response} (h : ¬ Sendable resp) (w : World σ) :
    sendResponse resp w = .error (.runtime_error "invalid status code") w := by
  obtain ⟨hsendable, -⟩ | ⟨-, herror⟩ := statusLine_cases resp
  · exact absurd hsendable h
  · rw [sendResponse, herror]

/-- There is a line for 101. -/
theorem confirmUpgrade_writes (token : Bytes) (w : World σ) :
    ∃ response : Response, response.status_code_ = 101 ∧
      confirmUpgrade token w = .ok () (w.write [response]) := by
  let headers_ := (Headers.add [] (octets "Connection") (octets "Upgrade")).set
    (octets "Upgrade") token
  let response : Response := { status_code_ := 101, message := { headers_ := headers_ } }
  have hge : (100 : UInt32) ≤ 101 := by decide
  have hle : (101 : UInt32) ≤ 599 := by decide
  have hsendable : Sendable response := ⟨hge, hle⟩
  exact ⟨response, rfl, sendResponse_ok hsendable w⟩

/-- All responses are written when each can be. -/
theorem respond_ok {responses : List Response} (h : ∀ response ∈ responses, Sendable response) :
    ∀ w : World σ, respond responses w = .ok () (w.write responses) := by
  induction responses with
  | nil =>
      intro w
      rw [w.write_nil]
      rfl
  | cons response responses ih =>
      intro w
      rw [List.forall_mem_cons] at h
      have hfirst := sendResponse_ok h.1 w
      show EStateM.bind (sendResponse response) (fun _ => respond responses) w = _
      simp only [EStateM.bind, hfirst, ih h.2, w.write_write, List.singleton_append]

/-- Otherwise it throws, and those in front of the first that cannot be have been written. -/
theorem respond_error {front back : List Response} {response : Response}
    (hfront : ∀ response ∈ front, Sendable response) (h : ¬ Sendable response) (w : World σ) :
    respond (front ++ response :: back) w =
      .error (.runtime_error "invalid status code") (w.write front) := by
  induction front generalizing w with
  | nil =>
      have hthrown := sendResponse_error h w
      show EStateM.bind (sendResponse response) (fun _ => respond back) w = _
      simp only [EStateM.bind, hthrown, w.write_nil]
  | cons first front ih =>
      rw [List.forall_mem_cons] at hfront
      have hfirst := sendResponse_ok hfront.1 w
      show EStateM.bind (sendResponse first) (fun _ => respond (front ++ response :: back)) w = _
      simp only [EStateM.bind, hfirst, ih hfront.2, w.write_write, List.singleton_append]

/-! ## Requests that are not upgraded -/

section

variable {find : Find} {server : Server σ} {request : Request} {w : World σ}

theorem onEndOfMessageHeaders_none {headers : Headers}
    (h : headers.get find (octets "expect") = no_header) :
    onEndOfMessageHeaders find headers w = .ok () w := by
  unfold onEndOfMessageHeaders
  rw [h, if_neg (not_not_intro rfl)]
  rfl

theorem tryUpgrade_none (h : request.message_.headers_.get find (octets "upgrade") = no_header) :
    tryUpgrade find server request w = .ok false w := by
  show (if request.message_.headers_.get find (octets "upgrade") = no_header then _ else _ :
    Act σ Bool) w = _
  rw [if_pos h]
  rfl

theorem onRequest_none (h : request.message_.headers_.get find (octets "upgrade") = no_header) :
    onRequest find server request w = dispatch server request w := by
  show EStateM.bind (tryUpgrade find server request) _ w = _
  unfold EStateM.bind
  rw [tryUpgrade_none h]
  exact congrFun (if_neg Bool.false_ne_true) w

theorem handleIncomingMessage_none {msg : IncomingMessage} {request_line : RequestLine}
    (hline : parseRequestLine msg.first_line = .ok request_line)
    (h : msg.message.headers_.get find (octets "upgrade") = no_header) :
    handleIncomingMessage find server msg w =
      dispatch server
        { method_ := request_line.method, path_ := request_line.path, message_ := msg.message } w := by
  unfold handleIncomingMessage
  rw [hline]
  exact onRequest_none h

theorem dispatch_thrown {e : Exn} (h : server.dispatch request w.app = .error e) :
    dispatch server request w = .error e w := by
  show (match server.dispatch request w.app with
    | .error e => throw e
    | .ok (responses, app) => do
        respond responses
        modify fun w => { w with app := app } : Act σ Unit) w = _
  rw [h]
  rfl

theorem dispatch_responds {responses : List Response} {app : σ}
    (h : server.dispatch request w.app = .ok (responses, app)) :
    dispatch server request w =
      EStateM.bind (respond responses) (fun _ => modify fun w => { w with app := app }) w := by
  show (match server.dispatch request w.app with
    | .error e => throw e
    | .ok (responses, app) => do
        respond responses
        modify fun w => { w with app := app } : Act σ Unit) w = _
  rw [h]
  rfl

theorem dispatch_ok {responses : List Response} {app : σ}
    (h : server.dispatch request w.app = .ok (responses, app))
    (hsendable : ∀ response ∈ responses, Sendable response) :
    dispatch server request w = .ok () { w.write responses with app := app } := by
  rw [dispatch_responds h]
  simp only [EStateM.bind, respond_ok hsendable]
  rfl

/-- What the handler has written when it throws. -/
theorem dispatch_error {front back : List Response} {response : Response} {app : σ}
    (h : server.dispatch request w.app = .ok (front ++ response :: back, app))
    (hfront : ∀ response ∈ front, Sendable response) (hresponse : ¬ Sendable response) :
    dispatch server request w =
      .error (.runtime_error "invalid status code") (w.write front) := by
  rw [dispatch_responds h]
  simp only [EStateM.bind, respond_error hfront hresponse]

/-- The requests that a handler returns from, and to what. -/
theorem dispatch_cases (server : Server σ) (request : Request) (w : World σ) :
    (∃ responses app, server.dispatch request w.app = .ok (responses, app) ∧
      (∀ response ∈ responses, Sendable response) ∧
      dispatch server request w = .ok () { w.write responses with app := app }) ∨
    ∃ e front, dispatch server request w = .error e (w.write front) ∧
      ∀ responses app, server.dispatch request w.app = .ok (responses, app) →
        ∃ response ∈ responses, ¬ Sendable response := by
  cases hdispatch : server.dispatch request w.app with
  | error e =>
      refine .inr ⟨e, [], ?_, nofun⟩
      rw [dispatch_thrown hdispatch, w.write_nil]
  | ok result =>
      obtain ⟨responses, app⟩ := result
      rcases Lib.Run.all_or_first Sendable responses with hall | ⟨front, response, back, rfl, hfront, hnot⟩
      · exact .inl ⟨responses, app, rfl, hall, dispatch_ok hdispatch hall⟩
      · refine .inr ⟨_, front, dispatch_error hdispatch hfront hnot, fun responses' app' heq => ?_⟩
        cases heq
        exact ⟨response, by simp, hnot⟩

end

/-- `Connection::onPollIn`, for the reads that are made: none once the connection has been
closed. From a transport that has been replaced on, they are for the other one. -/
def onPollIn (find : Find) (server : Server σ) :
    List Bytes → Transport (World σ) → Transport (World σ) × Option Exn
  | [], s => (s, none)
  | piece :: pieces, s =>
      match Transport.onInput find (virtual find server) (s.feed piece) with
      | .error e s => (s, some e)
      | .ok _ s =>
          if s.world.isOpen ∧ s.world.replacedBy.isNone then onPollIn find server pieces s
          else (s, none)

/-- The constructor, on a connection that is open. -/
def new (app : σ) : Transport (World σ) where
  world := { app := app }

end ServerTransport

end Shitty.Http1
