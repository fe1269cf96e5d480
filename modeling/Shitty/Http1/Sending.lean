import Shitty.Core.Date
import Shitty.Core.Payload
import Shitty.Core.Stream
import Shitty.Http1.FirstLines
import Shitty.Net.Connection

/-!
# Sending messages

`sendMessage` and `sendHeaders` of `http1/Transport.cpp`, and what the two transports
call them with: `sendResponse` and `sendRequest`. The order in which a
`std::unordered_multimap` is walked and the moment of `Date::now` are parameters. What
is sent is given twice, as the payloads the source fills and as the text they come to.
-/

namespace Shitty.Http1

/-- The order in which an `unordered_multimap` is gone through. -/
structure Order where
  order : Headers → Headers
  perm : ∀ headers, (order headers).Perm headers

/-- In the order of their arrival. -/
def Order.asIs : Order where
  order headers := headers
  perm _ := .refl _

/-- What is not known of a call: the time, and what there is in the memory of the payload. -/
structure Moment where
  tm : Tm
  memory : List.Vector Octet Payload.capacity_

def noon : Moment where
  tm := Date.sample
  memory := List.Vector.replicate _ 0

namespace Sending

/-- `Connection::getOutgoingPayload`: an empty payload in front of what waits on the connection. -/
def getOutgoingPayload (moment : Moment) (c : Net.Connection) : Payload where
  data_ := moment.memory.toList
  target_ := c.outgoing_
  length_data_ := moment.memory.toList_length

/-- `Connection::send`. What the payload has been flushed into is the connection's. -/
def sendPayload (kernel : Nat → Net.Reply) (payload : Payload) (c : Net.Connection) :
    Except Exn Net.Connection :=
  Net.send kernel (Net.memOf payload.data_) payload.size { c with outgoing_ := payload.target_ }

section

variable (kernel : Nat → Net.Reply) (find : Find) (order : Order) (moment : Moment)

def sendHeaders (first_line : Bytes) (headers : Headers) (c : Net.Connection) :
    Except Exn Net.Connection :=
  let payload := getOutgoingPayload moment c
  let payload := (payload.send first_line).send CRLF
  let headers := setGeneralServerHeaders find (Date.now moment.tm) headers
  let payload := payload.send (renderHeaders (order.order headers))
  sendPayload kernel payload c

/-- The fields of a message on its way out. -/
def outgoingHeaders (message : Message) : Headers :=
  setContentLength find message.body_.length
    (setGeneralServerHeaders find (Date.now moment.tm) message.headers_)

def sendMessage (first_line : Bytes) (message : Message) (c : Net.Connection) :
    Except Exn Net.Connection :=
  let payload := getOutgoingPayload moment c
  let payload := (payload.send first_line).send CRLF
  let outgoingHeaders := outgoingHeaders find moment message
  let payload := payload.send (renderHeaders (order.order outgoingHeaders))
  let payload := payload.send message.body_
  sendPayload kernel payload c

/-- `sendResponse` of a server transport, down to what the connection makes of the message. -/
def sendResponse (resp : Response) (c : Net.Connection) :
    Except Exn Net.Connection := do
  let first_line ← statusLine resp.status_code_.toUInt64
  sendMessage kernel find order moment first_line resp.message c

/-- Of a client transport, which has to know who is going to take the response. -/
def sendRequest {η : Type} (handler_ : Option η) (req : Request)
    (c : Net.Connection) : Except Exn Net.Connection :=
  if handler_.isNone then
    .error (.invalid_argument
      "ClientTransport requires a non-null Handler when sending request")
  else sendMessage kernel find order moment (requestLine req) req.message_ c

/-! ## What is sent -/

def headersText (first_line : Bytes) (headers : Headers) : Bytes :=
  first_line ++ CRLF ++
    renderHeaders (order.order (setGeneralServerHeaders find (Date.now moment.tm) headers))

def messageText (first_line : Bytes) (message : Message) : Bytes :=
  first_line ++ CRLF ++ renderHeaders (order.order (outgoingHeaders find moment message)) ++
    message.body_

end

/-- The octets that `sendResponse` writes for a response at a moment, if it does not throw. -/
def responseText (find : Find) (order : Order) (moment : Moment) (resp : Response) :
    Except Exn Bytes := do
  let first_line ← statusLine resp.status_code_.toUInt64
  return messageText find order moment first_line resp.message

theorem responseText_ok (find : Find) (order : Order) (moment : Moment) {resp : Response}
    (h : Sendable resp) : ∃ octets, responseText find order moment resp = .ok octets := by
  obtain ⟨-, line, hline⟩ | ⟨hnot, -⟩ := statusLine_cases resp
  · exact ⟨_, by rw [responseText, hline]; rfl⟩
  · exact absurd h hnot

theorem outgoingHeaders_eq (find : Find) (moment : Moment) (message : Message) :
    outgoingHeaders find moment message =
      message.headers_ ++ missing message.headers_ (octets "date") (Date.now moment.tm) ++
        missing message.headers_ (octets "server") PRODUCT ++
        missing message.headers_ (octets "content-length") (to_string message.body_.length) := by
  have hdate : CaseInsensitiveEqual (octets "date") (octets "content-length") = false := by
    decide +kernel
  have hserver : CaseInsensitiveEqual (octets "server") (octets "content-length") = false := by
    decide +kernel
  rw [outgoingHeaders, setContentLength, setMissing_eq, setGeneralServerHeaders_eq]
  congr 1
  refine missing_congr ?_ _
  simp only [Headers.has_append, has_missing, hdate, hserver, Bool.and_false, Bool.or_false]

end Sending

end Shitty.Http1
