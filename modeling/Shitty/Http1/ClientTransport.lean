import Shitty.Http1.FirstLines
import Shitty.Http1.Transport

/-!
# The HTTP/1 client transport

`http1/ClientTransport.cpp`, on the side that reads. A handler is what a
`resp_handler_t` refers to; what it does when it is called is the application's. The
octets that `sendRequest` writes are in `Http1/Sending.lean`; here a response that has
been read is handed to the handler that is set, and what has been handed to whom is
written down.
-/

namespace Shitty.Http1.ClientTransport

/-- What a client transport works on. -/
structure World (η σ : Type) where
  /-- The connection has not been closed. -/
  isOpen : Bool := true
  handler_ : Option η := none
  /-- The handlers that have been called, with what. -/
  handed : List (η × Response) := []
  app : σ

variable {η σ : Type}

abbrev Act (η σ : Type) := EStateM Exn (World η σ)

def World.setHandler (w : World η σ) (handler : η) : World η σ :=
  { w with handler_ := some handler }

def World.resetHandler (w : World η σ) : World η σ := { w with handler_ := none }

section

-- A handler, called with the transport: it can set another one.
variable (call : η → Response → Act η σ Unit)

def handle (resp : Response) : Act η σ Unit := fun w =>
  match w.handler_ with
  | none => .error .bad_function_call w
  | some handler => call handler resp { w with handed := w.handed ++ [(handler, resp)] }

def handleIncomingMessage (msg : IncomingMessage) : Act η σ Unit :=
  match parseStatusLine msg.first_line with
  | .error e => throw e
  | .ok status_line =>
      handle call { status_code_ := UInt32.ofNat status_line.code, message := msg.message }

/-- The virtual functions of an `http1::ClientTransport`, which nothing replaces. -/
def virtual : Virtual (World η σ) where
  handleIncomingMessage := handleIncomingMessage call
  onEndOfMessageHeaders _ := pure ()
  replaced _ := false
  close w := { w with isOpen := false }

end

end Shitty.Http1.ClientTransport
