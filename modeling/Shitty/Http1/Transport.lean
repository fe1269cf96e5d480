import Shitty.Http1.HTTP1

/-!
# The HTTP/1 transport

`http1/Transport.cpp`. The buffer a function gets by reference is that of the
connection, so it is part of the state. The derived class, the rest of the
connection and the server are a `world` of their own: the class reaches it by
virtual functions and through its connection only, and nothing there has access
to the buffer or to the members of this class, which are private.
-/

namespace Shitty.Http1

structure IncomingMessage where
  first_line : Bytes
  message : Message := {}
  deriving DecidableEq, Repr

/-- `http1::Transport`, with the buffer and the messages given to
`handleIncomingMessage` so far. -/
structure Transport (ω : Type) where
  incoming_message_ : Option IncomingMessage := none
  /-- Used for header line continuations. Empty: none. -/
  last_header_ : Bytes := []
  message_headers_complete_ : Bool := false
  /-- 0: no body. -1: chunked. Above 0: Content-Length. -/
  expected_body_length_ : Int := 0
  buf : Bytes := []
  handled : List IncomingMessage := []
  world : ω
  deriving DecidableEq, Repr

/-- What is called from here and is not in this class: the virtual functions, and
two functions of the connection. -/
structure Virtual (ω : Type) where
  handleIncomingMessage : IncomingMessage → EStateM Exn ω Unit
  onEndOfMessageHeaders : Headers → EStateM Exn ω Unit
  /-- `connection->getTransport() != this`: another transport has been put in the place of this
  one. -/
  replaced : ω → Bool
  /-- `connection->close()`, which the transport calls behind a message with `Connection:
  close`. -/
  close : ω → ω

/-- A member function: what it returns or throws, and the state afterwards. -/
abbrev Act (ω : Type) := EStateM Exn (Transport ω)

namespace Transport

variable {ω : Type}

/-- More octets appended to the buffer by a read. -/
def feed (s : Transport ω) (more : Bytes) : Transport ω := { s with buf := s.buf ++ more }

/-- A function that works on the rest of the world. -/
def outside (f : EStateM Exn ω Unit) : Act ω Unit := fun s =>
  match f s.world with
  | .ok _ world => .ok () { s with world := world }
  | .error e world => .error e { s with world := world }

/-! ## The buffer -/

/-- The first `n` octets from `data()` on. -/
def front (n : Nat) : Act ω Bytes := fun s =>
  if s.buf.length < n then .error .overread s else .ok (s.buf.take n) s

def advance (n : Nat) : Act ω Unit := fun s =>
  match Shitty.advance n s.buf with
  | .ok buf => .ok () { s with buf := buf }
  | .error e => .error e s

def getLine : Act ω (Option Bytes) := fun s =>
  match Http1.getLine s.buf with
  | .ok (line, buf) => .ok line { s with buf := buf }
  | .error e => .error e s

/-! ## The message -/

/-- `*incoming_message_`, the message that is being read. Without one, the assertion of the
library fails. -/
def message : Act ω IncomingMessage := fun s =>
  match s.incoming_message_ with
  | some msg => .ok msg s
  | none => .error (.assertion "this->_M_is_engaged()") s

def setMessage (msg : IncomingMessage) : Act ω Unit := fun s =>
  .ok () { s with incoming_message_ := some msg }

def isMessageComplete (s : Transport ω) : Bool :=
  match s.incoming_message_ with
  | some msg => (msg.message.body_.length : Int) == s.expected_body_length_
  | none => false

def resetIncomingMessage : Act ω Unit := fun s =>
  .ok () { s with
    incoming_message_ := none
    last_header_ := []
    message_headers_complete_ := false
    expected_body_length_ := 0 }

/-- Writes down the message `handleIncomingMessage` is about to be called with. -/
def record (msg : IncomingMessage) : Act ω Unit := fun s =>
  .ok () { s with handled := s.handled ++ [msg] }

/-! ## Bodies -/

def readChunked : Act ω Unit := throw (.runtime_error "Chunked input not yet supported")

def readContent : Act ω Unit := do
  let s ← get
  let len := max s.buf.length s.expected_body_length_.toNat
  let msg ← message
  let data ← front len
  setMessage { msg with message := { msg.message with body_ := msg.message.body_ ++ data } }
  advance len

def readBody : Act ω Unit := do
  if (← get).expected_body_length_ = -1 then readChunked else readContent

/-! ## Heads -/

/-- The value begins at the colon, or behind it when a space follows. -/
def headerLine (line : Bytes) : Act ω Unit :=
  match line.findIdx? fun c => c == 0x3a with
  | none => throw (.runtime_error "Malformed header: no colon")
  | some colon => do
      let start_of_value :=
        if colon < line.length - 1 ∧ line.getD (colon + 1) 0 = SP then colon + 1 else colon
      let value := trimLWS (line.drop start_of_value)
      let name := asciiLower (line.take colon)
      modify fun s => { s with last_header_ := name }
      let msg ← message
      let headers_ := msg.message.headers_.add name value
      setMessage { msg with message := { msg.message with headers_ := headers_ } }

section

variable (find : Find) (virtual : Virtual ω)

def headerContinuation (line : Bytes) : Act ω Unit := do
  let last_header_ := (← get).last_header_
  if last_header_ = [] then throw (.runtime_error "Erroneous header continuation")
  else do
    let msg ← message
    match find.find msg.message.headers_ last_header_ with
    | none => throw (.logic_error "Failed to find header for continuation")
    | some i =>
        let headers_ := msg.message.headers_.modify i fun field => (field.1, field.2 ++ line)
        setMessage { msg with message := { msg.message with headers_ := headers_ } }

def markHeadersComplete : Act ω Unit := do
  modify fun s => { s with message_headers_complete_ := true }
  let msg ← message
  match getContentLength find msg.message.headers_ with
  | .error e => throw e
  | .ok length => do
      modify fun s => { s with expected_body_length_ := length }
      outside (virtual.onEndOfMessageHeaders msg.message.headers_)

/-- Nothing of a transport that has been replaced is touched any more. -/
def handleMessage : Act ω Unit := do
  match (← get).incoming_message_ with
  | none => throw (.assertion "incoming_message_.has_value()")
  | some msg => do
      let hasConnectionClose :=
        (msg.message.headers_.get find (octets "connection")).2 == octets "close"
      record msg
      outside (virtual.handleIncomingMessage msg)
      if virtual.replaced (← get).world then return
      else do
        resetIncomingMessage
        if hasConnectionClose then modify fun s => { s with world := virtual.close s.world }

/-! ## Input -/

/-- What `processInput` does with a line. -/
def processLine (line : Bytes) : Act ω Bool := do
  if (← get).incoming_message_.isNone then
    modify fun s =>
      { s with message_headers_complete_ := false, incoming_message_ := some { first_line := line } }
    return true
  else if line = [] then
    markHeadersComplete find virtual
    if isMessageComplete (← get) then
      handleMessage find virtual
      return true
    else return false
  else if isLWS (line.headD 0) then
    headerContinuation find line
    return true
  else
    headerLine line
    return true

/-- The head of a message has been read, and not all of its body. -/
def parked (s : Transport ω) : Bool :=
  s.incoming_message_.isSome && s.message_headers_complete_ && !isMessageComplete s

/-- What `processInput` does while there is a body to be read. -/
def processBody : Act ω Bool := do
  readBody
  if isMessageComplete (← get) then
    handleMessage find virtual
    return true
  else return false

/-- Whether there may be more in the buffer for which this should be called again.
It handles at most one message. -/
def processInput : Act ω Bool := do
  if virtual.replaced (← get).world then throw .useAfterDestroy
  else if (← get).buf = [] then return false
  else if parked (← get) then processBody find virtual
  else
    match ← getLine with
    | none => return false -- incomplete line
    | some line => processLine find virtual line

/-- The loop, for at most the given number of turns. -/
def onInput_loop : Nat → Act ω Unit
  | 0 => return
  | turns + 1 => do
      let continu ← processInput find virtual
      if continu ∧ (← get).buf ≠ [] then onInput_loop turns else return

/-- Each turn takes something off the buffer or is the last. -/
def onInput : Act ω Unit := do onInput_loop find virtual ((← get).buf.length + 1)

/-! ## Reads -/

/-- The reads of a connection, with `onInput` called on this transport after each.
An exception leaves the event loop; what has not been read then is left behind the
buffer. -/
def run : List Bytes → Transport ω → Transport ω × Option Exn
  | [], s => (s, none)
  | piece :: pieces, s =>
      match onInput find virtual (s.feed piece) with
      | .ok _ s => run pieces s
      | .error e s => (s.feed pieces.flatten, some e)

end

end Transport

end Shitty.Http1
