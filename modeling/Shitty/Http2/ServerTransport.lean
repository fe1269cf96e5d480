import Shitty.Hpack.Decoder
import Shitty.Http2.ServerStream
import Shitty.Http2.Settings

/-!
# The HTTP/2 server transport

`http2/ServerTransport.cpp`. The buffer a function gets by reference is that of the
connection, so it is part of the state, as are the octets the transport has sent on the
connection. What a handler reads is taken from the buffer, and a read behind its end is
an exception of its own. The frames handled and the requests dispatched are written down
in the order in which they come.
-/

namespace Shitty.Http2

open Hpack

/-- `protocol::CLIENT_PREFACE`, the 24 octets a client with HTTP/2 begins with. -/
def CLIENT_PREFACE : Bytes := [
  0x50, 0x52, 0x49, 0x20, 0x2a, 0x20, 0x48, 0x54,
  0x54, 0x50, 0x2f, 0x32, 0x2e, 0x30, 0x0d, 0x0a,
  0x0d, 0x0a, 0x53, 0x4d, 0x0d, 0x0a, 0x0d, 0x0a]

/-- `ServerTransport::Impl`, with the buffer, the payloads given to
`Connection::send`, the frames given to a handler and the requests dispatched. -/
structure Impl where
  peerSettings_ : Settings := {}
  headerDecoder_ : DynamicTable := {}
  streams_ : List (BitVec 31 × ServerStream) := []
  /-- An entire frame header has been read, but its body has not been completely
  processed. -/
  currentFrameHeader_ : Option FrameHeader := none
  /-- The window size of the connection, which is no stream's. -/
  windowSize_ : BitVec 32 := 65535
  prefaceReceived_ : Bool := false
  windowUpdateReceived_ : Bool := false
  buf : Bytes := []
  sent : List Bytes := []
  handled : List (FrameHeader × Bytes) := []
  requests : List (BitVec 31 × Message) := []
  deriving DecidableEq

namespace Impl

/-- More octets appended to the buffer by a read. -/
def feed (s : Impl) (more : Bytes) : Impl := { s with buf := s.buf ++ more }

/-- `initialize`: stream 1 is there from the first, and the server's preface, an
empty SETTINGS frame, is sent. -/
def new (peerSettings_ : Settings) : Impl where
  peerSettings_ := peerSettings_
  streams_ := [(1, { id_ := 1 })]
  sent := [({ type := FrameType.SETTINGS } : FrameHeader).writeTo]

end Impl

/-- The `fb64` library: the size of the octets that many characters stand for, and
the result of decoding with the memory at `decoded` afterwards. -/
structure Fb64 where
  decoded_size_nopad : Nat → Nat
  decode : Bytes → Int × Mem

/-- The payload a base64 text stands for. -/
def Fb64.payload (fb64 : Fb64) (b64encoded : Bytes) : Bytes :=
  (fb64.decode b64encoded).2.read 0 (fb64.decoded_size_nopad b64encoded.length)

def decodeBase64Settings (fb64 : Fb64) (b64encoded : Bytes) : Except Exn Settings :=
  let decodedLen := fb64.decoded_size_nopad b64encoded.length
  if 128 < decodedLen then .error (.runtime_error "excessive HTTP2-Settings length")
  else
    let (decodeResult, decoded) := fb64.decode b64encoded
    if decodeResult ≠ 0 then .error (.runtime_error "HTTP2-Settings decode error")
    else Settings.createFromBuffer (decoded.read 0 decodedLen)

/-- The constructor, with the value of the HTTP2-Settings header if there is one. -/
def Impl.construct (fb64 : Fb64) : (http2Settings : Option Bytes) → Except Exn Impl
  | none => .ok (Impl.new {})
  | some b64encoded => do
      let peerSettings_ ← decodeBase64Settings fb64 b64encoded
      return Impl.new peerSettings_

/-- A member function: what it returns or throws, and the state afterwards. -/
abbrev Act := EStateM Exn Impl

namespace ServerTransport

/-! ## The buffer and the connection -/

/-- The first `n` octets of the buffer, or `e` where there are fewer. -/
def frontOr (e : Exn) (n : Nat) : Act Bytes := fun s =>
  if s.buf.length < n then .error e s else .ok (s.buf.take n) s

/-- The first `n` octets from `data()` on. -/
def front (n : Nat) : Act Bytes := frontOr .overread n

def advance (n : Nat) : Act Unit := fun s =>
  match Shitty.advance n s.buf with
  | .ok buf => .ok () { s with buf := buf }
  | .error e => .error e s

/-- `connection_->send(payload)`: one more payload that has been given to the connection. -/
def send (payload : Bytes) : Act Unit := modify fun s => { s with sent := s.sent ++ [payload] }

def ofExcept {α : Type} (x : Except Exn α) : Act α := fun s =>
  match x with
  | .ok a => .ok a s
  | .error e => .error e s

def writeHeadersFrame (frame : HeadersFrame) : Act Unit :=
  send (frame.frameHeader_.writeTo ++ frame.headerBlockFragment_ ++ frame.padding_)

/-! ## `streams_` -/

def find (id : BitVec 31) : Act (Option ServerStream) := do
  return (← get).streams_.lookup id

def emplace (id : BitVec 31) (stream : ServerStream) : Act Unit :=
  modify fun s => { s with streams_ := s.streams_ ++ [(id, stream)] }

/-- Stores what has been changed through a reference. -/
def store (id : BitVec 31) (stream : ServerStream) : Act Unit :=
  modify fun s =>
    { s with streams_ := s.streams_.map fun p => if p.1 = id then (id, stream) else p }

def erase (id : BitVec 31) : Act Unit :=
  modify fun s => { s with streams_ := s.streams_.filter fun p => p.1 ≠ id }

def getStream (id : BitVec 31) : Act ServerStream := do
  match ← find id with
  | some stream => return stream
  | none => throw (.runtime_error "No such stream")

def dispatch (stream : ServerStream) : Act Unit := do
  modify fun s => { s with requests := s.requests ++ [(stream.id_, stream.request_)] }
  writeHeadersFrame stream.onRequest

def endStream (streamId : BitVec 31) : Act Unit := erase streamId

/-! ## Frame type handlers -/

/-- The pad length octet of a padded frame is taken off the buffer; what is left
of the length without the padding. -/
def takePadLength (length : Nat) : Act Nat := do
  if length = 0 ∨ (← get).buf = [] then throw (.runtime_error "Empty padded data frame")
  else do
    let charPadLength ← front 1
    advance 1
    let padLength := (dataAt charPadLength 0).toNat
    if length < padLength then throw (.runtime_error "Padding length exceeds DATA frame size")
    else return length - padLength

/-- `DataFrame::isPadded`, which tests the lowest of the flags. -/
def DataFrame.isPadded (frameHeader : FrameHeader) : Bool := frameHeader.flags.getLsbD 0

def receiveData (frameHeader : FrameHeader) : Act Unit := do
  if frameHeader.streamId = 0 then throw (.runtime_error "connection_error PROTOCOL_ERROR")
  else do
    let stream ← getStream frameHeader.streamId
    if stream.state_ ≠ .Open ∧ stream.state_ ≠ .HalfClosedLocal then
      throw (.runtime_error "stream_error STREAM_CLOSED")
    else do
      let stream ← ofExcept (stream.subtractWindowSize frameHeader.length.toNat)
      store frameHeader.streamId stream
      let length ←
        if DataFrame.isPadded frameHeader then takePadLength frameHeader.length.toNat
        else pure frameHeader.length.toNat
      let data ← front length
      let request_ := { stream.request_ with body_ := stream.request_.body_ ++ data }
      let stream := { stream with request_ := request_ }
      store frameHeader.streamId stream
      dispatch stream
      endStream stream.id_

/-- `headerDecoder_.parseHeaders(block)`, which leaves its table to the next block also when it
throws. -/
def parseHeaders (block : Bytes) : Act (List Header) := fun s =>
  let (headers, table_) := Hpack.parseHeaders s.headerDecoder_ block
  let s := { s with headerDecoder_ := table_ }
  match headers with
  | .ok headers => .ok headers s
  | .error e => .error e s

/-- The stream, after it has been created if there was none. -/
def findOrEmplace (id : BitVec 31) : Act ServerStream := do
  match ← find id with
  | some stream => return stream
  | none => do
      emplace id { id_ := id }
      return { id_ := id }

def receiveHeaders (frameHeader : FrameHeader) : Act Unit := do
  let block ← frontOr (.assertion "buf.size() >= frameHeader.length") frameHeader.length.toNat
  let headers ← parseHeaders block
  let stream ← findOrEmplace frameHeader.streamId
  let headers_ :=
    headers.foldl (fun fields header => fields.add header.name header.value)
      stream.request_.headers_
  let stream := { stream with request_ := { stream.request_ with headers_ := headers_ } }
  store frameHeader.streamId stream
  dispatch stream
  endStream stream.id_

def sendPingResponse (data : Bytes) : Act Unit :=
  let header : FrameHeader :=
    { type := FrameType.PING, flags := setFlag 0 0 true, length := BitVec.ofNat 24 data.length }
  send (header.writeTo ++ data)

def receivePing (header : FrameHeader) : Act Unit := do
  if isPingACK header then return
  else if header.streamId ≠ 0 then
    throw (.runtime_error ("Non-zero stream ID " ++ toString header.streamId.toNat ++ " in PING"))
  else if header.length ≠ 8 then
    throw (.runtime_error ("Incorrect PING payload size " ++ toString header.length.toNat))
  else if (← get).buf.length < 8 then return
  else do
    let data ← front 8
    sendPingResponse data
    advance 8

/-- The error code is read and not used. -/
def receiveResetStream (header : FrameHeader) : Act Unit := do
  if header.length ≠ 4 then throw (.runtime_error "RST_STREAM wrong size")
  else if header.streamId = 0 then
    throw (.runtime_error "Invalid RST_STREAM stream id 0")
  else do
    let _errorCode ← front 4
    erase header.streamId

def ackSettings : Act Unit :=
  let header : FrameHeader := { type := FrameType.SETTINGS, flags := setFlag 0 0 true }
  send header.writeTo

def receiveSettings (header : FrameHeader) : Act Unit := do
  if isSettingsACK header then return
  else do
    let buf ← front header.length.toNat
    let settings ← ofExcept (Settings.createFromBuffer buf)
    modify fun s =>
      { s with
        peerSettings_ := settings
        windowSize_ :=
          if s.windowUpdateReceived_ then s.windowSize_
          else settings.value Settings.InitialWindowSize }
    ackSettings

/-- 1 reserved bit, 31 "Window Size Increment" bits. The octets are read as
`unsigned char`. -/
def readWindowSize (data : Bytes) : Int :=
  let octet := fun i => (dataAt data i).setWidth 32
  let windowSize := (octet 0 <<< 24) ||| (octet 1 <<< 16) ||| (octet 2 <<< 8) ||| (octet 3 <<< 0)
  (windowSize &&& 0x7fffffff#32).toInt

def addConnectionWindowSize (windowSize : Int) : Act Unit := do
  let existing := (← get).windowSize_
  let windowSize ← ofExcept
    ((Http2.addWindowSize existing.toInt windowSize).mapError (rethrow "connection error: "))
  modify fun s =>
    { s with windowSize_ := BitVec.ofInt 32 windowSize, windowUpdateReceived_ := true }

def addStreamWindowSize (streamId : BitVec 31) (windowSize : Int) : Act Unit := do
  match ← find streamId with
  | some stream => do
      let stream ← ofExcept (stream.addWindowSize windowSize)
      store streamId stream
  | none => return

def receiveWindowUpdate (header : FrameHeader) : Act Unit := do
  if header.length ≠ 4 then throw (.runtime_error "WINDOW_UPDATE wrong size")
  else do
    let data ← front 4
    let windowSize := readWindowSize data
    if header.streamId = 0 then addConnectionWindowSize windowSize
    else addStreamWindowSize header.streamId windowSize

/-! ## Frames -/

/-- The `switch` of `processFrameBody`, which calls the handler for the type of a frame. -/
def handler (header : FrameHeader) : Act Unit :=
  if header.type = FrameType.DATA then receiveData header
  else if header.type = FrameType.HEADERS then receiveHeaders header
  else if header.type = FrameType.PING then receivePing header
  else if header.type = FrameType.RST_STREAM then receiveResetStream header
  else if header.type = FrameType.SETTINGS then receiveSettings header
  else if header.type = FrameType.WINDOW_UPDATE then receiveWindowUpdate header
  else pure () -- ignored

/-- Writes down the frame a handler is about to be called for. -/
def record (header : FrameHeader) : Act Unit :=
  modify fun s =>
    { s with handled := s.handled ++ [(header, s.buf.take header.length.toNat)] }

def processFrameBody : Act Unit := do
  match (← get).currentFrameHeader_ with
  | none => throw (.assertion "currentFrameHeader_.has_value()")
  | some header =>
      if (← get).buf.length < header.length.toNat then return
      else do
        record header
        handler header
        advance header.length.toNat
        modify fun s => { s with currentFrameHeader_ := none }

def receiveFrameHeader : Act Unit := fun s =>
  if s.currentFrameHeader_.isSome then
    .error (.assertion "!currentFrameHeader_.has_value()") s
  else if s.buf.length < FrameHeader.SIZE then .ok () s
  else
    match readFrameHeader s.buf with
    | .ok (header, buf) => .ok () { s with currentFrameHeader_ := some header, buf := buf }
    | .error e => .error e s

/-- Whether there may be another frame to process. -/
def receiveFrame : Act Bool := do
  if (← get).currentFrameHeader_.isNone then receiveFrameHeader
  match (← get).currentFrameHeader_ with
  | none => return false
  | some header =>
      if (← get).buf.length < header.length.toNat then return false
      else do
        processFrameBody
        return true

/-- The loop, for at most the given number of turns. -/
def receiveFrames_loop : Nat → Act Unit
  | 0 => return
  | turns + 1 => do
      let moreToProcess ← receiveFrame
      if moreToProcess ∧ (← get).buf ≠ [] then receiveFrames_loop turns
      else return

/-- Every turn but the first reads a header, so there are no more turns than two
and the number of octets. -/
def receiveFrames : Act Unit := do receiveFrames_loop ((← get).buf.length + 2)

def receivePreface : Act Unit := do
  let s ← get
  if s.buf.length < CLIENT_PREFACE.length then return
  else if s.buf.take CLIENT_PREFACE.length ≠ CLIENT_PREFACE then
    throw (.runtime_error "Invalid connection preface")
  else do
    modify fun s => { s with prefaceReceived_ := true }
    advance CLIENT_PREFACE.length
    receiveFrames

def onInput : Act Unit := do
  if ¬ (← get).prefaceReceived_ then receivePreface
  receiveFrames

/-! ## Reads -/

/-- The reads of a connection, each followed by `onInput`. An exception leaves the
event loop; what has not been read then is left behind the buffer. -/
def run : List Bytes → Impl → Impl × Option Exn
  | [], s => (s, none)
  | piece :: pieces, s =>
      match onInput (s.feed piece) with
      | .ok _ s => run pieces s
      | .error e s => (s.feed pieces.flatten, some e)

end ServerTransport

end Shitty.Http2
