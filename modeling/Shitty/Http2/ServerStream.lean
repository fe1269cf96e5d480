import Shitty.Core.Message
import Shitty.Core.Payload
import Shitty.Http2.Frame

/-!
# Streams

`http2/FlowControl.h`, `http2/HeadersFrame.h` and `http2/ServerStream.h`. Window sizes
are `int32_t`; what is computed of them are integers here, and what is stored has 32
bits. A signed overflow, of which the language does not say what it stores, wraps
around. The setters of a frame and the two calls on the window of a stream are functions
from one value to the next; what the source throws is the error.
-/

namespace Shitty.Http2

/-! ## Flow control -/

def INT32_MAX : Int := 2 ^ 31 - 1

def InInt32 (v : Int) : Prop := -2 ^ 31 ≤ v ∧ v ≤ INT32_MAX

/-- What is stored in an `int32_t` is read as it was. -/
theorem InInt32.toInt_ofInt {v : Int} (h : InInt32 v) : (BitVec.ofInt 32 v).toInt = v := by
  have hlast : INT32_MAX = 2 ^ 31 - 1 := rfl
  obtain ⟨hmin, hmax⟩ := h
  rw [BitVec.toInt_ofInt]
  exact Int.bmod_eq_of_le_mul_two (by omega) (by omega)

theorem inInt32_toInt (v : BitVec 32) : InInt32 v.toInt :=
  ⟨BitVec.le_toInt v, Int.le_of_lt_add_one (BitVec.toInt_lt (x := v))⟩

def wouldAddOverflow (first second : Int) : Bool := INT32_MAX - first < second

def addWindowSize (existingWindowSize addWindowSize : Int) : Except Exn Int :=
  if addWindowSize < 1 then .error (.runtime_error "invalid window update")
  else if existingWindowSize < 0 then .ok (existingWindowSize + addWindowSize)
  else if wouldAddOverflow existingWindowSize addWindowSize then
    .error (.runtime_error "window size overflow")
  else .ok (existingWindowSize + addWindowSize)

/-- `catch (std::runtime_error& err)`, with a text in front of its own. -/
def rethrow (what : String) : Exn → Exn
  | .runtime_error err => .runtime_error (what ++ err)
  | e => e

/-! ## `HeadersFrame` -/

/-- `flags.set(pos, value)` of the eight flags of a frame. -/
def setFlag (flags : BitVec 8) (pos : Nat) (value : Bool) : BitVec 8 :=
  if value then flags ||| (1#8 <<< pos) else flags &&& ~~~(1#8 <<< pos)

structure HeadersFrame where
  frameHeader_ : FrameHeader
  headerBlockFragment_ : Bytes := []
  padding_ : Bytes := []

namespace HeadersFrame

def isPadded (frameHeader : FrameHeader) : Bool := frameHeader.flags.getLsbD 3

def isPriority (frameHeader : FrameHeader) : Bool := frameHeader.flags.getLsbD 5

def length (frame : HeadersFrame) : Nat :=
  frame.headerBlockFragment_.length + frame.padding_.length

def setEndStream (frame : HeadersFrame) (value : Bool) : HeadersFrame :=
  { frame with
    frameHeader_ := { frame.frameHeader_ with flags := setFlag frame.frameHeader_.flags 0 value } }

def setEndHeaders (frame : HeadersFrame) (value : Bool) : HeadersFrame :=
  { frame with
    frameHeader_ := { frame.frameHeader_ with flags := setFlag frame.frameHeader_.flags 2 value } }

/-- The constructor of a frame for a stream, which sets END_HEADERS and nothing else. -/
def new (streamId : BitVec 31) : HeadersFrame :=
  setEndHeaders { frameHeader_ := { type := FrameType.HEADERS, streamId := streamId } } true

def setHeaderBlockFragment (frame : HeadersFrame) (headerBlockFragment : Bytes) : HeadersFrame :=
  let frame := { frame with headerBlockFragment_ := headerBlockFragment }
  { frame with
    frameHeader_ := { frame.frameHeader_ with length := BitVec.ofNat 24 frame.length } }

def setIsPriority (frame : HeadersFrame) (value : Bool) : HeadersFrame :=
  { frame with
    frameHeader_ := { frame.frameHeader_ with flags := setFlag frame.frameHeader_.flags 5 value } }

def setIsPadded (frame : HeadersFrame) (value : Bool) : HeadersFrame :=
  { frame with
    frameHeader_ := { frame.frameHeader_ with flags := setFlag frame.frameHeader_.flags 3 value } }

def setPadding (frame : HeadersFrame) (padding : Bytes) : HeadersFrame :=
  let frame := { frame with padding_ := padding }.setIsPadded (padding ≠ [])
  { frame with
    frameHeader_ := { frame.frameHeader_ with length := BitVec.ofNat 24 frame.length } }

def writeTo (frame : HeadersFrame) (payload : Payload) : Payload :=
  ((payload.write frame.frameHeader_.writeTo).write frame.headerBlockFragment_).write
    frame.padding_

end HeadersFrame

/-! ## `ServerStream` -/

inductive StreamState where
  | Idle
  | ReservedLocal
  | ReservedRemote
  | Open
  | HalfClosedLocal
  | HalfClosedRemote
  | Closed
  deriving DecidableEq, Repr

structure ServerStream where
  id_ : BitVec 31
  /-- An `int32_t`, with the initial value from RFC 7540 6.5.2. -/
  windowSize_ : BitVec 32 := 65535
  state_ : StreamState := .Idle
  request_ : Message := {}
  deriving DecidableEq, Repr

namespace ServerStream

def addWindowSize (stream : ServerStream) (windowSize : Int) : Except Exn ServerStream :=
  match Http2.addWindowSize stream.windowSize_.toInt windowSize with
  | .ok windowSize_ => .ok { stream with windowSize_ := BitVec.ofInt 32 windowSize_ }
  | .error err => .error (rethrow "stream error: " err)

/-- `subtractWindowSize`. Its parameter `adjustment` is a `uint32_t`. -/
def subtractWindowSize (stream : ServerStream) (adjustment : Nat) : Except Exn ServerStream :=
  if (stream.windowSize_.toInt < 0 ∧ stream.windowSize_.toInt.natAbs < adjustment) ∨
      INT32_MAX < adjustment then
    .error (.runtime_error "window size reduction too large")
  else .ok { stream with windowSize_ := BitVec.ofInt 32 (stream.windowSize_.toInt - adjustment) }

def availableWindowSize (stream : ServerStream) : Int := stream.windowSize_.toInt

/-- What `sendResponse` gives to the transport, whatever the response: the static
table's `:status: 200`, completing the stream. -/
def sendResponse (stream : ServerStream) : HeadersFrame :=
  ((HeadersFrame.new stream.id_).setHeaderBlockFragment [0x88#8]).setEndStream true

/-- The request is not looked at. -/
def onRequest (stream : ServerStream) : HeadersFrame := stream.sendResponse

end ServerStream

end Shitty.Http2
