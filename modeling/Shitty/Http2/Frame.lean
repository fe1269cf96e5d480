import Shitty.Core.StreamBuf

/-!
# Frame headers

`http2/Frame.cpp`. `char` is signed, so an octet of a `StreamBuf` is widened with its
sign. So a header is put together from such values by shifts and ors, as in the source.
Which headers come out of that as they were written is the matter of
`Http2/Logic/Frame.lean`.
-/

namespace Shitty.Http2

/-- `enum class FrameType: uint8_t`; a variable of it can hold any octet. -/
abbrev FrameType := Octet

namespace FrameType

def DATA : FrameType := 0x00#8
def HEADERS : FrameType := 0x01#8
def PRIORITY : FrameType := 0x02#8
def RST_STREAM : FrameType := 0x03#8
def SETTINGS : FrameType := 0x04#8
def PUSH_PROMISE : FrameType := 0x05#8
def PING : FrameType := 0x06#8
def GOAWAY : FrameType := 0x07#8
def WINDOW_UPDATE : FrameType := 0x08#8
def CONTINUATION : FrameType := 0x09#8

end FrameType

structure FrameHeader where
  length : BitVec 24 := 0
  type : FrameType
  flags : BitVec 8 := 0
  reserved : BitVec 1 := 0
  streamId : BitVec 31 := 0
  deriving DecidableEq, Repr

namespace FrameHeader

def SIZE : Nat := 9

/-- `static_cast<std::byte>`, which keeps the eight lowest bits. -/
def byte {w : Nat} (v : BitVec w) : Octet := v.setWidth 8

/-- The octets `writeTo` puts into the payload. -/
def writeTo (h : FrameHeader) : Bytes :=
  let reservedAndStreamId := (h.reserved.setWidth 32 <<< 31) ||| h.streamId.setWidth 32
  [byte (h.length >>> 16), byte (h.length >>> 8), byte (h.length >>> 0),
    byte h.type,
    byte h.flags,
    byte (reservedAndStreamId >>> 24), byte (reservedAndStreamId >>> 16),
    byte (reservedAndStreamId >>> 8), byte (reservedAndStreamId >>> 0)]

end FrameHeader

/-- `static_cast<uint32_t>` of a `char`, which is widened with its sign. -/
def widen (c : Octet) : BitVec 32 := c.signExtend 32

/-- `data()[i]` of a `StreamBuf`, where it is inside. -/
def dataAt (input : Bytes) (i : Nat) : Octet := input.getD i 0

/-- The header, and what is left of the input. -/
def readFrameHeader (input : Bytes) : Except Exn (FrameHeader × Bytes) :=
  if input.length < FrameHeader.SIZE then .error (.runtime_error "incomplete header")
  else do
    let data := dataAt input
    let length :=
      (widen (data 0) <<< 16) ||| (widen (data 1) <<< 8) ||| (widen (data 2) <<< 0)
    let reservedAndStreamId :=
      (widen (data 5) <<< 24) ||| (widen (data 6) <<< 16) ||| (widen (data 7) <<< 8) |||
        (widen (data 8) <<< 0)
    let input ← advance FrameHeader.SIZE input
    return ({ length := length.setWidth 24
              type := data 3
              flags := data 4
              reserved := (reservedAndStreamId >>> 31).setWidth 1
              streamId := (reservedAndStreamId &&& 0x7fffffff#32).setWidth 31 }, input)

def isSettingsACK (frameHeader : FrameHeader) : Bool :=
  frameHeader.type == FrameType.SETTINGS && frameHeader.flags.getLsbD 0

def isPingACK (frameHeader : FrameHeader) : Bool :=
  frameHeader.type == FrameType.PING && frameHeader.flags.getLsbD 0

end Shitty.Http2
