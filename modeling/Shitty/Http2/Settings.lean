import Shitty.Http2.Frame

/-!
# Settings

`http2/Settings.cpp`. Values are read from signed octets, so that an octet from 0x80 on
puts ones in front of it, and they are written by `htons` and `htonl` on a machine that
is little-endian.
-/

namespace Shitty.Http2

/-- "Initially, there is no limit to this value", of the third and the last. -/
def initialValues : Vector (BitVec 32) 6 := #v[4096, 1, ~~~0, 65535, 16384, ~~~0]

structure Settings where
  values_ : Vector (BitVec 32) 6 := initialValues
  deriving DecidableEq, Repr

namespace Settings

/-! ## `enum Name : uint16_t` -/

def HeaderTableSize : Nat := 1
def First : Nat := 1
def EnablePush : Nat := 2
def MaxConcurrentStreams : Nat := 3
def InitialWindowSize : Nat := 4
def MaxFrameSize : Nat := 5
def MaxHeaderListSize : Nat := 6
def Last : Nat := 6

def value (settings : Settings) (name : Nat) : BitVec 32 := settings.values_.getD (name - First) 0

/-- `settings.value(name) = v`. The callers have made sure that there is such a name. -/
def setValue (settings : Settings) (name : Nat) (v : BitVec 32) : Settings where
  values_ := settings.values_.setIfInBounds (name - First) v

/-- One turn for each six octets. `char` is signed here too. -/
def createFromBuffer_loop : Bytes → Settings → Settings
  | a :: b :: c :: d :: e :: f :: buf, settings =>
      let id : BitVec 16 := (a.signExtend 16 <<< 8) ||| b.signExtend 16
      if id.toNat < First ∨ Last < id.toNat then createFromBuffer_loop buf settings
      else
        let value :=
          (widen c <<< 24) ||| (widen d <<< 16) ||| (widen e <<< 8) ||| (widen f <<< 0)
        createFromBuffer_loop buf (settings.setValue id.toNat value)
  | _, settings => settings

def createFromBuffer (buf : Bytes) : Except Exn Settings :=
  if buf.length % 6 ≠ 0 then
    .error (.runtime_error "malformed SETTINGS: size not a multiple of 6")
  else .ok (createFromBuffer_loop buf {})

/-- The octets in memory of what `htons` returns: most significant first. -/
def htons (v : BitVec 16) : Bytes := [FrameHeader.byte (v >>> 8), FrameHeader.byte (v >>> 0)]

def htonl (v : BitVec 32) : Bytes :=
  [FrameHeader.byte (v >>> 24), FrameHeader.byte (v >>> 16), FrameHeader.byte (v >>> 8),
    FrameHeader.byte (v >>> 0)]

/-- The octets `writeTo` puts into the payload. -/
def writeTo (settings : Settings) : Bytes :=
  let count := Last - First + 1
  (List.range count).flatMap fun i =>
    htons (BitVec.ofNat 16 (First + i)) ++ htonl (settings.values_.getD i 0)

end Settings

end Shitty.Http2
