import Shitty.Http2.Logic.Frame

/-!
# The frame header codec

Reading what was written, and writing what was read, gives the same back exactly when no
octet with its top bit set stands behind one that is not 0xff. Both halves are
equivalences, for every header and for any nine octets.
-/

namespace Shitty.Http2

/-- The frame header codec: both round trips hold exactly for the headers none of
whose octets is damaged by the sign of one behind it. -/
theorem frame_header_codec_iff (header : FrameHeader) (rest : Bytes)
    (a b c d e f g h i : Octet) :
    (readFrameHeader (header.writeTo ++ rest) = .ok (header, rest) ↔ Survives header.writeTo) ∧
      ((∃ header, readFrameHeader [a, b, c, d, e, f, g, h, i] = .ok (header, []) ∧
          header.writeTo = [a, b, c, d, e, f, g, h, i]) ↔
        Survives [a, b, c, d, e, f, g, h, i]) :=
  ⟨readFrameHeader_writeTo header rest, writeTo_readFrameHeader a b c d e f g h i⟩

/-- A frame of 128 octets is read as one of 0xffff80. -/
theorem readFrameHeader_length_128 :
    ¬ ∀ (h : FrameHeader) (rest : Bytes), readFrameHeader (h.writeTo ++ rest) = .ok (h, rest) := by
  intro h
  exact absurd (h { length := 128#24, type := FrameType.DATA } []) (by decide)

end Shitty.Http2
