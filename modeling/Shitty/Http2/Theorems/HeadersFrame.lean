import Shitty.Http2.Logic.Frame
import Shitty.Http2.Theorems.Headers

/-!
# HEADERS frames that are written

The flags PADDED and PRIORITY are written with the frame, the fields they announce are
not. A peer reads a frame as RFC 7540 section 6.2 has it. It reads what the setters have
meant exactly when there is no padding and no priority; any sequence of setters is
looked at.
-/

namespace Shitty.Http2

/-! ## Frames and what they should be read as -/

/-- A HEADERS frame as its receiver knows it. -/
structure ReceivedHeaders where
  flags : BitVec 8
  headerBlockFragment : Bytes
  padLength : Nat
  deriving DecidableEq

/-- RFC 7540 sections 4.1 and 6.2, for octets that are to be one frame. -/
def readHeadersFrame (octets : Bytes) : Option ReceivedHeaders :=
  match octets with
  | a :: b :: c :: type :: flags :: _ :: _ :: _ :: _ :: payload =>
      if type = FrameType.HEADERS ∧ wireNumber [a, b, c] = payload.length then
        (headersFields flags payload).map fun fields =>
          { flags := flags, headerBlockFragment := fields.1, padLength := fields.2 }
      else none
  | _ => none

namespace HeadersFrame

/-- The length field counts what is behind the header, and a receiver gets back what is in
the frame. -/
structure Describes (frame : HeadersFrame) (octets : Bytes) : Prop where
  length : 9 + wireNumber (octets.take 3) = octets.length
  received : readHeadersFrame octets = some
    { flags := frame.frameHeader_.flags
      headerBlockFragment := frame.headerBlockFragment_
      padLength := frame.padding_.length }

/-- What either of the two functions writes, whatever has been written before. -/
structure Parsable (frame : HeadersFrame) : Prop where
  writeTo : ∀ payload : Payload, ∃ octets, frame.Describes octets ∧
    (frame.writeTo payload).queued = payload.queued ++ octets
  writeHeadersFrame : ∀ s, ∃ octets, frame.Describes octets ∧
    ServerTransport.writeHeadersFrame frame s = .ok () { s with sent := s.sent ++ [octets] }

/-! ## Setters -/

inductive Setter where
  | setHeaderBlockFragment (headerBlockFragment : Bytes)
  | setPadding (padding : Bytes)
  | setEndStream (value : Bool)
  | setEndHeaders (value : Bool)
  | setIsPriority (value : Bool)

def Setter.apply (frame : HeadersFrame) : Setter → HeadersFrame
  | .setHeaderBlockFragment headerBlockFragment => frame.setHeaderBlockFragment headerBlockFragment
  | .setPadding padding => frame.setPadding padding
  | .setEndStream value => frame.setEndStream value
  | .setEndHeaders value => frame.setEndHeaders value
  | .setIsPriority value => frame.setIsPriority value

/-- The frame behind some calls of its setters. -/
def build (streamId : BitVec 31) (setters : List Setter) : HeadersFrame :=
  setters.foldl Setter.apply (new streamId)

/-- What the setters keep up: the type, the length, and the flag PADDED beside the padding. -/
structure Consistent (frame : HeadersFrame) : Prop where
  type : frame.frameHeader_.type = FrameType.HEADERS
  length : frame.frameHeader_.length = BitVec.ofNat 24 frame.length
  padded : isPadded frame.frameHeader_ = true ↔ frame.padding_ ≠ []

theorem getLsbD_setFlag (flags : BitVec 8) {pos i : Nat} (hpos : pos < 8) (value : Bool) :
    (setFlag flags pos value).getLsbD i = if i = pos then value else flags.getLsbD i := by
  have hbit : (1#8 <<< pos).getLsbD i = decide (i = pos) := by
    rw [BitVec.getLsbD_shiftLeft, BitVec.getLsbD_one]
    by_cases hsame : i = pos
    · subst hsame
      simp [hpos]
    · simp [hsame]
      omega
  unfold setFlag
  cases value with
  | true =>
      rw [if_pos rfl, BitVec.getLsbD_or, hbit]
      by_cases hsame : i = pos <;> simp [hsame]
  | false =>
      rw [if_neg Bool.false_ne_true, BitVec.getLsbD_and, BitVec.getLsbD_not, hbit]
      by_cases hsame : i = pos
      · simp [hsame]
      · by_cases hi : i < 8
        · simp [hsame, hi]
        · simp [hsame, BitVec.getLsbD_of_ge flags i (by omega)]

/-- A flag other than PADDED can be set or cleared, and the frame stays consistent. -/
theorem Consistent.setFlag {frame : HeadersFrame} (h : frame.Consistent) {pos : Nat}
    (hpos : pos < 8) (hother : pos ≠ 3) (value : Bool) :
    Consistent { frame with
      frameHeader_ := { frame.frameHeader_ with
        flags := Http2.setFlag frame.frameHeader_.flags pos value } } where
  type := h.type
  length := h.length
  padded := by
    rw [← h.padded, isPadded, getLsbD_setFlag _ hpos, if_neg hother.symm, isPadded]

theorem new_consistent (streamId : BitVec 31) : (new streamId).Consistent where
  type := rfl
  length := rfl
  padded := by simp [isPadded, new, setEndHeaders, Http2.setFlag]

theorem Consistent.apply {frame : HeadersFrame} (h : frame.Consistent) (setter : Setter) :
    (setter.apply frame).Consistent := by
  cases setter with
  | setHeaderBlockFragment headerBlockFragment => exact ⟨h.type, rfl, h.padded⟩
  | setPadding padding =>
      refine ⟨h.type, rfl, ?_⟩
      show (Http2.setFlag frame.frameHeader_.flags 3 (padding ≠ [])).getLsbD 3 = true ↔ padding ≠ []
      rw [getLsbD_setFlag _ (by omega), if_pos rfl, decide_eq_true_iff]
  | setEndStream value => exact h.setFlag (by omega) (by omega) value
  | setEndHeaders value => exact h.setFlag (by omega) (by omega) value
  | setIsPriority value => exact h.setFlag (by omega) (by omega) value

theorem build_consistent (streamId : BitVec 31) (setters : List Setter) :
    (build streamId setters).Consistent := by
  have hall : ∀ frame : HeadersFrame, frame.Consistent →
      (setters.foldl Setter.apply frame).Consistent := by
    induction setters with
    | nil => exact fun frame h => h
    | cons setter setters ih => exact fun frame h => ih _ (h.apply setter)
  exact hall _ (new_consistent streamId)

/-! ## What is written -/

/-- The octets of a frame, as they go out. -/
def octets (frame : HeadersFrame) : Bytes :=
  frame.frameHeader_.writeTo ++ frame.headerBlockFragment_ ++ frame.padding_

theorem writeTo_queued (frame : HeadersFrame) (payload : Payload) :
    (frame.writeTo payload).queued = payload.queued ++ frame.octets := by
  rw [writeTo, (Payload.write_extends _ _).queued, (Payload.write_extends _ _).queued,
    (Payload.write_extends _ _).queued, octets]
  simp only [List.append_assoc]

/-- Both functions write the same octets, so there is one description. -/
theorem parsable_iff (frame : HeadersFrame) : frame.Parsable ↔ frame.Describes frame.octets := by
  constructor
  · intro h
    obtain ⟨octets, hdescribes, hsent⟩ := h.writeHeadersFrame {}
    have hsame : [frame.octets] = [octets] :=
      congrArg (fun result => (ServerTransport.stateOf result).sent) hsent
    cases hsame
    exact hdescribes
  · intro h
    exact ⟨fun payload => ⟨frame.octets, h, frame.writeTo_queued payload⟩,
      fun s => ⟨frame.octets, h, rfl⟩⟩

theorem wireNumber_length (length : BitVec 24) :
    wireNumber [FrameHeader.byte (length >>> 16), FrameHeader.byte (length >>> 8),
      FrameHeader.byte (length >>> 0)] = length.toNat := by
  have hlt := length.isLt
  simp only [wireNumber, FrameHeader.byte, List.foldl_cons, List.foldl_nil, BitVec.toNat_setWidth,
    BitVec.toNat_ushiftRight, Nat.shiftRight_eq_div_pow]
  omega

/-- What a receiver of the frame sees. -/
theorem readHeadersFrame_octets {frame : HeadersFrame} (h : frame.Consistent)
    (hfits : frame.length < 2 ^ 24) :
    readHeadersFrame frame.octets =
      (headersFields frame.frameHeader_.flags
        (frame.headerBlockFragment_ ++ frame.padding_)).map fun fields =>
          { flags := frame.frameHeader_.flags, headerBlockFragment := fields.1,
            padLength := fields.2 } := by
  have hflags : FrameHeader.byte frame.frameHeader_.flags = frame.frameHeader_.flags := by
    simp [FrameHeader.byte]
  have htype : FrameHeader.byte frame.frameHeader_.type = FrameType.HEADERS := by
    rw [h.type]
    rfl
  have hlength : frame.frameHeader_.length.toNat =
      (frame.headerBlockFragment_ ++ frame.padding_).length := by
    rw [h.length, BitVec.toNat_ofNat, Nat.mod_eq_of_lt hfits, length, List.length_append]
  rw [octets, List.append_assoc, FrameHeader.writeTo]
  simp only [List.cons_append, List.nil_append, readHeadersFrame, hflags]
  rw [if_pos ⟨htype, by rw [wireNumber_length, hlength]⟩]

theorem length_octets {frame : HeadersFrame} (h : frame.Consistent)
    (hfits : frame.length < 2 ^ 24) :
    9 + wireNumber (frame.octets.take 3) = frame.octets.length := by
  have htake : frame.octets.take 3 = [FrameHeader.byte (frame.frameHeader_.length >>> 16),
      FrameHeader.byte (frame.frameHeader_.length >>> 8),
      FrameHeader.byte (frame.frameHeader_.length >>> 0)] := rfl
  rw [htake, wireNumber_length, h.length, BitVec.toNat_ofNat, Nat.mod_eq_of_lt hfits, octets]
  simp only [List.length_append, length_writeTo, length]
  omega

/-- The fields that are missing are taken from the front of the fragment. -/
theorem headersFields_fragment {frame : HeadersFrame} (h : frame.Consistent) :
    headersFields frame.frameHeader_.flags (frame.headerBlockFragment_ ++ frame.padding_) =
        some (frame.headerBlockFragment_, frame.padding_.length) ↔
      frame.padding_ = [] ∧ isPriority frame.frameHeader_ = false := by
  by_cases hpadding : frame.padding_ = []
  · have h3 : ¬ frame.frameHeader_.flags.getLsbD 3 = true := fun hset => h.padded.mp hset hpadding
    unfold headersFields unpaddedFields prioritySize isPriority
    rw [if_neg h3, hpadding]
    by_cases h5 : frame.frameHeader_.flags.getLsbD 5 = true
    · rw [if_pos h5]
      refine iff_of_false ?_ (by simp [h5])
      split
      · simp
      · intro hsame
        have hblock := congrArg List.length (Prod.mk.inj (Option.some.inj hsame)).1
        rename_i hroom
        simp only [List.append_nil, List.length_take, List.length_drop] at hblock hroom
        omega
    · rw [if_neg h5]
      refine iff_of_true ?_ ⟨rfl, by simpa using h5⟩
      simp
  · have h3 : frame.frameHeader_.flags.getLsbD 3 = true := h.padded.mpr hpadding
    refine iff_of_false ?_ (fun hnone => hpadding hnone.1)
    unfold headersFields
    rw [if_pos h3]
    intro hsame
    -- the pad length would be in front of the fragment that it leaves
    cases hoctets : frame.headerBlockFragment_ ++ frame.padding_ with
    | nil =>
        rw [hoctets] at hsame
        cases hsame
    | cons pad rest =>
        rw [hoctets] at hsame
        simp only [unpaddedFields] at hsame
        split at hsame
        · cases hsame
        · obtain ⟨hblock, hpad⟩ := Prod.mk.inj (Option.some.inj hsame)
          have hlen := congrArg List.length hoctets
          have hsize := congrArg List.length hblock
          simp only [List.length_append, List.length_cons] at hlen
          simp only [List.length_take, List.length_drop] at hsize
          omega

/-- Of the frames that can be built and have a length, exactly those can be read by
their receivers that have no padding and no PRIORITY flag. -/
theorem parsable_build_iff {streamId : BitVec 31} {setters : List Setter}
    (hfits : (build streamId setters).length < 2 ^ 24) :
    (build streamId setters).Parsable ↔
      (build streamId setters).padding_ = [] ∧
        isPriority (build streamId setters).frameHeader_ = false := by
  have hconsistent := build_consistent streamId setters
  rw [parsable_iff, ← headersFields_fragment hconsistent]
  constructor
  · intro hdescribes
    have hreceived := hdescribes.received
    rw [readHeadersFrame_octets hconsistent hfits, Option.map_eq_some_iff] at hreceived
    obtain ⟨⟨fragment, padLength⟩, hfields, hsame⟩ := hreceived
    rw [ReceivedHeaders.mk.injEq] at hsame
    obtain ⟨-, rfl, rfl⟩ := hsame
    exact hfields
  · intro hfields
    refine ⟨length_octets hconsistent hfits, ?_⟩
    rw [readHeadersFrame_octets hconsistent hfits, hfields]
    rfl

/-- The frame with which every request is answered can be parsed. -/
theorem parsable_status :
    (build 1 [.setHeaderBlockFragment [0x88#8], .setEndStream true]).Parsable :=
  (parsable_build_iff (by decide)).mpr ⟨rfl, by decide⟩

/-- A field of padding, and no pad length in front of `:status: 200`. -/
theorem padding_misread :
    ¬ ∀ (streamId : BitVec 31) (setters : List Setter),
      (build streamId setters).padding_.length ≤ 255 →
        (build streamId setters).length < 2 ^ 24 → (build streamId setters).Parsable := by
  intro h
  have hparsable := h 1 [.setHeaderBlockFragment [0x88#8], .setPadding [0x00#8]] (by decide)
    (by decide)
  have hreceived := ((parsable_iff _).mp hparsable).received
  revert hreceived
  decide

end HeadersFrame

end Shitty.Http2
