import Shitty.Http2.Logic.Handlers
import Shitty.Lib.Resumable

/-!
# Reading a stream frame by frame

The stream as a consumer reads it that gives every handler its own payload and
nothing else: the preface, then headers and payloads in turn. Behind a PING that
is answered the code takes off eight octets more. Whether they have been read by
then is the one thing that depends on how the stream is cut; here it is a
parameter, a set of offsets in the stream.

The code's loops drain this consumer.
-/

namespace Shitty.Http2.ServerTransport

open Lib.Resumable

/-! ## The consumer -/

/-- The handler on a frame's own payload. -/
def own (header : FrameHeader) (payload : Bytes) (s : Impl) : EStateM.Result Exn Impl Unit :=
  handler header { s with buf := payload, handled := s.handled ++ [(header, payload)] }

/-- The exception of a buffer that is too short. -/
def tooShort : Exn := .length_error "StreamBuf::advance out of range"

open scoped Classical in
/-- What is made of a frame with some octets behind it. -/
noncomputable def frameStep (short : Prop) (header : FrameHeader) (payload rest : Bytes)
    (s : Impl) : Verdict Impl Exn :=
  match own header payload s with
  | .error e s' => .fail { s' with buf := payload ++ rest } e
  | .ok _ s' =>
      let done := { s' with currentFrameHeader_ := none }
      if header.Answered then
        if short then .fail { s' with buf := rest } tooShort
        else if rest.length < 8 then .wait
        else .next { done with buf := rest.drop 8 }
      else .next { done with buf := rest }

/-- The consumer's step for the client's preface, which is taken when it is there as a whole. -/
def prefaceStep (s : Impl) : Verdict Impl Exn :=
  if s.buf.length < CLIENT_PREFACE.length then .wait
  else if s.buf.take CLIENT_PREFACE.length ≠ CLIENT_PREFACE then
    .fail s (.runtime_error "Invalid connection preface")
  else .next { s with prefaceReceived_ := true, buf := s.buf.drop CLIENT_PREFACE.length }

/-- The consumer's step for a frame header, which is taken when its nine octets are there. -/
def headerStep (s : Impl) : Verdict Impl Exn :=
  if s.buf.length < FrameHeader.SIZE then .wait
  else
    match readFrameHeader s.buf with
    | .ok (header, buf) => .next { s with currentFrameHeader_ := some header, buf := buf }
    | .error e => .fail s e

/-- The payload of a frame, the end of which is an offset in the stream. -/
noncomputable def bodyStep (short : Nat → Prop) (header : FrameHeader) (s : Impl)
    (received : Nat) : Verdict Impl Exn :=
  let n := header.length.toNat
  if s.buf.length < n then .wait
  else
    frameStep (short (received - (s.buf.length - n))) header (s.buf.take n) (s.buf.drop n) s

/-- A step at a state and the number of octets received so far. -/
noncomputable def step (short : Nat → Prop) (s : Impl) (received : Nat) : Verdict Impl Exn :=
  if s.prefaceReceived_ = false then prefaceStep s
  else
    match s.currentFrameHeader_ with
    | none => headerStep s
    | some header => bodyStep short header s received

/-! ## More input changes no step -/

theorem dataAt_append {buf : Bytes} (more : Bytes) {i : Nat} (h : i < buf.length) :
    dataAt (buf ++ more) i = dataAt buf i := by
  unfold dataAt
  rw [List.getD_eq_getElem?_getD, List.getD_eq_getElem?_getD, List.getElem?_append_left h]

theorem readFrameHeader_append {buf : Bytes} (more : Bytes) (h : FrameHeader.SIZE ≤ buf.length) :
    readFrameHeader (buf ++ more) =
      (readFrameHeader buf).map fun p => (p.1, p.2 ++ more) := by
  have hadvance : Shitty.advance FrameHeader.SIZE (buf ++ more) =
      .ok (buf.drop FrameHeader.SIZE ++ more) := by
    rw [Shitty.advance, if_neg (by rw [List.length_append]; omega), List.drop_append_of_le_length h]
  have hadvance' : Shitty.advance FrameHeader.SIZE buf = .ok (buf.drop FrameHeader.SIZE) := by
    rw [Shitty.advance, if_neg (by omega)]
  have hsize : FrameHeader.SIZE = 9 := rfl
  unfold readFrameHeader
  rw [if_neg (by rw [List.length_append]; omega), if_neg (by omega), hadvance, hadvance']
  simp only [dataAt_append more (show 0 < buf.length by omega),
    dataAt_append more (show 1 < buf.length by omega),
    dataAt_append more (show 2 < buf.length by omega),
    dataAt_append more (show 3 < buf.length by omega),
    dataAt_append more (show 4 < buf.length by omega),
    dataAt_append more (show 5 < buf.length by omega),
    dataAt_append more (show 6 < buf.length by omega),
    dataAt_append more (show 7 < buf.length by omega),
    dataAt_append more (show 8 < buf.length by omega), ok_bind]
  rfl

theorem readFrameHeader_ok {buf : Bytes} (h : FrameHeader.SIZE ≤ buf.length) :
    ∃ header, readFrameHeader buf = .ok (header, buf.drop FrameHeader.SIZE) := by
  unfold readFrameHeader Shitty.advance
  rw [if_neg (by omega), if_neg (by omega)]
  exact ⟨_, rfl⟩

theorem frameStep_settled (short : Prop) (header : FrameHeader)
    (payload rest more : Bytes) (s : Impl) :
    Settled Impl.feed more (frameStep short header payload rest s)
      (frameStep short header payload (rest ++ more) (s.feed more)) := by
  have hown : own header payload (s.feed more) = own header payload s := rfl
  unfold frameStep
  rw [hown]
  cases own header payload s with
  | error e s' =>
      show Verdict.fail _ _ = _
      rw [Impl.feed, List.append_assoc]
  | ok _ s' =>
      simp only
      by_cases hanswered : header.Answered
      · rw [if_pos hanswered, if_pos hanswered]
        by_cases hshort : short
        · rw [if_pos hshort, if_pos hshort]
          rfl
        · rw [if_neg hshort, if_neg hshort]
          by_cases hlen : rest.length < 8
          · rw [if_pos hlen]
            trivial
          · rw [if_neg hlen, if_neg (by rw [List.length_append]; omega),
              List.drop_append_of_le_length (by omega)]
            rfl
      · rw [if_neg hanswered, if_neg hanswered]
        rfl

theorem prefaceStep_settled (s : Impl) (more : Bytes) :
    Settled Impl.feed more (prefaceStep s) (prefaceStep (s.feed more)) := by
  have hlength : (s.feed more).buf.length = s.buf.length + more.length := List.length_append
  unfold prefaceStep
  by_cases hlen : s.buf.length < CLIENT_PREFACE.length
  · rw [if_pos hlen]
    trivial
  · have htake : (s.feed more).buf.take CLIENT_PREFACE.length =
        s.buf.take CLIENT_PREFACE.length := List.take_append_of_le_length (by omega)
    have hdrop : (s.feed more).buf.drop CLIENT_PREFACE.length =
        s.buf.drop CLIENT_PREFACE.length ++ more := List.drop_append_of_le_length (by omega)
    rw [if_neg hlen, if_neg (show ¬ (s.feed more).buf.length < CLIENT_PREFACE.length by omega),
      htake, hdrop]
    by_cases heq : s.buf.take CLIENT_PREFACE.length ≠ CLIENT_PREFACE
    · rw [if_pos heq, if_pos heq]
      rfl
    · rw [if_neg heq, if_neg heq]
      rfl

theorem headerStep_settled (s : Impl) (more : Bytes) :
    Settled Impl.feed more (headerStep s) (headerStep (s.feed more)) := by
  have hlength : (s.feed more).buf.length = s.buf.length + more.length := List.length_append
  unfold headerStep
  by_cases hlen : s.buf.length < FrameHeader.SIZE
  · rw [if_pos hlen]
    trivial
  · obtain ⟨header, hread⟩ := readFrameHeader_ok (Nat.le_of_not_lt hlen)
    rw [if_neg hlen, if_neg (show ¬ (s.feed more).buf.length < FrameHeader.SIZE by omega),
      Impl.feed, readFrameHeader_append more (Nat.le_of_not_lt hlen), hread]
    rfl

theorem bodyStep_settled (short : Nat → Prop) (header : FrameHeader) (s : Impl)
    (received : Nat) (more : Bytes) :
    Settled Impl.feed more (bodyStep short header s received)
      (bodyStep short header (s.feed more) (received + more.length)) := by
  have hlength : (s.feed more).buf.length = s.buf.length + more.length := List.length_append
  unfold bodyStep
  by_cases hlen : s.buf.length < header.length.toNat
  · rw [if_pos hlen]
    trivial
  · have htake : (s.feed more).buf.take header.length.toNat =
        s.buf.take header.length.toNat := List.take_append_of_le_length (by omega)
    have hdrop : (s.feed more).buf.drop header.length.toNat =
        s.buf.drop header.length.toNat ++ more := List.drop_append_of_le_length (by omega)
    rw [if_neg hlen, if_neg (show ¬ (s.feed more).buf.length < header.length.toNat by omega),
      htake, hdrop, show received + more.length - ((s.feed more).buf.length - header.length.toNat) =
        received - (s.buf.length - header.length.toNat) by omega]
    exact frameStep_settled _ _ _ _ _ _

theorem step_settled (short : Nat → Prop) (s : Impl) (received : Nat) (more : Bytes) :
    Settled Impl.feed more (step short s received)
      (step short (s.feed more) (received + more.length)) := by
  unfold step
  show Settled Impl.feed more _ (if s.prefaceReceived_ = false then _ else match s.currentFrameHeader_ with
    | none => headerStep (s.feed more)
    | some header => bodyStep short header (s.feed more) (received + more.length))
  by_cases hpreface : s.prefaceReceived_ = false
  · rw [if_pos hpreface, if_pos hpreface]
    exact prefaceStep_settled s more
  · rw [if_neg hpreface, if_neg hpreface]
    cases s.currentFrameHeader_ with
    | none => exact headerStep_settled s more
    | some header => exact bodyStep_settled short header s received more

theorem feed_nil (s : Impl) : s.feed [] = s := by
  rw [Impl.feed, List.append_nil]

theorem feed_feed (s : Impl) (a b : Bytes) : (s.feed a).feed b = s.feed (a ++ b) := by
  rw [Impl.feed, Impl.feed, Impl.feed, List.append_assoc]

/-- The stream read frame by frame. -/
noncomputable def counted (short : Nat → Prop) : Counting Impl Octet Exn where
  feed := Impl.feed
  step := step short
  feed_nil := feed_nil
  feed_feed := feed_feed
  settled := step_settled short

noncomputable abbrev frames (short : Nat → Prop) : Consumer (Impl × Nat) Octet Exn :=
  (counted short).consumer

variable {short : Nat → Prop} {s t : Impl} {received : Nat}

theorem frames_wait (h : step short s received = .wait) :
    (frames short).step (s, received) = .wait := Counting.wait_iff.mpr h

theorem frames_next (h : step short s received = .next t) :
    (frames short).step (s, received) = .next (t, received) := Counting.next_iff.mpr ⟨h, rfl⟩

theorem frames_fail {e : Exn} (h : step short s received = .fail t e) :
    (frames short).step (s, received) = .fail (t, received) e := Counting.fail_iff.mpr ⟨h, rfl⟩

theorem of_frames_wait {x : Impl × Nat} (h : (frames short).step x = .wait) :
    step short x.1 x.2 = .wait := Counting.wait_iff.mp h

theorem of_frames_next {x y : Impl × Nat} (h : (frames short).step x = .next y) :
    step short x.1 x.2 = .next y.1 ∧ y.2 = x.2 :=
  ⟨(Counting.next_iff.mp h).1, (Counting.next_iff.mp h).2.symm⟩

theorem of_frames_fail {x y : Impl × Nat} {e : Exn} (h : (frames short).step x = .fail y e) :
    step short x.1 x.2 = .fail y.1 e ∧ y.2 = x.2 :=
  ⟨(Counting.fail_iff.mp h).1, (Counting.fail_iff.mp h).2.symm⟩

end Shitty.Http2.ServerTransport
