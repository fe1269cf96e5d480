import Shitty.Lib.Triple
import Shitty.Http2.Logic.Steps
import Shitty.Http2.Logic.Frame

/-!
# The responses a connection sends

A response is the HEADERS frame that `ServerStream::sendResponse` writes, and there is
one for each HEADERS frame accepted, on the same stream, and no other. Each handler is
looked at for the responses it sends. Those of all frames but HEADERS are none, as a
response is told by its type and by the stream it names.
-/

namespace Shitty.Http2.ServerTransport

open Lib

/-! ## Responses on the wire -/

/-- The stream on which a frame sent completes a response: one of type HEADERS with
the flag END_STREAM. -/
def respondsTo (payload : Bytes) : Option Nat :=
  if dataAt payload 3 = FrameType.HEADERS ∧ (dataAt payload 4).getLsbD 0 = true then
    some (wireNumber ((payload.drop 5).take 4) % 2 ^ 31)
  else none

/-- The streams that have been answered by what has been sent, in order. -/
def responses (sent : List Bytes) : List Nat := sent.filterMap respondsTo

theorem responses_append (sent sent' : List Bytes) :
    responses (sent ++ sent') = responses sent ++ responses sent' := List.filterMap_append

theorem respondsTo_writeTo (header : FrameHeader) (rest : Bytes) :
    respondsTo (header.writeTo ++ rest) =
      if header.type = FrameType.HEADERS ∧ header.flags.getLsbD 0 = true then
        some header.streamId.toNat
      else none := by
  have htype : dataAt (header.writeTo ++ rest) 3 = header.type := BitVec.setWidth_eq _
  have hflags : dataAt (header.writeTo ++ rest) 4 = header.flags := BitVec.setWidth_eq _
  have hid : wireNumber (((header.writeTo ++ rest).drop 5).take 4) % 2 ^ 31 =
      header.streamId.toNat := by
    show wireNumber [FrameHeader.byte _, FrameHeader.byte _, FrameHeader.byte _,
      FrameHeader.byte _] % 2 ^ 31 = _
    rw [wireNumber_bytes, ← BitVec.toNat_setWidth]
    congr 1
    apply BitVec.eq_of_getLsbD_eq
    intro i hi
    simp only [BitVec.getLsbD_setWidth, BitVec.getLsbD_or, BitVec.getLsbD_shiftLeft]
    simp [hi, show i < 32 by omega]
  rw [respondsTo, htype, hflags, hid]

/-- What `sendResponse` writes is a response on the stream it is called for. -/
theorem respondsTo_sendResponse (stream : ServerStream) :
    respondsTo (stream.sendResponse.frameHeader_.writeTo ++
      stream.sendResponse.headerBlockFragment_ ++ stream.sendResponse.padding_) =
        some stream.id_.toNat := by
  rw [List.append_assoc, respondsTo_writeTo, if_pos]
  · rfl
  · refine ⟨rfl, ?_⟩
    show (setFlag (setFlag 0 2 true) 0 true).getLsbD 0 = true
    decide

/-! ## Actions that answer nothing -/

/-- Every stream has the id under which it is kept. -/
def Named (s : Impl) : Prop := ∀ p ∈ s.streams_, p.2.id_ = p.1

/-- The streams answered so far, on a connection whose streams are all idle. -/
structure Serving (ids : List Nat) (s : Impl) : Prop where
  idle : s.Idle
  named : Named s
  answered : responses s.sent = ids

/-- The stream answered with the frame, if it is accepted. -/
def answeredBy (header : FrameHeader) : List Nat :=
  if header.type = FrameType.HEADERS then [header.streamId.toNat] else []

variable {α : Type} {ids : List Nat}

/-- The action answers nothing, however it ends. -/
abbrev Silent (ids : List Nat) (f : Act α) (P : α → Prop) : Prop :=
  Triple (Serving ids) f (fun a s => P a ∧ Serving ids s) fun _ => Serving ids

theorem Silent.bind {β : Type} {f : Act α} {g : α → Act β} {P : α → Prop} {Q : β → Impl → Prop}
    (hf : Silent ids f P)
    (hg : ∀ a, P a → Triple (Serving ids) (g a) Q fun _ => Serving ids) :
    Triple (Serving ids) (f >>= g) Q fun _ => Serving ids :=
  Triple.bind hf fun a => Triple.assume (hg a)

theorem silent_change {f : Impl → Impl} (hidle : ∀ s : Impl, s.Idle → (f s).Idle)
    (hnamed : ∀ s, Named s → Named (f s)) (hsent : ∀ s, (f s).sent = s.sent) :
    Silent ids (modify f : Act PUnit) fun _ => True :=
  Triple.modify fun s hs => ⟨trivial, hidle s hs.idle, hnamed s hs.named,
    (congrArg responses (hsent s)).trans hs.answered⟩

theorem silent_ofExcept (x : Except Exn α) : Silent ids (ofExcept x) fun _ => True := by
  intro s hs
  cases x with
  | ok a => exact ⟨trivial, hs⟩
  | error e => exact hs

theorem silent_frontOr (e : Exn) (n : Nat) : Silent ids (frontOr e n) fun _ => True := by
  intro s hs
  unfold frontOr
  split
  · exact hs
  · exact ⟨trivial, hs⟩

theorem silent_advance (n : Nat) : Silent ids (advance n) fun _ => True := by
  intro s hs
  unfold advance
  cases Shitty.advance n s.buf with
  | error e => exact hs
  | ok buf => exact ⟨trivial, hs.idle, hs.named, hs.answered⟩

/-- A frame of another kind is sent. -/
theorem silent_send {payload : Bytes} (h : respondsTo payload = none) :
    Silent ids (send payload) fun _ => True := by
  refine Triple.modify fun s hs => ⟨trivial, hs.idle, hs.named, ?_⟩
  rw [responses_append, hs.answered, responses, List.filterMap_cons_none h]
  exact List.append_nil ids

/-- An idle stream under its own name. -/
def Ours (id : BitVec 31) (stream : ServerStream) : Prop :=
  stream.id_ = id ∧ stream.state_ = .Idle

theorem silent_find (id : BitVec 31) :
    Silent ids (find id) fun found => ∀ stream, found = some stream → Ours id stream := by
  intro s hs
  refine ⟨fun stream hfound => ?_, hs⟩
  have hmem := lookup_mem hfound
  exact ⟨hs.named _ hmem, hs.idle _ hmem⟩

theorem silent_store {id : BitVec 31} {stream : ServerStream} (h : Ours id stream) :
    Silent ids (store id stream) fun _ => True := by
  refine silent_change (fun s hs p hp => ?_) (fun s hs p hp => ?_) fun _ => rfl
  all_goals
    obtain ⟨q, hq, rfl⟩ := List.mem_map.mp hp
    split
  · exact h.2
  · exact hs q hq
  · exact h.1
  · exact hs q hq

theorem silent_emplace {id : BitVec 31} {stream : ServerStream} (h : Ours id stream) :
    Silent ids (emplace id stream) fun _ => True := by
  refine silent_change (fun s hs p hp => ?_) (fun s hs p hp => ?_) fun _ => rfl
  all_goals rcases List.mem_append.mp hp with hp | hp
  · exact hs p hp
  · exact List.mem_singleton.mp hp ▸ h.2
  · exact hs p hp
  · exact List.mem_singleton.mp hp ▸ h.1

theorem silent_erase (id : BitVec 31) : Silent ids (erase id) fun _ => True :=
  silent_change (fun _ hs p hp => hs p (List.mem_of_mem_filter hp))
    (fun _ hs p hp => hs p (List.mem_of_mem_filter hp)) fun _ => rfl

theorem silent_parseHeaders (block : Bytes) :
    Silent ids (ServerTransport.parseHeaders block) fun _ => True := by
  intro s hs
  unfold ServerTransport.parseHeaders
  rcases Hpack.parseHeaders s.headerDecoder_ block with ⟨headers, table_⟩
  cases headers with
  | ok headers => exact ⟨trivial, hs.idle, hs.named, hs.answered⟩
  | error e => exact ⟨hs.idle, hs.named, hs.answered⟩

theorem silent_findOrEmplace (id : BitVec 31) : Silent ids (findOrEmplace id) (Ours id) := by
  refine (silent_find id).bind fun found hfound => ?_
  cases found with
  | some stream => exact Triple.pure fun s hs => ⟨hfound stream rfl, hs⟩
  | none =>
      have hours : Ours id { id_ := id } := ⟨rfl, rfl⟩
      refine (silent_emplace hours).bind fun _ _ => ?_
      exact Triple.pure fun s hs => ⟨⟨rfl, rfl⟩, hs⟩

theorem silent_getStream (id : BitVec 31) : Silent ids (getStream id) (Ours id) := by
  refine (silent_find id).bind fun found hfound => ?_
  cases found with
  | some stream => exact Triple.pure fun s hs => ⟨hfound stream rfl, hs⟩
  | none => exact Triple.throw fun _ hs => hs

/-! ## The handlers -/

/-- A request is answered on its stream. -/
theorem dispatch_serving (stream : ServerStream) :
    Triple (Serving ids) (dispatch stream) (fun _ => Serving (ids ++ [stream.id_.toNat]))
      fun _ => Serving ids := by
  intro s hs
  refine ⟨hs.idle, hs.named, ?_⟩
  show responses (s.sent ++ [stream.sendResponse.frameHeader_.writeTo ++
    stream.sendResponse.headerBlockFragment_ ++ stream.sendResponse.padding_]) = _
  rw [responses_append, hs.answered, responses,
    List.filterMap_cons_some (respondsTo_sendResponse stream)]
  rfl

/-- A HEADERS frame is answered on its stream, whatever stream that is. -/
theorem receiveHeaders_serving (header : FrameHeader) :
    Triple (Serving ids) (receiveHeaders header)
      (fun _ => Serving (ids ++ [header.streamId.toNat])) fun _ => Serving ids := by
  refine (silent_frontOr _ _).bind fun block _ => (silent_parseHeaders block).bind fun headers _ =>
    (silent_findOrEmplace _).bind fun stream hstream => ?_
  -- the headers are added to the request of the same stream
  obtain ⟨hid, hidle⟩ := hstream
  refine Silent.bind (silent_store ⟨hid, hidle⟩) fun _ _ => ?_
  rw [← hid]
  refine (dispatch_serving _).bind fun _ => ?_
  exact Triple.modify fun s hs => ⟨fun p hp => hs.idle p (List.mem_of_mem_filter hp),
    fun p hp => hs.named p (List.mem_of_mem_filter hp), hs.answered⟩

/-- Data is taken by no stream that is idle. -/
theorem receiveData_serving (header : FrameHeader) :
    Silent ids (receiveData header) fun _ => True := by
  unfold receiveData
  split
  · exact Triple.throw fun _ hs => hs
  · refine (silent_getStream _).bind fun stream hstream => ?_
    rw [if_pos (by rw [hstream.2]; exact ⟨nofun, nofun⟩)]
    exact Triple.throw fun _ hs => hs

theorem receivePing_serving (header : FrameHeader) :
    Silent ids (receivePing header) fun _ => True := by
  unfold receivePing
  split
  · exact Triple.pure fun _ hs => ⟨trivial, hs⟩
  split
  · exact Triple.throw fun _ hs => hs
  split
  · exact Triple.throw fun _ hs => hs
  · refine Triple.get_bind fun s hs => ?_
    refine Triple.weaken (P := Serving ids) ?_ (fun t ht => ht ▸ hs) fun _ _ h => h
    split
    · exact Triple.pure fun _ hs => ⟨trivial, hs⟩
    · refine (silent_frontOr _ _).bind fun data _ => (silent_send ?_).bind fun _ _ =>
        silent_advance 8
      rw [respondsTo_writeTo, if_neg fun h => by cases h.1]

theorem receiveResetStream_serving (header : FrameHeader) :
    Silent ids (receiveResetStream header) fun _ => True := by
  unfold receiveResetStream
  split
  · exact Triple.throw fun _ hs => hs
  split
  · exact Triple.throw fun _ hs => hs
  · exact (silent_frontOr _ _).bind fun _ _ => silent_erase _

theorem receiveSettings_serving (header : FrameHeader) :
    Silent ids (receiveSettings header) fun _ => True := by
  unfold receiveSettings
  split
  · exact Triple.pure fun _ hs => ⟨trivial, hs⟩
  · refine (silent_frontOr _ _).bind fun buf _ => (silent_ofExcept _).bind fun settings _ => ?_
    refine Silent.bind (silent_change (fun _ hs => hs) (fun _ hs => hs) fun _ => rfl) fun _ _ => ?_
    refine silent_send ?_
    rw [← List.append_nil (FrameHeader.writeTo _), respondsTo_writeTo, if_neg fun h => by cases h.1]

theorem receiveWindowUpdate_serving (header : FrameHeader) :
    Silent ids (receiveWindowUpdate header) fun _ => True := by
  unfold receiveWindowUpdate
  split
  · exact Triple.throw fun _ hs => hs
  · refine (silent_frontOr _ _).bind fun data _ => ?_
    dsimp only
    split
    · refine Triple.get_bind fun s hs => ?_
      refine Triple.weaken (P := Serving ids) ?_ (fun t ht => ht ▸ hs) fun _ _ h => h
      refine (silent_ofExcept _).bind fun w _ => ?_
      exact silent_change (fun _ hs => hs) (fun _ hs => hs) fun _ => rfl
    · refine (silent_find _).bind fun found hfound => ?_
      cases found with
      | none => exact Triple.pure fun _ hs => ⟨trivial, hs⟩
      | some stream =>
          -- the window of a stream has no part in what it is called
          have hours : ∀ changed, stream.addWindowSize (readWindowSize data) = .ok changed →
              Ours header.streamId changed := by
            intro changed hchanged
            unfold ServerStream.addWindowSize at hchanged
            split at hchanged
            · cases hchanged
              exact hfound stream rfl
            · cases hchanged
          cases hadd : stream.addWindowSize (readWindowSize data) with
          | error e =>
              intro s hs
              show Meets _ _ ((ofExcept (stream.addWindowSize (readWindowSize data)) >>= fun stream =>
                store header.streamId stream : Act Unit) s)
              rw [hadd]
              exact hs
          | ok changed =>
              intro s hs
              show Meets _ _ ((ofExcept (stream.addWindowSize (readWindowSize data)) >>= fun stream =>
                store header.streamId stream : Act Unit) s)
              rw [hadd]
              exact silent_store (hours changed hadd) s hs

/-- The handlers: a HEADERS frame that is accepted is answered, and nothing else is. -/
theorem handler_serving (header : FrameHeader) :
    Triple (Serving ids) (handler header) (fun _ => Serving (ids ++ answeredBy header))
      fun _ => Serving ids := by
  have hsilent : ∀ {f : Act Unit}, Silent ids f (fun _ => True) →
      header.type ≠ FrameType.HEADERS → Triple (Serving ids) f
        (fun _ => Serving (ids ++ answeredBy header)) fun _ => Serving ids := by
    intro f hf htype
    rw [answeredBy, if_neg htype, List.append_nil]
    exact hf.weaken (fun _ h => h) fun _ _ h => h.2
  unfold handler
  split
  · rename_i htype
    exact hsilent (receiveData_serving header) (by rw [htype]; decide)
  split
  · rename_i htype
    rw [answeredBy, if_pos htype]
    exact receiveHeaders_serving header
  · rename_i htype
    split
    · exact hsilent (receivePing_serving header) htype
    split
    · exact hsilent (receiveResetStream_serving header) htype
    split
    · exact hsilent (receiveSettings_serving header) htype
    split
    · exact hsilent (receiveWindowUpdate_serving header) htype
    · exact hsilent (Triple.pure fun _ hs => ⟨trivial, hs⟩) htype

/-- A frame whose handler has returned is taken off the buffer, unless it was a PING. -/
theorem processFrameBody_serving {s : Impl} (hs : Serving ids s) :
    Meets (fun _ t => t = s ∨ ∃ header, s.currentFrameHeader_ = some header ∧
      Serving (ids ++ answeredBy header) t) (fun _ => Serving ids) (processFrameBody s) := by
  cases hcurrent : s.currentFrameHeader_ with
  | none =>
      rw [processFrameBody_none hcurrent]
      exact hs
  | some header =>
      by_cases hlen : s.buf.length < header.length.toNat
      · rw [processFrameBody_short hcurrent hlen]
        exact .inl rfl
      · rw [processFrameBody_eq hcurrent (Nat.le_of_not_lt hlen)]
        have hrecorded : Serving ids (recorded header s) := ⟨hs.idle, hs.named, hs.answered⟩
        have hhandler := handler_serving header _ hrecorded
        rw [Steady.bind_apply]
        cases hhandled : handler header (recorded header s) with
        | error e t =>
            rw [hhandled] at hhandler
            exact hhandler
        | ok u t =>
            rw [hhandled] at hhandler
            show Meets _ _ ((advance header.length.toNat >>= fun _ => modify _ : Act Unit) t)
            by_cases hadvance : header.length.toNat ≤ t.buf.length
            · rw [Steady.bind_apply, advance_eq hadvance]
              exact .inr ⟨header, rfl, hhandler.idle, hhandler.named, hhandler.answered⟩
            · rw [Steady.bind_apply, advance_tooShort (Nat.lt_of_not_le hadvance)]
              -- a PING has taken its payload off itself
              have hping : header.type ≠ FrameType.HEADERS := by
                intro htype
                have hanswered : ¬ header.Answered := by
                  rintro ⟨⟨hping, -⟩, -⟩
                  rw [htype] at hping
                  cases hping
                have hkept := (handler_steady hanswered).keeps (recorded header s) hs.idle
                  (Nat.le_of_not_lt hlen)
                rw [hhandled] at hkept
                exact hadvance ((Nat.le_of_not_lt hlen).trans_eq
                  (congrArg List.length hkept.buf).symm)
              rw [answeredBy, if_neg hping, List.append_nil] at hhandler
              exact hhandler

end Shitty.Http2.ServerTransport
