import Shitty.Http2.Theorems.Boundaries
import Shitty.Http2.Theorems.Headers
import Shitty.Http2.Logic.Exceptions
import Shitty.Http2.Logic.Responses
import Shitty.Hpack.Reference

/-!
# What a connection makes of its frames

The requests dispatched and the frames sent, for a list of frames taken one by one: the
streams, the windows and the settings have no part in either. Each handler adds to both
what its frame says, or throws with nothing added. That is kept through all the
functions around it, whatever is received, and at the end for any run.
-/

namespace Shitty.Http2.ServerTransport

open Lib

/-! ## Frame by frame -/

/-- The octets of a frame on the wire: its header and its payload. -/
def octetsOf (f : FrameHeader × Bytes) : Bytes := f.1.writeTo ++ f.2

theorem encode_eq (frames : List (FrameHeader × Bytes)) :
    encode frames = (frames.map octetsOf).flatten := List.flatMap_def

/-- The server's preface, which is a SETTINGS frame without any parameter. -/
def greeting : FrameHeader × Bytes := ({ type := FrameType.SETTINGS }, [])

/-- The response to any request, `:status: 200` and nothing else. -/
def response (id : BitVec 31) : FrameHeader × Bytes :=
  ({ type := FrameType.HEADERS, flags := 5, length := 1, streamId := id },
    Hpack.Rfc.blockOctets [.indexed 8])

/-- What is sent for a frame. -/
def replies (f : FrameHeader × Bytes) : List (FrameHeader × Bytes) :=
  if f.1.type = FrameType.HEADERS then [response f.1.streamId]
  else if f.1.Answered then [({ type := FrameType.PING, flags := 1, length := 8 }, f.2)]
  else if f.1.type = FrameType.SETTINGS ∧ isSettingsACK f.1 = false then
    [({ type := FrameType.SETTINGS, flags := 1 }, [])]
  else []

/-- The decoder's table, and the requests: a HEADERS frame is one, with the fields that all
of its payload is decoded to. -/
def serve (so_far : Hpack.DynamicTable × List (BitVec 31 × Message)) (f : FrameHeader × Bytes) :
    Hpack.DynamicTable × List (BitVec 31 × Message) :=
  if f.1.type = FrameType.HEADERS then
    match Hpack.parseHeaders so_far.1 f.2 with
    | (.ok headers, table_) => (table_, so_far.2 ++ [(f.1.streamId, withHeaders {} headers)])
    | (.error _, table_) => (table_, so_far.2)
  else so_far

def served (frames : List (FrameHeader × Bytes)) :
    Hpack.DynamicTable × List (BitVec 31 × Message) := frames.foldl serve ({}, [])

theorem serve_other {f : FrameHeader × Bytes} (h : f.1.type ≠ FrameType.HEADERS)
    (so_far : Hpack.DynamicTable × List (BitVec 31 × Message)) : serve so_far f = so_far :=
  if_neg h

/-- No reply to a frame that is none of the three. -/
theorem replies_nil {f : FrameHeader × Bytes} (hheaders : f.1.type ≠ FrameType.HEADERS)
    (hping : ¬ f.1.Answered)
    (hsettings : ¬ (f.1.type = FrameType.SETTINGS ∧ isSettingsACK f.1 = false)) :
    replies f = [] := by
  rw [replies, if_neg hheaders, if_neg hping, if_neg hsettings]

/-! ## What a handler adds -/

/-- No stream has been used: they are forgotten when they are answered. -/
def Fresh (streams : List (BitVec 31 × ServerStream)) : Prop :=
  ∀ p ∈ streams, p.2.id_ = p.1 ∧ p.2.state_ = .Idle ∧ p.2.request_ = {}

/-- What a handled frame adds to a state: the frame itself, its replies and the request in it. -/
structure Adds (f : FrameHeader × Bytes) (s t : Impl) : Prop where
  sent : t.sent = s.sent ++ (replies f).map octetsOf
  served : (t.headerDecoder_, t.requests) = serve (s.headerDecoder_, s.requests) f
  fresh : Fresh t.streams_
  streams : f.1.type = FrameType.WINDOW_UPDATE ∨ t.streams_ ⊆ s.streams_
  handled : t.handled = s.handled

/-- Nothing has been sent or dispatched. -/
structure Refuses (s t : Impl) : Prop where
  sent : t.sent = s.sent
  requests : t.requests = s.requests
  handled : t.handled = s.handled

/-- How the handler of a frame ends: the frame is added, or an exception is thrown and nothing
has been sent or dispatched. -/
abbrev Answers (f : FrameHeader × Bytes) (s : Impl) (r : EStateM.Result Exn Impl Unit) : Prop :=
  Meets (fun _ => Adds f s) (fun _ => Refuses s) r

section

variable {s : Impl} {header : FrameHeader} {payload : Bytes}

/-- A frame of which nothing is to be seen. -/
theorem Adds.calm {t : Impl} (hreplies : replies (header, payload) = [])
    (htype : header.type ≠ FrameType.HEADERS) (hsent : t.sent = s.sent)
    (htable : t.headerDecoder_ = s.headerDecoder_) (hrequests : t.requests = s.requests)
    (hfresh : Fresh t.streams_)
    (hstreams : header.type = FrameType.WINDOW_UPDATE ∨ t.streams_ ⊆ s.streams_)
    (hhandled : t.handled = s.handled) : Adds (header, payload) s t where
  sent := by rw [hsent, hreplies, List.map_nil, List.append_nil]
  served := by rw [serve_other htype, htable, hrequests]
  fresh := hfresh
  streams := hstreams
  handled := hhandled

theorem Fresh.filter {streams : List (BitVec 31 × ServerStream)} (h : Fresh streams)
    (p : BitVec 31 × ServerStream → Bool) : Fresh (streams.filter p) :=
  fun q hq => h q (List.mem_of_mem_filter hq)

theorem fresh_stream (id : BitVec 31) : Fresh [(id, { id_ := id })] := by
  intro p hp
  rw [List.mem_singleton.mp hp]
  exact ⟨rfl, rfl, rfl⟩

theorem Fresh.append {streams more : List (BitVec 31 × ServerStream)} (h : Fresh streams)
    (hmore : Fresh more) : Fresh (streams ++ more) :=
  fun p hp => (List.mem_append.mp hp).elim (h p) (hmore p)

/-- The other streams stay as they are. -/
theorem mem_erased {streams : List (BitVec 31 × ServerStream)} {id : BitVec 31}
    {stream : ServerStream} {p : BitVec 31 × ServerStream}
    (h : p ∈ (streams.map fun p => if p.1 = id then (id, stream) else p).filter
      fun p => p.1 ≠ id) : p ∈ streams ∧ p.1 ≠ id := by
  obtain ⟨hmem, hid⟩ := List.mem_filter.mp h
  obtain ⟨q, hq, rfl⟩ := List.mem_map.mp hmem
  by_cases hsame : q.1 = id
  · simp [hsame] at hid
  · rw [if_neg hsame]
    exact ⟨hq, hsame⟩

theorem findOrEmplace_fresh (h : Fresh s.streams_) (id : BitVec 31) :
    ∃ stream streams_, findOrEmplace id s = .ok stream { s with streams_ := streams_ } ∧
      stream.id_ = id ∧ stream.request_ = {} ∧ Fresh streams_ ∧
      ∀ p ∈ streams_, p ∈ s.streams_ ∨ p.1 = id := by
  have hfind : find id s = .ok (s.streams_.lookup id) s := rfl
  unfold findOrEmplace
  rw [act_bind_of_ok hfind]
  cases hlookup : s.streams_.lookup id with
  | some stream =>
      obtain ⟨hid, -, hrequest⟩ := h _ (lookup_mem hlookup)
      exact ⟨stream, s.streams_, rfl, hid, hrequest, h, fun p hp => .inl hp⟩
  | none =>
      refine ⟨{ id_ := id }, _, rfl, rfl, rfl, h.append (fresh_stream id), fun p hp => ?_⟩
      refine (List.mem_append.mp hp).imp_right fun hp => ?_
      rw [List.mem_singleton.mp hp]

/-- The octets that `sendResponse` writes are those of one frame, the response on the stream. -/
theorem octetsOf_response (stream : ServerStream) :
    octetsOf (response stream.id_) = stream.sendResponse.frameHeader_.writeTo ++
      stream.sendResponse.headerBlockFragment_ ++ stream.sendResponse.padding_ := by
  have hflags : setFlag (setFlag 0 2 true) 0 true = 5 := rfl
  have hheader : (response stream.id_).1 =
      { (response stream.id_).1 with flags := setFlag (setFlag 0 2 true) 0 true } := by
    rw [hflags]
    rfl
  rw [List.append_assoc, octetsOf, hheader]
  rfl

theorem receiveHeaders_answers (hfresh : Fresh s.streams_)
    (hlen : header.length.toNat ≤ s.buf.length) (htype : header.type = FrameType.HEADERS) :
    Answers (header, s.buf.take header.length.toNat) s (receiveHeaders header s) := by
  have hfront : frontOr (.assertion "buf.size() >= frameHeader.length") header.length.toNat s =
      .ok (s.buf.take header.length.toNat) s := by
    rw [frontOr, if_neg (by omega)]
  show Meets _ _ ((frontOr _ _ >>= fun block => serveBlock header.streamId block : Act Unit) s)
  rw [act_bind_of_ok hfront]
  unfold serveBlock
  rcases hparse : Hpack.parseHeaders s.headerDecoder_ (s.buf.take header.length.toNat) with
    ⟨outcome, table_⟩
  cases outcome with
  | error e =>
      rw [act_bind_of_error (show parseHeaders _ s = .error e { s with headerDecoder_ := table_ } by
        rw [parseHeaders, hparse])]
      exact ⟨rfl, rfl, rfl⟩
  | ok headers =>
      rw [act_bind_of_ok (show parseHeaders _ s = .ok headers { s with headerDecoder_ := table_ } by
        rw [parseHeaders, hparse])]
      obtain ⟨stream, streams_, hfound, hid, hrequest, hfresh', hold⟩ :=
        @findOrEmplace_fresh { s with headerDecoder_ := table_ } hfresh header.streamId
      rw [act_bind_of_ok hfound]
      refine ⟨?_, ?_, ?_, .inr ?_, rfl⟩
      · show s.sent ++ [_] = s.sent ++ _
        rw [replies, if_pos htype, List.map_singleton, ← hid, octetsOf_response]
        rfl
      · show (table_, s.requests ++ [(stream.id_, withHeaders stream.request_ headers)]) = _
        rw [serve, if_pos htype, hparse, hid, hrequest]
      · show Fresh (List.filter (fun p => decide (p.1 ≠ stream.id_)) _)
        rw [hid]
        exact fun p hp => hfresh' p (mem_erased hp).1
      · show List.filter (fun p => decide (p.1 ≠ stream.id_)) _ ⊆ s.streams_
        rw [hid]
        exact fun p hp => (hold p (mem_erased hp).1).resolve_right (mem_erased hp).2

/-- No stream is open for data. -/
theorem receiveData_answers (hfresh : Fresh s.streams_) (f : FrameHeader × Bytes) :
    Answers f s (receiveData header s) := by
  unfold receiveData
  by_cases hid : header.streamId = 0
  · rw [if_pos hid]
    exact ⟨rfl, rfl, rfl⟩
  · rw [if_neg hid]
    cases hlookup : s.streams_.lookup header.streamId with
    | none =>
        rw [act_bind_of_error (getStream_none hlookup)]
        exact ⟨rfl, rfl, rfl⟩
    | some stream =>
        obtain ⟨-, hidle, -⟩ := hfresh _ (lookup_mem hlookup)
        have hclosed : stream.state_ ≠ .Open ∧ stream.state_ ≠ .HalfClosedLocal := by
          rw [show stream.state_ = .Idle from hidle]
          decide
        rw [act_bind_of_ok (getStream_some hlookup), if_pos hclosed]
        exact ⟨rfl, rfl, rfl⟩

theorem receivePing_answers (hfresh : Fresh s.streams_)
    (hlen : header.length.toNat ≤ s.buf.length) (htype : header.type = FrameType.PING) :
    Answers (header, s.buf.take header.length.toNat) s (handler header s) := by
  have hheaders : header.type ≠ FrameType.HEADERS := by
    rw [htype]
    decide
  have hsettings : ¬ (header.type = FrameType.SETTINGS ∧ isSettingsACK header = false) := by
    rw [htype]
    rintro ⟨h, -⟩
    cases h
  by_cases hack : isPingACK header = true
  · have hnot : ¬ header.Answered := by
      rintro ⟨⟨-, hno⟩, -⟩
      rw [hack] at hno
      cases hno
    have hhandler : handler header s = .ok () s := by
      unfold handler
      rw [htype]
      show receivePing header s = _
      rw [receivePing, hack]
      rfl
    rw [hhandler]
    exact .calm (replies_nil hheaders hnot hsettings) hheaders rfl rfl rfl hfresh
      (.inr (List.Subset.refl _)) rfl
  · have hasks : header.AsksPing := ⟨htype, by simpa using hack⟩
    by_cases hanswered : header.Answered
    · have h8 : header.length.toNat = 8 := by
        rw [hanswered.2.2]
        rfl
      rw [h8] at hlen ⊢
      rw [handler_answered hanswered hlen]
      refine ⟨?_, ?_, hfresh, .inr (List.Subset.refl _), rfl⟩
      · rw [replies, if_neg hheaders, if_pos hanswered]
        rfl
      · exact (serve_other hheaders _).symm
    · obtain ⟨e, herror⟩ := handler_refused hasks hanswered s
      rw [herror]
      exact ⟨rfl, rfl, rfl⟩

theorem receiveResetStream_answers (hfresh : Fresh s.streams_)
    (htype : header.type = FrameType.RST_STREAM) :
    Answers (header, payload) s (receiveResetStream header s) := by
  have hreplies : replies (header, payload) = [] := by
    refine replies_nil ?_ ?_ ?_
    · rw [htype]
      decide
    · rintro ⟨⟨h, -⟩, -⟩
      rw [htype] at h
      cases h
    · rintro ⟨h, -⟩
      rw [htype] at h
      cases h
  unfold receiveResetStream
  split
  · exact ⟨rfl, rfl, rfl⟩
  split
  · exact ⟨rfl, rfl, rfl⟩
  · by_cases h4 : 4 ≤ s.buf.length
    · rw [act_bind_of_ok (front_eq h4)]
      exact .calm hreplies (by rw [htype]; decide) rfl rfl rfl (hfresh.filter _)
        (.inr (List.filter_subset_self _)) rfl
    · have hfront : front 4 s = .error .overread s := by
        rw [front, frontOr, if_pos (Nat.lt_of_not_le h4)]
      rw [act_bind_of_error hfront]
      exact ⟨rfl, rfl, rfl⟩

theorem receiveSettings_answers (hfresh : Fresh s.streams_)
    (hlen : header.length.toNat ≤ s.buf.length) (htype : header.type = FrameType.SETTINGS) :
    Answers (header, payload) s (receiveSettings header s) := by
  have hheaders : header.type ≠ FrameType.HEADERS := by
    rw [htype]
    decide
  have hping : ¬ header.Answered := by
    rintro ⟨⟨h, -⟩, -⟩
    rw [htype] at h
    cases h
  unfold receiveSettings
  by_cases hack : isSettingsACK header = true
  · rw [if_pos hack]
    refine .calm (replies_nil hheaders hping ?_) hheaders rfl rfl rfl hfresh
      (.inr (List.Subset.refl _)) rfl
    rintro ⟨-, hno⟩
    rw [hack] at hno
    cases hno
  · rw [if_neg hack, act_bind_of_ok (front_eq hlen)]
    cases hread : Settings.createFromBuffer (s.buf.take header.length.toNat) with
    | error e => exact ⟨rfl, rfl, rfl⟩
    | ok settings =>
        refine ⟨?_, (serve_other hheaders _).symm, hfresh, .inr (List.Subset.refl _), rfl⟩
        rw [replies, if_neg hheaders, if_neg hping, if_pos ⟨htype, by simpa using hack⟩]
        rfl

theorem addStreamWindowSize_answers (hfresh : Fresh s.streams_) (id : BitVec 31) (windowSize : Int)
    (hreplies : replies (header, payload) = []) (hupdate : header.type = FrameType.WINDOW_UPDATE) :
    Answers (header, payload) s (addStreamWindowSize id windowSize s) := by
  have htype : header.type ≠ FrameType.HEADERS := by
    rw [hupdate]
    decide
  unfold addStreamWindowSize
  rw [act_bind_of_ok (show find id s = .ok (s.streams_.lookup id) s from rfl)]
  cases hlookup : s.streams_.lookup id with
  | none => exact .calm hreplies htype rfl rfl rfl hfresh (.inr (List.Subset.refl _)) rfl
  | some stream =>
      have hstream := hfresh _ (lookup_mem hlookup)
      show Answers _ s ((ofExcept (stream.addWindowSize windowSize) >>= fun stream =>
        store id stream : Act Unit) s)
      unfold ServerStream.addWindowSize
      cases hadd : Http2.addWindowSize stream.windowSize_.toInt windowSize with
      | error e => exact ⟨rfl, rfl, rfl⟩
      | ok w =>
          -- the window of a stream is not what it has received
          refine .calm hreplies htype rfl rfl rfl (fun p hp => ?_) (.inl hupdate) rfl
          obtain ⟨q, hq, rfl⟩ := List.mem_map.mp hp
          split
          · exact hstream
          · exact hfresh q hq

theorem receiveWindowUpdate_answers (hfresh : Fresh s.streams_)
    (hlen : header.length.toNat ≤ s.buf.length) (htype : header.type = FrameType.WINDOW_UPDATE) :
    Answers (header, payload) s (receiveWindowUpdate header s) := by
  have hheaders : header.type ≠ FrameType.HEADERS := by
    rw [htype]
    decide
  have hreplies : replies (header, payload) = [] := by
    refine replies_nil hheaders ?_ ?_
    · rintro ⟨⟨h, -⟩, -⟩
      rw [htype] at h
      cases h
    · rintro ⟨h, -⟩
      rw [htype] at h
      cases h
  by_cases hlength : header.length = 4
  · rw [receiveWindowUpdate_eq hlength hlen]
    by_cases hid : header.streamId = 0
    · rw [if_pos hid]
      cases hadd : Http2.addWindowSize s.windowSize_.toInt
          (readWindowSize (s.buf.take header.length.toNat)) with
      | error e =>
          rw [addConnectionWindowSize_error hadd]
          exact ⟨rfl, rfl, rfl⟩
      | ok w =>
          rw [addConnectionWindowSize_ok hadd]
          exact .calm hreplies hheaders rfl rfl rfl hfresh (.inr (List.Subset.refl _)) rfl
    · rw [if_neg hid]
      exact addStreamWindowSize_answers hfresh _ _ hreplies htype
  · rw [receiveWindowUpdate, if_pos hlength]
    exact ⟨rfl, rfl, rfl⟩

theorem handler_answers (hfresh : Fresh s.streams_) (hlen : header.length.toNat ≤ s.buf.length) :
    Answers (header, s.buf.take header.length.toNat) s (handler header s) := by
  by_cases hping : header.type = FrameType.PING
  · exact receivePing_answers hfresh hlen hping
  unfold handler
  split
  · exact receiveData_answers hfresh _
  split
  · exact receiveHeaders_answers hfresh hlen ‹_›
  rename_i hheaders
  split
  · exact receiveResetStream_answers hfresh ‹_›
  split
  · exact receiveSettings_answers hfresh hlen ‹_›
  rename_i hsettings
  split
  · exact receiveWindowUpdate_answers hfresh hlen ‹_›
  · -- ignored
    exact .calm (replies_nil hheaders (fun h => hping h.1.1) fun h => hsettings h.1) hheaders
      rfl rfl rfl hfresh (.inr (List.Subset.refl _)) rfl

end

/-! ## What a connection has done -/

/-- A transport that has read nothing yet. It may have sent and dispatched something. -/
structure Begins (u : Impl) : Prop where
  table : u.headerDecoder_ = {}
  streams : u.streams_ = [(1, { id_ := 1 })]
  current : u.currentFrameHeader_ = none
  window : u.windowSize_ = 65535
  preface : u.prefaceReceived_ = false
  buf : u.buf = []
  handled : u.handled = []

theorem begins_new (peerSettings_ : Settings) : Begins (Impl.new peerSettings_) :=
  ⟨rfl, rfl, rfl, rfl, rfl, rfl, rfl⟩

/-- Each frame handled since then has been answered. -/
structure Serves (u s : Impl) : Prop where
  sent : s.sent = u.sent ++ (s.handled.flatMap replies).map octetsOf
  served : (s.headerDecoder_, s.requests) = s.handled.foldl serve ({}, u.requests)
  fresh : Fresh s.streams_

/-- Each frame has been answered, but the last one may not have been. -/
def Stopped (u s : Impl) : Prop :=
  ∃ answered, (answered = s.handled ∨ ∃ f, answered ++ [f] = s.handled) ∧
    s.sent = u.sent ++ (answered.flatMap replies).map octetsOf ∧
    s.requests = (answered.foldl serve ({}, u.requests)).2

section

variable {u s t : Impl}

theorem Begins.serves (h : Begins u) : Serves u u where
  sent := by rw [h.handled, List.flatMap_nil, List.map_nil, List.append_nil]
  served := by rw [h.handled, h.table, List.foldl_nil]
  fresh := by
    rw [h.streams]
    exact fresh_stream 1

theorem Serves.stopped (h : Serves u s) : Stopped u s :=
  ⟨s.handled, .inl rfl, h.sent, congrArg Prod.snd h.served⟩

/-- A handler called for a frame that has been written down. -/
theorem Adds.serves {f : FrameHeader × Bytes} (hs : Serves u s)
    (h : Adds f { s with handled := s.handled ++ [f] } t) : Serves u t where
  sent := by
    rw [h.sent, h.handled, List.flatMap_append, List.flatMap_singleton, List.map_append,
      ← List.append_assoc, ← hs.sent]
  served := by
    rw [h.served, h.handled, List.foldl_append, ← hs.served]
    rfl
  fresh := h.fresh

theorem Refuses.stopped {f : FrameHeader × Bytes} (hs : Serves u s)
    (h : Refuses { s with handled := s.handled ++ [f] } t) : Stopped u t :=
  ⟨s.handled, .inr ⟨f, h.handled.symm⟩, h.sent.trans hs.sent,
    h.requests.trans (congrArg Prod.snd hs.served)⟩

end

theorem processFrameBody_serves (u : Impl) :
    Triple (Serves u) processFrameBody (fun _ => Serves u) fun _ => Stopped u := by
  intro s hs
  cases hcurrent : s.currentFrameHeader_ with
  | none =>
      rw [processFrameBody_none hcurrent]
      exact hs.stopped
  | some header =>
      by_cases hlen : s.buf.length < header.length.toNat
      · rw [processFrameBody_short hcurrent hlen]
        exact hs
      · rw [processFrameBody_eq hcurrent (Nat.le_of_not_lt hlen), Steady.bind_apply]
        have hanswers : Answers _ (recorded header s) (handler header (recorded header s)) :=
          handler_answers hs.fresh (Nat.le_of_not_lt hlen)
        cases hhandled : handler header (recorded header s) with
        | error e t =>
            rw [hhandled] at hanswers
            exact hanswers.stopped hs
        | ok v t =>
            rw [hhandled] at hanswers
            have hserves := hanswers.serves hs
            show Meets _ _ ((advance header.length.toNat >>= fun _ => modify _ : Act Unit) t)
            by_cases hadvance : header.length.toNat ≤ t.buf.length
            · rw [Steady.bind_apply, advance_eq hadvance]
              exact ⟨hserves.sent, hserves.served, hserves.fresh⟩
            · -- a PING has been answered
              rw [Steady.bind_apply, advance_tooShort (Nat.lt_of_not_le hadvance)]
              exact hserves.stopped

/-! ## Whatever is received -/

/-- A property that does not look at what is to be read. -/
def Unframed (P : Impl → Prop) : Prop := ∀ s buf current received, P s →
  P { s with buf := buf, currentFrameHeader_ := current, prefaceReceived_ := received }

section

variable {I J : Impl → Prop} (hI : Unframed I) (hJ : Unframed J) (hweak : ∀ s, I s → J s)
  (hbody : Triple I processFrameBody (fun _ => I) fun _ => J)

include hI

include hweak in
theorem advance_holds (n : Nat) : Triple I (advance n) (fun _ => I) fun _ => J := by
  intro s hs
  by_cases hlen : n ≤ s.buf.length
  · rw [advance_eq hlen]
    exact hI s _ s.currentFrameHeader_ s.prefaceReceived_ hs
  · rw [advance_tooShort (Nat.lt_of_not_le hlen)]
    exact hweak s hs

include hbody

theorem receiveFrame_holds : Triple I receiveFrame (fun _ => I) fun _ => J := by
  have hpending : ∀ (s : Impl) (header : FrameHeader), s.currentFrameHeader_ = some header →
      I s → Meets (fun _ => I) (fun _ => J) (receiveFrame s) := by
    intro s header hcurrent hs
    rw [receiveFrame_pending hcurrent]
    split
    · exact hs
    · have hmeets := hbody s hs
      cases hresult : processFrameBody s with
      | ok u t =>
          rw [hresult] at hmeets
          exact hmeets
      | error e t =>
          rw [hresult] at hmeets
          exact hmeets
  intro s hs
  cases hcurrent : s.currentFrameHeader_ with
  | some header => exact hpending s header hcurrent hs
  | none =>
      rw [receiveFrame_between hcurrent, headerStep]
      by_cases hlen : s.buf.length < FrameHeader.SIZE
      · rw [if_pos hlen]
        exact hs
      · obtain ⟨header, hread⟩ := readFrameHeader_ok (Nat.le_of_not_lt hlen)
        rw [if_neg hlen, hread]
        exact hpending _ header rfl (hI s _ _ _ hs)

theorem receiveFrames_holds : Triple I receiveFrames (fun _ => I) fun _ => J := by
  have hloop : ∀ turns, Triple I (receiveFrames_loop turns) (fun _ => I) fun _ => J := by
    intro turns
    induction turns with
    | zero => exact Triple.pure fun _ h => h
    | succ turns ih =>
        refine (receiveFrame_holds hI hbody).bind fun moreToProcess =>
          Triple.get_bind fun s hs => ?_
        refine Triple.ite (fun _ => ?_) fun _ => Triple.pure fun t ht => ht ▸ hs
        exact ih.weaken (fun t ht => ht ▸ hs) fun _ _ h => h
  exact fun s hs => hloop _ s hs

include hweak

theorem receivePreface_holds : Triple I receivePreface (fun _ => I) fun _ => J := by
  refine Triple.get_bind fun s hs => ?_
  split
  · exact Triple.pure fun t ht => ht ▸ hs
  split
  · exact Triple.throw fun t ht => hweak t (ht ▸ hs)
  · refine Triple.bind (Q := fun _ => I) ?_ fun _ => ?_
    · refine Triple.modify fun t ht => ?_
      rw [ht]
      exact hI s s.buf s.currentFrameHeader_ true hs
    · exact (advance_holds hI hweak _).bind fun _ => receiveFrames_holds hI hbody

theorem onInput_holds : Triple I onInput (fun _ => I) fun _ => J := by
  intro s hs
  rw [onInput_eq]
  split
  · exact receiveFrames_holds hI hbody s hs
  · have hmeets := receivePreface_holds hI hweak hbody s hs
    cases hpreface : receivePreface s with
    | ok u t =>
        rw [hpreface] at hmeets
        exact receiveFrames_holds hI hbody t hmeets
    | error e t =>
        rw [hpreface] at hmeets
        exact hmeets

include hJ

/-- What the frames keep holds behind a run; up to an exception, something weaker. -/
theorem run_holds : ∀ (pieces : List Bytes) {s : Impl}, I s →
    ((run pieces s).2 = none → I (run pieces s).1) ∧ J (run pieces s).1 := by
  intro pieces
  induction pieces with
  | nil => exact fun hs => ⟨fun _ => hs, hweak _ hs⟩
  | cons piece pieces ih =>
      intro s hs
      have hmeets := onInput_holds hI hweak hbody (s.feed piece) (hI s _ _ _ hs)
      rw [run]
      cases hinput : onInput (s.feed piece) with
      | ok u t =>
          rw [hinput] at hmeets
          exact ih hmeets
      | error e t =>
          rw [hinput] at hmeets
          exact ⟨(fun h => by cases h), hJ t _ _ _ hmeets⟩

end

end Shitty.Http2.ServerTransport
