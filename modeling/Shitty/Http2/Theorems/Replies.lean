import Shitty.Hpack.Theorems.Decoder
import Shitty.Http2.Logic.Replies
import Shitty.Http2.Theorems.Segmentation
import Shitty.Http2.Theorems.Window

/-!
# Requests and responses of a connection

What a connection dispatches and sends is a function of the frames it has handled, and a
client that keeps away from what the transport does not read is answered request by
request, however its octets are cut. What it has to keep away from is said frame by
frame, in the fields of `Client`. Its replies can be read as frames in one way only, and
there is one response for each request among them.
-/

namespace Shitty.Http2

open Hpack

/-! ## Frames on the wire -/

theorem writeTo_injective {h h' : FrameHeader} (heq : h.writeTo = h'.writeTo) : h = h' := by
  obtain ⟨length, type, flags, reserved, streamId⟩ := h
  obtain ⟨length', type', flags', reserved', streamId'⟩ := h'
  rw [FrameHeader.writeTo, FrameHeader.writeTo, ← packed, ← packed] at heq
  simp only [List.cons.injEq, and_true] at heq
  obtain ⟨hl16, hl8, hl0, htype, hflags, hs24, hs16, hs8, hs0⟩ := heq
  have hlength : length = length' := by
    refine eq_of_bytes (n := 3) rfl fun k hk => ?_
    obtain rfl | rfl | rfl : k = 0 ∨ k = 1 ∨ k = 2 := by omega
    · exact hl0
    · exact hl8
    · exact hl16
  have hstream : packed reserved streamId = packed reserved' streamId' := by
    refine eq_of_bytes (n := 4) rfl fun k hk => ?_
    obtain rfl | rfl | rfl | rfl : k = 0 ∨ k = 1 ∨ k = 2 ∨ k = 3 := by omega
    · exact hs0
    · exact hs8
    · exact hs16
    · exact hs24
  have hreserved := (split_packed reserved streamId).1
  have hid := (split_packed reserved streamId).2
  rw [hstream, (split_packed reserved' streamId').1] at hreserved
  rw [hstream, (split_packed reserved' streamId').2] at hid
  rw [FrameHeader.byte, FrameHeader.byte, BitVec.setWidth_eq, BitVec.setWidth_eq] at htype hflags
  rw [hlength, htype, hflags, hreserved, hid]

namespace ServerTransport

open Lib Resumable

/-- The length in each header is that of the payload. -/
def Sized (frames : List (FrameHeader × Bytes)) : Prop :=
  ∀ f ∈ frames, f.1.length.toNat = f.2.length

theorem sized_cons {f : FrameHeader × Bytes} {frames : List (FrameHeader × Bytes)} :
    Sized (f :: frames) ↔ f.1.length.toNat = f.2.length ∧ Sized frames := List.forall_mem_cons

/-- Octets can be taken for frames in one way only. -/
theorem encode_injective : ∀ {frames frames' : List (FrameHeader × Bytes)}, Sized frames →
    Sized frames' → encode frames = encode frames' → frames = frames' := by
  have hnot : ∀ (f : FrameHeader × Bytes) frames, encode (f :: frames) ≠ [] := by
    intro f frames heq
    have hlen := congrArg List.length heq
    rw [encode_cons, List.length_append, length_writeTo, List.length_nil] at hlen
    omega
  intro frames
  induction frames with
  | nil =>
      intro frames' _ _ heq
      cases frames' with
      | nil => rfl
      | cons f' frames' => exact absurd heq.symm (hnot f' frames')
  | cons f frames ih =>
      intro frames' hsized hsized' heq
      cases frames' with
      | nil => exact absurd heq (hnot f frames)
      | cons f' frames' =>
          obtain ⟨hf, hsized⟩ := sized_cons.mp hsized
          obtain ⟨hf', hsized'⟩ := sized_cons.mp hsized'
          rw [encode_cons, encode_cons] at heq
          obtain ⟨hheader, hrest⟩ := List.append_inj heq
            (by rw [length_writeTo, length_writeTo])
          have hsame : f.1 = f'.1 := writeTo_injective hheader
          have hlen : f.2.length = f'.2.length := by rw [← hf, ← hf', hsame]
          obtain ⟨hpayload, htail⟩ := List.append_inj hrest hlen
          rw [ih hsized hsized' htail, Prod.ext hsame hpayload]

/-! ## Any octets -/

/-- A run from the start, up to an exception. -/
theorem Begins.serves_run {u : Impl} (hu : Begins u) (pieces : List Bytes) :
    ((run pieces u).2 = none → Serves u (run pieces u).1) ∧ Stopped u (run pieces u).1 := by
  have hserves : Unframed (Serves u) := fun s _ _ _ h => ⟨h.sent, h.served, h.fresh⟩
  have hstopped : Unframed (Stopped u) := fun s _ _ _ h => h
  exact run_holds hserves hstopped (fun _ h => h.stopped) (processFrameBody_serves u) pieces
    hu.serves

/-- Whatever is received, and however it is cut: the requests and the output are those of
the frames handled, but for the last one if an exception has ended the connection. -/
theorem run_serves (peerSettings_ : Settings) (pieces : List Bytes) :
    ∃ answered unanswered,
      (run pieces (Impl.new peerSettings_)).1.handled = answered ++ unanswered ∧
      (run pieces (Impl.new peerSettings_)).1.sent =
        (greeting :: answered.flatMap replies).map octetsOf ∧
      (run pieces (Impl.new peerSettings_)).1.requests = (served answered).2 ∧
      unanswered.length ≤ 1 ∧
      ((run pieces (Impl.new peerSettings_)).2 = none →
        unanswered = [] ∧ (run pieces (Impl.new peerSettings_)).1.headerDecoder_ =
          (served answered).1) := by
  obtain ⟨hserves, answered, hanswered, hsent, hrequests⟩ :=
    (begins_new peerSettings_).serves_run pieces
  cases hthrown : (run pieces (Impl.new peerSettings_)).2 with
  | none =>
      have hall := hserves hthrown
      exact ⟨_, [], (List.append_nil _).symm, hall.sent, congrArg Prod.snd hall.served,
        Nat.zero_le 1, fun _ => ⟨rfl, congrArg Prod.fst hall.served⟩⟩
  | some e =>
      rcases hanswered with rfl | ⟨f, hanswered⟩
      · exact ⟨_, [], (List.append_nil _).symm, hsent, hrequests, Nat.zero_le 1,
          fun h => by cases h⟩
      · exact ⟨answered, [f], hanswered.symm, hsent, hrequests, Nat.le_refl 1,
          fun h => by cases h⟩

/-! ## A client -/

/-- The frames of a client that encodes its requests from a table on. -/
inductive Asks : Rfc.DynTable → List (FrameHeader × Bytes) →
    List (BitVec 31 × List Rfc.Triple) → Prop
  | done (t : Rfc.DynTable) : Asks t [] []
  | request {t : Rfc.DynTable} {header : FrameHeader} {frames : List (FrameHeader × Bytes)}
      {requests : List (BitVec 31 × List Rfc.Triple)} (type : header.type = FrameType.HEADERS)
      (block : Block t) (rest : Asks block.after frames requests) :
      Asks t ((header, Rfc.blockOctets block.fields) :: frames)
        ((header.streamId, block.triples) :: requests)
  | aside {t : Rfc.DynTable} {f : FrameHeader × Bytes} {frames : List (FrameHeader × Bytes)}
      {requests : List (BitVec 31 × List Rfc.Triple)} (type : f.1.type ≠ FrameType.HEADERS)
      (rest : Asks t frames requests) : Asks t (f :: frames) requests

/-- A frame that is taken whatever the state, where a window has room for it. -/
structure Acceptable (f : FrameHeader × Bytes) : Prop where
  data : f.1.type ≠ FrameType.DATA
  reset : f.1.type = FrameType.RST_STREAM → f.1.length = 4 ∧ f.1.streamId ≠ 0
  settings : f.1.type = FrameType.SETTINGS → isSettingsACK f.1 = false →
    f.1.length.toNat % 6 = 0
  update : f.1.type = FrameType.WINDOW_UPDATE → f.1.length = 4 ∧ 1 ≤ increment f.2

/-- How much a frame adds to a window. -/
def widening (f : FrameHeader × Bytes) : Nat :=
  if f.1.type = FrameType.WINDOW_UPDATE then increment f.2 else 0

def widenings (frames : List (FrameHeader × Bytes)) : Nat := (frames.map widening).sum

/-- The settings leave room for what the client adds to a window. -/
def RoomBehind (f : FrameHeader × Bytes) (left : Nat) : Prop :=
  Sets f.1 → ∀ settings, Settings.createFromBuffer f.2 = .ok settings →
    (settings.value Settings.InitialWindowSize).toInt + left ≤ INT32_MAX

/-- What a client sends behind the preface. It has no PING answered, no header misread and
no window made too large. -/
structure Client where
  frames : List (FrameHeader × Bytes)
  requests : List (BitVec 31 × List Rfc.Triple)
  asks : Asks Rfc.DynTable.init frames requests
  sized : Sized frames
  framed : Framed frames
  acceptable : ∀ f ∈ frames, Acceptable f
  room : 65535 + widenings frames ≤ INT32_MAX
  settings : ∀ f ∈ frames, RoomBehind f (widenings frames)

/-- A request as it is dispatched. -/
def asDispatched (request : BitVec 31 × List Rfc.Triple) : BitVec 31 × Message :=
  (request.1, { headers_ := request.2.map fun triple => (triple.1, triple.2.1) })

theorem withHeaders_new (headers : List Header) :
    withHeaders {} headers =
      { headers_ := (headers.map Header.triple).map fun triple => (triple.1, triple.2.1) } := by
  have hfold : ∀ fields : Headers,
      headers.foldl (fun fields header => fields.add header.name header.value) fields =
        fields ++ (headers.map Header.triple).map fun triple => (triple.1, triple.2.1) := by
    induction headers with
    | nil => exact fun fields => (List.append_nil fields).symm
    | cons header headers ih =>
        intro fields
        rw [List.foldl_cons, ih, Headers.add, List.append_assoc]
        rfl
  rw [withHeaders, hfold]
  rfl

/-! ## What is made of its frames -/

/-- The decoder keeps up with the client. -/
theorem serve_asks {t : Rfc.DynTable} {frames : List (FrameHeader × Bytes)}
    {requests : List (BitVec 31 × List Rfc.Triple)} (h : Asks t frames requests) :
    ∀ {d : DynamicTable} (so_far : List (BitVec 31 × Message)), Mirrors d t →
      (frames.foldl serve (d, so_far)).2 = so_far ++ requests.map asDispatched := by
  induction h with
  | done t => exact fun so_far _ => (List.append_nil so_far).symm
  | @request t header frames requests type block rest ih =>
      intro d so_far hm
      obtain ⟨headers, hok, htriples, hm'⟩ := hm.parseHeaders block
      have hserve : serve (d, so_far) (header, Rfc.blockOctets block.fields) =
          ((Hpack.parseHeaders d (Rfc.blockOctets block.fields)).2,
            so_far ++ [asDispatched (header.streamId, block.triples)]) := by
        rw [serve, if_pos type]
        rcases hparse : Hpack.parseHeaders d (Rfc.blockOctets block.fields) with ⟨outcome, table_⟩
        rw [hparse] at hok
        cases hok
        rw [asDispatched, ← htriples, ← withHeaders_new]
      rw [List.foldl_cons, hserve, ih _ hm', List.append_assoc]
      rfl
  | aside type rest ih =>
      intro d so_far hm
      rw [List.foldl_cons, serve_other type, ih so_far hm]

/-- Each request has its response among the replies. -/
theorem responses_asks {t : Rfc.DynTable} {frames : List (FrameHeader × Bytes)}
    {requests : List (BitVec 31 × List Rfc.Triple)} (h : Asks t frames requests) :
    (frames.flatMap replies).filter (fun f => f.1.type = FrameType.HEADERS) =
      requests.map fun request => response request.1 := by
  induction h with
  | done t => rfl
  | request type block rest ih =>
      rw [List.flatMap_cons, List.filter_append, ih, replies, if_pos type]
      rfl
  | @aside t f frames requests type rest ih =>
      have hnone : (replies f).filter (fun f => f.1.type = FrameType.HEADERS) = [] := by
        rw [replies, if_neg type]
        split
        · rfl
        split <;> rfl
      rw [List.flatMap_cons, List.filter_append, ih, hnone, List.nil_append]

/-! ## Room in the windows -/

/-- The windows can be made larger by so much. -/
structure Room (left : Nat) (s : Impl) : Prop where
  connection : s.windowSize_.toInt + left ≤ INT32_MAX
  streams : ∀ p ∈ s.streams_, p.2.windowSize_.toInt + left ≤ INT32_MAX

theorem addWindowSize_sum {existing increment w : Int}
    (h : addWindowSize existing increment = .ok w) : 1 ≤ increment ∧ w = existing + increment := by
  unfold addWindowSize at h
  split at h
  · cases h
  split at h
  · cases h
    exact ⟨by omega, rfl⟩
  split at h
  · cases h
  · cases h
    exact ⟨by omega, rfl⟩

/-- As it is stored, when there is room for it. -/
theorem stored_sum {window : BitVec 32} {increment w : Int}
    (h : addWindowSize window.toInt increment = .ok w)
    (hroom : window.toInt + increment ≤ INT32_MAX) :
    (BitVec.ofInt 32 w).toInt = window.toInt + increment := by
  obtain ⟨hpos, rfl⟩ := addWindowSize_sum h
  have hmin := (inInt32_toInt window).1
  exact InInt32.toInt_ofInt ⟨by omega, hroom⟩

section

variable {s t : Impl} {f : FrameHeader × Bytes} {left : Nat}

theorem widened_of_room {existing : Int} (hpos : 1 ≤ increment f.2)
    (htype : f.1.type = FrameType.WINDOW_UPDATE) (hlen : f.2.length = 4)
    (h : existing + (widening f + left : Nat) ≤ INT32_MAX) :
    Widened existing (readWindowSize f.2) := by
  rw [widening, if_pos htype] at h
  rw [readWindowSize_eq hlen]
  exact ⟨by omega, .inr (by omega)⟩

/-- A frame for which there is room. -/
theorem Acceptable.takes (h : Acceptable f) (hlen : f.1.length.toNat = f.2.length)
    (hping : ¬ f.1.AsksPing) (htype : f.1.type ≠ FrameType.HEADERS)
    (hroom : Room (widening f + left) s) : Takes f.1 { s with buf := f.2 } := by
  rw [Takes, if_neg h.data, if_neg htype]
  split
  · rename_i hisPing
    left
    by_contra hack
    refine hping ⟨hisPing, ?_⟩
    rw [isPingACK, hisPing]
    simpa using hack
  split
  · exact h.reset ‹_›
  split
  · rename_i hsettings
    by_cases hack : isSettingsACK f.1 = true
    · left
      rw [isSettingsACK, hsettings] at hack
      simpa using hack
    · exact .inr (h.settings hsettings (by simpa using hack))
  split
  · rename_i hupdate
    obtain ⟨hlength, hpos⟩ := h.update hupdate
    have h4 : f.2.length = 4 := by
      rw [← hlen, hlength]
      rfl
    have hall : incrementOf { s with buf := f.2 } = readWindowSize f.2 := by
      rw [incrementOf, List.take_of_length_le h4.le]
    rw [hall]
    refine ⟨hlength, ?_⟩
    split
    · exact widened_of_room hpos hupdate h4 hroom.connection
    · exact fun stream hstream => widened_of_room hpos hupdate h4
        (hroom.streams _ (lookup_mem hstream))
  · trivial

theorem Room.mono {more : Nat} (hroom : Room (more + left) s) : Room left s := by
  obtain ⟨hconnection, hstreams⟩ := hroom
  exact ⟨by omega, fun p hp => by have := hstreams p hp; omega⟩

/-- What is added to the window of the connection is taken from the room. -/
theorem room_of_addConnectionWindowSize {u : Unit} {added : Nat} (hroom : Room (added + left) s)
    (h : addConnectionWindowSize added s = .ok u t) : Room left t := by
  obtain ⟨hconnection, hstreams⟩ := hroom
  cases hadd : addWindowSize s.windowSize_.toInt added with
  | error e =>
      rw [addConnectionWindowSize_error hadd] at h
      cases h
  | ok w =>
      rw [addConnectionWindowSize_ok hadd] at h
      cases h
      refine ⟨?_, fun p hp => ?_⟩
      · show (BitVec.ofInt 32 w).toInt + (left : Int) ≤ INT32_MAX
        rw [stored_sum hadd (by omega)]
        omega
      · have := hstreams p hp
        omega

/-- What is added to the window of a stream is taken from the room. -/
theorem room_of_addStreamWindowSize {u : Unit} {id : BitVec 31} {added : Nat}
    (hroom : Room (added + left) s)
    (h : addStreamWindowSize id added s = .ok u t) : Room left t := by
  unfold addStreamWindowSize at h
  rw [act_bind_of_ok (show find _ s = .ok (s.streams_.lookup id) s from rfl)] at h
  cases hlookup : s.streams_.lookup id with
  | none =>
      rw [hlookup] at h
      cases h
      exact hroom.mono
  | some stream =>
      obtain ⟨hconnection, hstreams⟩ := hroom
      rw [hlookup] at h
      change (ofExcept (stream.addWindowSize added) >>= fun stream =>
        store id stream : Act Unit) s = _ at h
      unfold ServerStream.addWindowSize at h
      cases hadd : addWindowSize stream.windowSize_.toInt added with
      | error e =>
          rw [hadd] at h
          cases h
      | ok w =>
          rw [hadd] at h
          cases h
          refine ⟨?_, fun p hp => ?_⟩
          · show s.windowSize_.toInt + (left : Int) ≤ INT32_MAX
            omega
          · obtain ⟨q, hq, rfl⟩ := List.mem_map.mp hp
            have hstream : stream.windowSize_.toInt + (added + left : Nat) ≤ INT32_MAX :=
              hstreams _ (lookup_mem hlookup)
            split
            · show (BitVec.ofInt 32 w).toInt + (left : Int) ≤ INT32_MAX
              rw [stored_sum hadd (by omega)]
              omega
            · have := hstreams q hq
              omega

/-- What a WINDOW_UPDATE takes from the room is its increment. -/
theorem room_of_update {u : Unit} (htype : f.1.type = FrameType.WINDOW_UPDATE)
    (hlength : f.1.length = 4) (hlen : f.1.length.toNat = f.2.length) (hbuf : s.buf = f.2)
    (hroom : Room (widening f + left) s) (h : handler f.1 s = .ok u t) : Room left t := by
  have h4 : f.2.length = 4 := by
    rw [← hlen, hlength]
    rfl
  rw [widening, if_pos htype] at hroom
  have hhandler : handler f.1 = receiveWindowUpdate f.1 := by
    unfold handler
    rw [htype]
    rfl
  rw [hhandler, receiveWindowUpdate_eq hlength (by rw [hbuf, hlen]), hbuf, hlen, List.take_length,
    readWindowSize_eq h4] at h
  by_cases hid : f.1.streamId = 0
  · rw [if_pos hid] at h
    exact room_of_addConnectionWindowSize hroom h
  · rw [if_neg hid] at h
    exact room_of_addStreamWindowSize hroom h

/-- The room behind any frame that is taken. -/
theorem room_of_taken {u : Unit} (hacceptable : Acceptable f) (hlen : f.1.length.toNat = f.2.length)
    (hbuf : s.buf = f.2) (hroom : Room (widening f + left) s) (hadds : Adds f s t)
    (hsettings : Sets f.1 → ∀ settings, Settings.createFromBuffer f.2 = .ok settings →
      (settings.value Settings.InitialWindowSize).toInt + left ≤ INT32_MAX)
    (h : handler f.1 s = .ok u t) : Room left t := by
  by_cases hupdate : f.1.type = FrameType.WINDOW_UPDATE
  · exact room_of_update hupdate (hacceptable.update hupdate).1 hlen hbuf hroom h
  · have hstreams := hadds.streams.resolve_left hupdate
    obtain ⟨hconnection, hroom⟩ := hroom
    rw [widening, if_neg hupdate, Nat.zero_add] at hconnection hroom
    refine ⟨?_, fun p hp => hroom p (hstreams hp)⟩
    have hfits : f.1.length.toNat ≤ s.buf.length := by
      rw [hbuf, hlen]
    obtain ⟨-, heffect⟩ := handler_effect hfits h
    rw [hbuf, hlen, List.take_length] at heffect
    cases heffect with
    | sets frame settings read settings_eq window updated =>
        rw [window]
        split
        · exact hconnection
        · exact hsettings frame settings read
    | widens frame => exact absurd frame.1 hupdate
    | other no_settings no_update settings_eq window updated =>
        rw [window]
        exact hconnection

end

/-! ## No exception -/

/-- A handler that takes its frame. -/
theorem own_adds {s : Impl} {f : FrameHeader × Bytes} (hlen : f.1.length.toNat = f.2.length)
    (hfresh : Fresh s.streams_) (htakes : Takes f.1 { s with buf := f.2 }) :
    ∃ t, own f.1 f.2 s = .ok () t ∧
      Adds f { s with buf := f.2, handled := s.handled ++ [(f.1, f.2)] } t := by
  have hfits : f.1.length.toNat ≤
      ({ s with buf := f.2, handled := s.handled ++ [(f.1, f.2)] } : Impl).buf.length := hlen.le
  have hreturns := (handler_returns hfits).mpr htakes
  have hanswers := handler_answers (s := { s with
    buf := f.2, handled := s.handled ++ [(f.1, f.2)] }) hfresh hfits
  rw [show List.take f.1.length.toNat f.2 = f.2 from List.take_of_length_le hlen.ge] at hanswers
  obtain ⟨u, t, hhandled, -⟩ := Returns.bind_iff.mp hreturns
  rw [hhandled] at hanswers
  exact ⟨t, hhandled, hanswers⟩

theorem takes_request {s : Impl} {header : FrameHeader} {t : Rfc.DynTable} (block : Block t)
    (htype : header.type = FrameType.HEADERS) (hm : Mirrors s.headerDecoder_ t)
    (hlen : header.length.toNat = (Rfc.blockOctets block.fields).length) :
    Takes header { s with buf := Rfc.blockOctets block.fields } := by
  have hdata : header.type ≠ FrameType.DATA := by
    rw [htype]
    decide
  obtain ⟨headers, hok, -, -⟩ := hm.parseHeaders block
  have hshort := block.short
  rw [Takes, if_neg hdata, if_pos htype, blockTurns]
  dsimp only
  rw [hlen, List.take_length]
  exact (parseHeaders_returns_iff (by rw [UINTMAX_MOD]; omega)).mp ⟨headers, hok⟩

theorem noError_cons {s : Impl} {f : FrameHeader × Bytes} {frames : List (FrameHeader × Bytes)}
    (hlen : f.1.length.toNat = f.2.length) (hfresh : Fresh s.streams_)
    (htakes : Takes f.1 { s with buf := f.2 }) (hacceptable : Acceptable f)
    (hroom : Room (widening f + widenings frames) s) (hbehind : RoomBehind f (widenings frames))
    (hrest : ∀ t : Impl,
      (t.headerDecoder_, t.requests) = serve (s.headerDecoder_, s.requests) f →
        Fresh t.streams_ → Room (widenings frames) t → NoError frames t) :
    NoError (f :: frames) s := by
  obtain ⟨t, hown, hadds⟩ :=
    own_adds (s := { s with currentFrameHeader_ := some f.1 }) hlen hfresh htakes
  refine ⟨t, hown, hrest _ hadds.served hadds.fresh ?_⟩
  have hroom' : Room (widening f + widenings frames) { s with
      currentFrameHeader_ := some f.1, buf := f.2, handled := s.handled ++ [(f.1, f.2)] } :=
    ⟨hroom.connection, hroom.streams⟩
  have hleft := room_of_taken hacceptable hlen rfl hroom' hadds hbehind hown
  exact ⟨hleft.connection, hleft.streams⟩

/-- Frame by frame, no handler objects. -/
theorem noError_of_asks {t : Rfc.DynTable} {frames : List (FrameHeader × Bytes)}
    {requests : List (BitVec 31 × List Rfc.Triple)} (h : Asks t frames requests) :
    ∀ {s : Impl}, Mirrors s.headerDecoder_ t → Fresh s.streams_ → Room (widenings frames) s →
      Sized frames → Framed frames → (∀ f ∈ frames, Acceptable f) →
      (∀ f ∈ frames, RoomBehind f (widenings frames)) → NoError frames s := by
  induction h with
  | done t => exact fun _ _ _ _ _ _ _ => trivial
  | @request t header frames requests type block rest ih =>
      intro s hm hfresh hroom hsized hframed hacceptable hbehind
      obtain ⟨hlen, hsized⟩ := sized_cons.mp hsized
      refine noError_cons hlen hfresh (takes_request block type hm hlen)
        (hacceptable _ List.mem_cons_self) hroom ?_ fun t hserved hfresh' hroom' => ?_
      · exact fun hsets => absurd (type.symm.trans hsets.1) (by decide)
      · refine ih ?_ hfresh' hroom' hsized (fun f hf => hframed f (List.mem_cons_of_mem _ hf))
          (fun f hf => hacceptable f (List.mem_cons_of_mem _ hf))
          fun f hf hsets settings hread => ?_
        · obtain ⟨headers, hok, -, hm'⟩ := hm.parseHeaders block
          rw [serve, if_pos type] at hserved
          rcases hparse : Hpack.parseHeaders s.headerDecoder_ (Rfc.blockOctets block.fields) with
            ⟨outcome, table_⟩
          rw [hparse] at hserved hok hm'
          cases hok
          have htable : t.headerDecoder_ = table_ := congrArg Prod.fst hserved
          rw [htable]
          exact hm'
        · have hwhole := hbehind f (List.mem_cons_of_mem _ hf) hsets settings hread
          rw [widenings, List.map_cons, List.sum_cons, ← widenings] at hwhole
          omega
  | @aside t f frames requests type rest ih =>
      intro s hm hfresh hroom hsized hframed hacceptable hbehind
      obtain ⟨hlen, hsized⟩ := sized_cons.mp hsized
      have hsum : ∀ {v : Int}, v + widenings (f :: frames) ≤ INT32_MAX →
          v + widenings frames ≤ INT32_MAX := by
        intro v hv
        rw [widenings, List.map_cons, List.sum_cons, ← widenings] at hv
        omega
      refine noError_cons hlen hfresh ((hacceptable f List.mem_cons_self).takes hlen
        (hframed f List.mem_cons_self).2 type hroom) (hacceptable f List.mem_cons_self) hroom
        (fun hsets settings hread => hsum (hbehind f List.mem_cons_self hsets settings hread))
        fun t hserved hfresh' hroom' => ?_
      refine ih ?_ hfresh' hroom' hsized (fun f hf => hframed f (List.mem_cons_of_mem _ hf))
        (fun f hf => hacceptable f (List.mem_cons_of_mem _ hf)) fun f' hf hsets settings hread =>
          hsum (hbehind f' (List.mem_cons_of_mem _ hf) hsets settings hread)
      rw [serve_other type] at hserved
      have htable : t.headerDecoder_ = s.headerDecoder_ := congrArg Prod.fst hserved
      rw [htable]
      exact hm

/-! ## The whole connection -/

/-- A connection that has received the preface and nothing behind it. -/
def received (u : Impl) : Impl := { u with prefaceReceived_ := true }

theorem Begins.between {u : Impl} (hu : Begins u) : Between u 0 where
  idle p hp := by
    rw [hu.streams] at hp
    rw [List.mem_singleton.mp hp]
  inside := by
    rw [hu.buf]
    exact Nat.le_refl 0
  waits := by
    rw [hu.buf, need, if_pos hu.preface]
    decide
  untouched _ := ⟨hu.current, congrArg List.length hu.buf⟩

theorem Client.noError (client : Client) {u : Impl} (hu : Begins u) :
    NoError client.frames (received u) := by
  have hstreams : (received u).streams_ = [(1, { id_ := 1 })] := hu.streams
  have hwindow : (received u).windowSize_ = 65535 := hu.window
  refine noError_of_asks client.asks ?_ ?_ ⟨?_, fun p hp => ?_⟩ client.sized client.framed
    client.acceptable client.settings
  · rw [show (received u).headerDecoder_ = {} from hu.table]
    exact mirrors_init
  · rw [hstreams]
    exact fresh_stream 1
  · rw [hwindow]
    exact client.room
  · rw [hstreams] at hp
    rw [List.mem_singleton.mp hp]
    exact client.room

/-- All of its frames are handled, however its octets are cut. -/
theorem Client.run_handled (client : Client) {u : Impl} (hu : Begins u) {pieces : List Bytes}
    (hpieces : pieces.flatten = CLIENT_PREFACE ++ encode client.frames)
    (hspares : SparesPreface pieces) :
    ∃ s, run pieces u = (s, none) ∧ s.handled = client.frames := by
  have hdrains := @run_drains pieces _ hu.between fun _ => hspares
  have hbuf : (u.feed pieces.flatten).buf = CLIENT_PREFACE ++ encode client.frames := by
    rw [← hpieces]
    exact congrArg (· ++ pieces.flatten) hu.buf
  have hstep : step (EndsBehind pieces) (u.feed pieces.flatten) pieces.flatten.length =
      .next { received u with buf := encode client.frames } := by
    rw [step, if_pos (show (u.feed pieces.flatten).prefaceReceived_ = false from hu.preface),
      prefaceStep, hbuf, if_neg (by rw [List.length_append]; omega), List.take_left,
      if_neg (fun h => h rfl), List.drop_left]
    rfl
  obtain ⟨s, hframes, hhandled, -, -⟩ := drains_framed client.frames
    { received u with buf := encode client.frames } hu.between.idle rfl hu.current rfl client.sized
    ((noError_buf _ _ _).mpr (client.noError hu)) client.framed
  have hunique := hdrains.unique (.next (frames_next hstep) hframes)
  simp only [Prod.mk.injEq, and_true] at hunique
  refine ⟨s, Prod.ext hunique.1 hunique.2, hhandled.trans ?_⟩
  show u.handled ++ client.frames = client.frames
  rw [hu.handled, List.nil_append]

/-- What a client reads off the connection, by the layout of RFC 7540 section 4.1. -/
def Reads (output : Bytes) (frames : List (FrameHeader × Bytes)) : Prop :=
  ∀ frames', Sized frames' → (encode frames' = output ↔ frames' = frames)

theorem sized_replies {f : FrameHeader × Bytes} (hlen : f.1.length.toNat = f.2.length) :
    Sized (replies f) := by
  unfold replies
  split
  · simp only [Sized, List.forall_mem_singleton]
    rfl
  split
  · rename_i hanswered
    simp only [Sized, List.forall_mem_singleton]
    rw [← hlen, hanswered.2.2]
  split
  · simp only [Sized, List.forall_mem_singleton]
    rfl
  · simp [Sized]

theorem sized_answers {frames : List (FrameHeader × Bytes)} (h : Sized frames) :
    Sized (frames.flatMap replies) := by
  intro f hf
  obtain ⟨g, hg, hf⟩ := List.mem_flatMap.mp hf
  exact sized_replies (h g hg) f hf

theorem reads_encode {frames : List (FrameHeader × Bytes)} (h : Sized frames) :
    Reads (encode frames) frames :=
  fun _ hframes' => ⟨encode_injective hframes' h, fun heq => congrArg encode heq⟩

theorem Serves.sent_flatten {u s : Impl} (h : Serves u s) :
    s.sent.flatten = u.sent.flatten ++ encode (s.handled.flatMap replies) := by
  rw [h.sent, List.flatten_append, ← encode_eq]

theorem Serves.greets {peerSettings_ : Settings} {s : Impl}
    (h : Serves (Impl.new peerSettings_) s) :
    s.sent.flatten = encode (greeting :: s.handled.flatMap replies) := h.sent_flatten

theorem Serves.reads {peerSettings_ : Settings} {s : Impl} (h : Serves (Impl.new peerSettings_) s)
    (hsized : Sized s.handled) : Reads s.sent.flatten (greeting :: s.handled.flatMap replies) := by
  rw [h.greets]
  exact reads_encode (sized_cons.mpr ⟨rfl, sized_answers hsized⟩)

/-- A client's requests are dispatched as it meant them, one by one, and what it reads are the
replies to its frames, with one response among them for each request. -/
theorem client_answered (client : Client) (peerSettings_ : Settings) {pieces : List Bytes}
    (hpieces : pieces.flatten = CLIENT_PREFACE ++ encode client.frames)
    (hspares : SparesPreface pieces) :
    ∃ s, run pieces (Impl.new peerSettings_) = (s, none) ∧
      s.requests = client.requests.map asDispatched ∧
      Reads s.sent.flatten (greeting :: client.frames.flatMap replies) ∧
      (client.frames.flatMap replies).filter (fun f => f.1.type = FrameType.HEADERS) =
        client.requests.map fun request => response request.1 := by
  have hnew := begins_new peerSettings_
  obtain ⟨s, hrun, hhandled⟩ := client.run_handled hnew hpieces hspares
  have hserves : Serves (Impl.new peerSettings_) s := by
    have hruns := (hnew.serves_run pieces).1
    rw [hrun] at hruns
    exact hruns rfl
  refine ⟨s, hrun, ?_, ?_, responses_asks client.asks⟩
  · have hrequests := congrArg Prod.snd hserves.served
    rw [hhandled] at hrequests
    exact hrequests.trans (serve_asks client.asks [] mirrors_init)
  · have hreads := hserves.reads (hhandled ▸ client.sized)
    rwa [hhandled] at hreads

/-- `GET /` from example.org, which is put into the table. -/
def first_block : Block Rfc.DynTable.init where
  fields := [.indexed 2, .indexed 4,
    .literal .incremental (.indexed 1) ⟨octets "example.org", _, .raw⟩]
  triples := [(octets ":method", octets "GET", false), (octets ":path", octets "/", false),
    (octets ":authority", octets "example.org", false)]
  after := Rfc.DynTable.init.insert (octets ":authority", octets "example.org")
  valid := rfl
  short := by decide

/-- The same fields once more, of which the third one is in the table by now. -/
def second_block : Block first_block.after where
  fields := [.indexed 2, .indexed 4, .indexed 62]
  triples := first_block.triples
  after := first_block.after
  valid := rfl
  short := by decide

def headersFrame (id : BitVec 31) (block : Bytes) : FrameHeader × Bytes :=
  ({ type := FrameType.HEADERS, flags := 5, length := BitVec.ofNat 24 block.length,
     streamId := id }, block)

/-- A client that asks twice, behind SETTINGS and a WINDOW_UPDATE. -/
def twice : Client where
  frames := [({ type := FrameType.SETTINGS }, []), windowUpdate,
    headersFrame 1 (Rfc.blockOctets first_block.fields),
    headersFrame 3 (Rfc.blockOctets second_block.fields)]
  requests := [(1, first_block.triples), (3, first_block.triples)]
  asks := .aside (by decide) (.aside (by decide) (.request rfl first_block
    (.request rfl second_block (.done _))))
  sized := by
    unfold Sized
    decide
  framed := by
    unfold Framed
    decide
  acceptable := by
    intro f hf
    simp only [List.mem_cons, List.not_mem_nil, or_false] at hf
    rcases hf with rfl | rfl | rfl | rfl <;> exact ⟨by decide, by decide, by decide, by decide⟩
  room := by decide
  settings := by
    intro f hf hsets settings hread
    simp only [List.mem_cons, List.not_mem_nil, or_false] at hf
    rcases hf with rfl | rfl | rfl | rfl
    · cases hread
      decide
    all_goals exact absurd hsets.1 (by decide)

theorem client_answered_twice :
    ∃ s, run [CLIENT_PREFACE ++ encode twice.frames] (Impl.new {}) = (s, none) ∧
      s.requests = twice.requests.map asDispatched ∧
      Reads s.sent.flatten (greeting :: twice.frames.flatMap replies) ∧
      (twice.frames.flatMap replies).filter (fun f => f.1.type = FrameType.HEADERS) =
        twice.requests.map fun request => response request.1 := by
  refine client_answered twice {} (by rw [List.flatten_singleton]) ?_
  rintro c ⟨front, hfront, rfl⟩
  rcases List.prefix_concat_iff.mp (show front <+: [] ++ [_] from hfront) with rfl | hfront
  · exact .inr (by decide)
  · rw [List.prefix_nil.mp hfront]
    exact .inl (by decide)

end ServerTransport

end Shitty.Http2
