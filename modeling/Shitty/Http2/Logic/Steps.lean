import Shitty.Http2.Logic.Receive
import Shitty.Lib.Returns

/-!
# The states a connection passes through

What a step does to the members that frames on the connection as a whole change: the
peer's settings and the connection's window. A step is one call of a handler with the
frame in front of it, and what is received passes from state to state by such steps, in
one read and over all of them.
-/

namespace Shitty.Http2.ServerTransport

open Lib

/-! ## Steps -/

/-- More octets are received, or one of the receiving functions has done its part. -/
inductive Leads : Impl → Impl → Prop
  | read (s : Impl) (more : Bytes) : Leads s (s.feed more)
  | preface {s t : Impl} : s.prefaceReceived_ = false → prefaceStep s = .next t → Leads s t
  | header {s t : Impl} : receiveFrameHeader s = .ok () t → Leads s t
  | body {s t : Impl} : processFrameBody s = .ok () t → Leads s t

/-- States that a connection passes from one to the other, in any number of steps. -/
abbrev Passes : Impl → Impl → Prop := Relation.ReflTransGen Leads

/-! ## Actions that change neither -/

/-- The members a frame on the connection as a whole can change, and the frames
handled. -/
structure Same (s s' : Impl) : Prop where
  settings : s'.peerSettings_ = s.peerSettings_
  window : s'.windowSize_ = s.windowSize_
  updated : s'.windowUpdateReceived_ = s.windowUpdateReceived_
  handled : s'.handled = s.handled

theorem Same.refl (s : Impl) : Same s s := ⟨rfl, rfl, rfl, rfl⟩

/-- A property that looks neither at the streams, nor at the header table, nor at what has
been sent and requested. -/
def Apart (P : Impl → Prop) : Prop := ∀ s headerDecoder_ streams_ sent requests, P s →
  P { s with
    headerDecoder_ := headerDecoder_, streams_ := streams_, sent := sent, requests := requests }

/-- A property that does not look at the buffer. -/
def Blindfold (P : Impl → Prop) : Prop := ∀ s buf, P s → P { s with buf := buf }

theorem same_apart (s : Impl) : Apart (Same s) :=
  fun _ _ _ _ _ h => ⟨h.settings, h.window, h.updated, h.handled⟩

theorem same_blindfold (s : Impl) : Blindfold (Same s) :=
  fun _ _ h => ⟨h.settings, h.window, h.updated, h.handled⟩

section

variable {P : Impl → Prop}

theorem ofExcept_keeps {α : Type} (x : Except Exn α) : Keeps (ofExcept x) P := by
  cases x with
  | error e => exact .throw e
  | ok a => exact .pure a

theorem frontOr_keeps (e : Exn) (n : Nat) : Keeps (frontOr e n) P := by
  intro s hs
  unfold frontOr
  split <;> exact hs

theorem find_keeps (id : BitVec 31) : Keeps (find id) P := .get_bind fun _ => .pure _

theorem getStream_keeps (id : BitVec 31) : Keeps (getStream id) P := by
  refine .bind (find_keeps id) fun found => ?_
  cases found with
  | none => exact .throw _
  | some stream => exact .pure stream

section

variable (hP : Apart P)

include hP

theorem send_keeps (payload : Bytes) : Keeps (send payload) P :=
  .modify fun s hs => hP s _ _ _ _ hs

theorem emplace_keeps (id : BitVec 31) (stream : ServerStream) : Keeps (emplace id stream) P :=
  .modify fun s hs => hP s _ _ _ _ hs

theorem store_keeps (id : BitVec 31) (stream : ServerStream) : Keeps (store id stream) P :=
  .modify fun s hs => hP s _ _ _ _ hs

theorem erase_keeps (id : BitVec 31) : Keeps (erase id) P :=
  .modify fun s hs => hP s _ _ _ _ hs

theorem dispatch_keeps (stream : ServerStream) : Keeps (dispatch stream) P :=
  .bind (.modify fun s hs => hP s _ _ _ _ hs) fun _ => send_keeps hP _

theorem parseHeaders_keeps (block : Bytes) : Keeps (ServerTransport.parseHeaders block) P := by
  intro s hs
  unfold ServerTransport.parseHeaders
  rcases Hpack.parseHeaders s.headerDecoder_ block with ⟨headers, table_⟩
  cases headers <;> exact hP s _ _ _ _ hs

theorem findOrEmplace_keeps (id : BitVec 31) : Keeps (findOrEmplace id) P := by
  refine .bind (find_keeps id) fun found => ?_
  cases found with
  | some stream => exact .pure stream
  | none => exact .bind (emplace_keeps hP id _) fun _ => .pure _

theorem receiveHeaders_keeps (header : FrameHeader) : Keeps (receiveHeaders header) P := by
  refine .bind (frontOr_keeps _ _) fun block => .bind (parseHeaders_keeps hP block) fun headers => ?_
  refine .bind (findOrEmplace_keeps hP _) fun stream => .bind (store_keeps hP _ _) fun _ => ?_
  exact .bind (dispatch_keeps hP _) fun _ => erase_keeps hP _

theorem receiveResetStream_keeps (header : FrameHeader) : Keeps (receiveResetStream header) P :=
  .ite (.throw _) (.ite (.throw _) (.bind (frontOr_keeps _ _) fun _ => erase_keeps hP _))

theorem addStreamWindowSize_keeps (streamId : BitVec 31) (windowSize : Int) :
    Keeps (addStreamWindowSize streamId windowSize) P := by
  refine .bind (find_keeps streamId) fun found => ?_
  cases found with
  | none => exact .pure _
  | some stream => exact .bind (ofExcept_keeps _) fun _ => store_keeps hP _ _

end

section

variable (hbuf : Blindfold P)

include hbuf

theorem advance_keeps (n : Nat) : Keeps (advance n) P := by
  intro s hs
  unfold advance
  cases Shitty.advance n s.buf with
  | error e => exact hs
  | ok buf => exact hbuf s buf hs

theorem takePadLength_keeps (length : Nat) : Keeps (takePadLength length) P := by
  refine .get_bind fun s => .ite (.throw _) (.bind (frontOr_keeps _ _) fun data => ?_)
  exact .bind (advance_keeps hbuf 1) fun _ => .ite (.throw _) (.pure _)

variable (hP : Apart P)

include hP

theorem receiveData_keeps (header : FrameHeader) : Keeps (receiveData header) P := by
  have hdeliver : ∀ (stream : ServerStream) (length : Nat), Keeps (do
      let data ← front length
      let request_ := { stream.request_ with body_ := stream.request_.body_ ++ data }
      let stream := { stream with request_ := request_ }
      store header.streamId stream
      dispatch stream
      endStream stream.id_) P := fun stream length =>
    .bind (frontOr_keeps _ _) fun data => .bind (store_keeps hP _ _) fun _ =>
      .bind (dispatch_keeps hP _) fun _ => erase_keeps hP _
  refine .ite (.throw _) (.bind (getStream_keeps _) fun stream => .ite (.throw _) ?_)
  refine .bind (ofExcept_keeps _) fun changed => .bind (store_keeps hP _ _) fun _ => ?_
  dsimp only
  split
  · exact .bind (takePadLength_keeps hbuf _) fun length => hdeliver changed length
  · exact .bind (.pure _) fun length => hdeliver changed length

theorem receivePing_keeps (header : FrameHeader) : Keeps (receivePing header) P := by
  refine .ite (.pure _) (.ite (.throw _) (.ite (.throw _) (.get_bind fun s => .ite (.pure _) ?_)))
  refine .bind (frontOr_keeps _ _) fun data => ?_
  exact .bind (send_keeps hP _) fun _ => advance_keeps hbuf 8

end

end

/-! ## Frames on the connection as a whole -/

/-- A SETTINGS frame that is not an acknowledgement. -/
def Sets (header : FrameHeader) : Prop :=
  header.type = FrameType.SETTINGS ∧ isSettingsACK header = false

/-- A frame that widens the window of the connection: a WINDOW_UPDATE on stream 0. -/
def Widens (header : FrameHeader) : Prop :=
  header.type = FrameType.WINDOW_UPDATE ∧ header.streamId = 0

/-- What a frame that is accepted does to the members it can change. -/
inductive Effect (header : FrameHeader) (payload : Bytes) (s t : Impl) : Prop
  | sets (frame : Sets header) (settings : Settings)
      (read : Settings.createFromBuffer payload = .ok settings)
      (settings_eq : t.peerSettings_ = settings)
      (window : t.windowSize_ = if s.windowUpdateReceived_ then s.windowSize_
        else settings.value Settings.InitialWindowSize)
      (updated : t.windowUpdateReceived_ = s.windowUpdateReceived_)
  | widens (frame : Widens header) (size : header.length = 4) (windowSize : Int)
      (added : addWindowSize s.windowSize_.toInt (readWindowSize payload) = .ok windowSize)
      (settings_eq : t.peerSettings_ = s.peerSettings_)
      (window : t.windowSize_ = BitVec.ofInt 32 windowSize)
      (updated : t.windowUpdateReceived_ = true)
  | other (no_settings : ¬ Sets header) (no_update : ¬ Widens header)
      (settings_eq : t.peerSettings_ = s.peerSettings_) (window : t.windowSize_ = s.windowSize_)
      (updated : t.windowUpdateReceived_ = s.windowUpdateReceived_)

theorem front_eq {n : Nat} {s : Impl} (h : n ≤ s.buf.length) : front n s = .ok (s.buf.take n) s := by
  rw [front, frontOr, if_neg (by omega)]

theorem receiveSettings_effect {header : FrameHeader} {s t : Impl} {u : Unit}
    (hsets : Sets header) (hlen : header.length.toNat ≤ s.buf.length)
    (h : receiveSettings header s = .ok u t) :
    t.handled = s.handled ∧ Effect header (s.buf.take header.length.toNat) s t := by
  rw [receiveSettings, hsets.2, if_neg Bool.false_ne_true, Steady.bind_apply, front_eq hlen] at h
  dsimp only at h
  rw [Steady.bind_apply] at h
  cases hread : Settings.createFromBuffer (s.buf.take header.length.toNat) with
  | error e =>
      rw [hread] at h
      cases h
  | ok settings =>
      rw [hread] at h
      cases h
      exact ⟨rfl, .sets hsets settings hread rfl rfl rfl⟩

theorem addConnectionWindowSize_ok {windowSize w : Int} {s : Impl}
    (h : addWindowSize s.windowSize_.toInt windowSize = .ok w) :
    addConnectionWindowSize windowSize s =
      .ok () { s with windowSize_ := BitVec.ofInt 32 w, windowUpdateReceived_ := true } := by
  show (ofExcept ((addWindowSize s.windowSize_.toInt windowSize).mapError _) >>= _ : Act Unit) s = _
  rw [h]
  rfl

theorem addConnectionWindowSize_error {windowSize : Int} {e : Exn} {s : Impl}
    (h : addWindowSize s.windowSize_.toInt windowSize = .error e) :
    addConnectionWindowSize windowSize s = .error (rethrow "connection error: " e) s := by
  show (ofExcept ((addWindowSize s.windowSize_.toInt windowSize).mapError _) >>= _ : Act Unit) s = _
  rw [h]
  rfl

theorem receiveWindowUpdate_eq {header : FrameHeader} (hlength : header.length = 4) {s : Impl}
    (hlen : header.length.toNat ≤ s.buf.length) :
    receiveWindowUpdate header s =
      (if header.streamId = 0 then
        addConnectionWindowSize (readWindowSize (s.buf.take header.length.toNat))
      else addStreamWindowSize header.streamId (readWindowSize (s.buf.take header.length.toNat))) s := by
  have h4 : header.length.toNat = 4 := by
    rw [hlength]
    rfl
  rw [h4] at hlen ⊢
  rw [receiveWindowUpdate, if_neg (not_not.mpr hlength), Steady.bind_apply, front_eq hlen]

theorem receiveWindowUpdate_effect {header : FrameHeader} {s t : Impl} {u : Unit}
    (htype : header.type = FrameType.WINDOW_UPDATE) (hlen : header.length.toNat ≤ s.buf.length)
    (h : receiveWindowUpdate header s = .ok u t) :
    t.handled = s.handled ∧ Effect header (s.buf.take header.length.toNat) s t := by
  by_cases hlength : header.length = 4
  · rw [receiveWindowUpdate_eq hlength hlen] at h
    by_cases hid : header.streamId = 0
    · rw [if_pos hid] at h
      cases hadd : addWindowSize s.windowSize_.toInt
          (readWindowSize (s.buf.take header.length.toNat)) with
      | error e =>
          rw [addConnectionWindowSize_error hadd] at h
          cases h
      | ok w =>
          rw [addConnectionWindowSize_ok hadd] at h
          cases h
          exact ⟨rfl, .widens ⟨htype, hid⟩ hlength w hadd rfl rfl rfl⟩
    · rw [if_neg hid] at h
      have hsame := (addStreamWindowSize_keeps (same_apart s) _ _).of_ok (Same.refl s) h
      refine ⟨hsame.handled, .other ?_ (fun hw => hid hw.2) hsame.settings hsame.window
        hsame.updated⟩
      rintro ⟨hsettings, -⟩
      rw [htype] at hsettings
      cases hsettings
  · rw [receiveWindowUpdate, if_pos hlength] at h
    cases h

/-- What a handler that returns has done to the settings and the window, by the type of its
frame. -/
theorem handler_effect {header : FrameHeader} {s t : Impl} {u : Unit}
    (hlen : header.length.toNat ≤ s.buf.length) (h : handler header s = .ok u t) :
    t.handled = s.handled ∧ Effect header (s.buf.take header.length.toNat) s t := by
  -- frames of the other types
  have hother : ∀ {f : Act Unit}, Keeps f (Same s) → f s = .ok u t → ¬ Sets header →
      ¬ Widens header →
      t.handled = s.handled ∧ Effect header (s.buf.take header.length.toNat) s t := by
    intro f hf hok hsets hwidens
    have hsame := hf.of_ok (Same.refl s) hok
    exact ⟨hsame.handled, .other hsets hwidens hsame.settings hsame.window hsame.updated⟩
  unfold handler at h
  by_cases hset : header.type = FrameType.SETTINGS
  · simp only [hset] at h
    change receiveSettings header s = .ok u t at h
    by_cases hack : isSettingsACK header = true
    · rw [receiveSettings, hack, if_pos rfl] at h
      cases h
      refine ⟨rfl, .other ?_ ?_ rfl rfl rfl⟩
      · rintro ⟨-, hno⟩
        rw [hack] at hno
        cases hno
      · rintro ⟨htype, -⟩
        rw [hset] at htype
        cases htype
    · exact receiveSettings_effect ⟨hset, by simpa using hack⟩ hlen h
  · by_cases hupdate : header.type = FrameType.WINDOW_UPDATE
    · simp only [hupdate] at h
      exact receiveWindowUpdate_effect hupdate hlen h
    · rw [if_neg hset, if_neg hupdate] at h
      have hno : ¬ Sets header := fun hs => hset hs.1
      have hno' : ¬ Widens header := fun hw => hupdate hw.1
      by_cases hdata : header.type = FrameType.DATA
      · rw [if_pos hdata] at h
        exact hother (receiveData_keeps (same_blindfold s) (same_apart s) header) h hno hno'
      · rw [if_neg hdata] at h
        by_cases hheaders : header.type = FrameType.HEADERS
        · rw [if_pos hheaders] at h
          exact hother (receiveHeaders_keeps (same_apart s) header) h hno hno'
        · rw [if_neg hheaders] at h
          by_cases hping : header.type = FrameType.PING
          · rw [if_pos hping] at h
            exact hother (receivePing_keeps (same_blindfold s) (same_apart s) header) h hno hno'
          · rw [if_neg hping] at h
            by_cases hreset : header.type = FrameType.RST_STREAM
            · rw [if_pos hreset] at h
              exact hother (receiveResetStream_keeps (same_apart s) header) h hno hno'
            · rw [if_neg hreset] at h
              exact hother (.pure ()) h hno hno'

/-- The frame whose header has been read, accepted between the two states. -/
structure Accepts (s t : Impl) (header : FrameHeader) (payload : Bytes) : Prop where
  current : s.currentFrameHeader_ = some header
  length : header.length.toNat ≤ s.buf.length
  payload_eq : payload = s.buf.take header.length.toNat
  handled : t.handled = s.handled ++ [(header, payload)]
  effect : Effect header payload s t

theorem processFrameBody_accepts {s t : Impl} {u : Unit} (h : processFrameBody s = .ok u t) :
    t = s ∨ ∃ header payload, Accepts s t header payload := by
  cases hcurrent : s.currentFrameHeader_ with
  | none =>
      rw [processFrameBody_none hcurrent] at h
      cases h
  | some header =>
      by_cases hlen : header.length.toNat ≤ s.buf.length
      · rw [processFrameBody_eq hcurrent hlen, Steady.bind_apply] at h
        cases hhandler : handler header (recorded header s) with
        | error e s₁ =>
            rw [hhandler] at h
            cases h
        | ok v s₁ =>
            rw [hhandler] at h
            dsimp only at h
            have hrecorded : header.length.toNat ≤ (recorded header s).buf.length := hlen
            obtain ⟨hhandled, heffect⟩ := handler_effect hrecorded hhandler
            rw [Steady.bind_apply] at h
            cases hadvance : advance header.length.toNat s₁ with
            | error e s₂ =>
                rw [hadvance] at h
                cases h
            | ok w s₂ =>
                have hsame := (advance_keeps (same_blindfold s₁) _).of_ok (Same.refl s₁) hadvance
                rw [hadvance] at h
                cases h
                refine .inr ⟨header, s.buf.take header.length.toNat, hcurrent, hlen, rfl, ?_, ?_⟩
                · exact hsame.handled.trans hhandled
                · cases heffect with
                  | sets frame settings read settings_eq window updated =>
                      exact .sets frame settings read (hsame.settings.trans settings_eq)
                        (hsame.window.trans window) (hsame.updated.trans updated)
                  | widens frame size windowSize added settings_eq window updated =>
                      exact .widens frame size windowSize added
                        (hsame.settings.trans settings_eq) (hsame.window.trans window)
                        (hsame.updated.trans updated)
                  | other no_settings no_update settings_eq window updated =>
                      exact .other no_settings no_update (hsame.settings.trans settings_eq)
                        (hsame.window.trans window) (hsame.updated.trans updated)
      · rw [processFrameBody_short hcurrent (Nat.lt_of_not_le hlen)] at h
        cases h
        exact .inl rfl

/-- A step accepts a frame, or changes nothing a frame can change. -/
theorem Leads.cases {s t : Impl} (h : Leads s t) :
    Same s t ∨ ∃ header payload, Accepts s t header payload := by
  cases h with
  | read more => exact .inl ⟨rfl, rfl, rfl, rfl⟩
  | preface _ h =>
      unfold prefaceStep at h
      split at h
      · cases h
      · split at h
        · cases h
        · cases h
          exact .inl ⟨rfl, rfl, rfl, rfl⟩
  | header h =>
      unfold receiveFrameHeader at h
      split at h
      · cases h
      · split at h
        · cases h
          exact .inl (Same.refl _)
        · split at h
          · cases h
            exact .inl ⟨rfl, rfl, rfl, rfl⟩
          · cases h
  | body h =>
      rcases processFrameBody_accepts h with rfl | haccepts
      · exact .inl (Same.refl _)
      · exact .inr haccepts

/-- Frames are only added to those handled. -/
theorem handled_grows {s t : Impl} (h : Passes s t) : s.handled <+: t.handled := by
  induction h with
  | refl => exact List.prefix_rfl
  | tail _ hstep ih =>
      rcases hstep.cases with hsame | ⟨header, payload, haccepts⟩
      · rwa [hsame.handled]
      · rw [haccepts.handled]
        exact ih.trans (List.prefix_append _ _)

/-- The states in which the frames handled so far were the last ones. -/
theorem passes_handled {s t : Impl} (h : Passes s t) {p : List (FrameHeader × Bytes)}
    (hfront : s.handled <+: p) (hp : p <+: t.handled) :
    ∃ u, Passes s u ∧ Passes u t ∧ u.handled = p := by
  induction h with
  | refl => exact ⟨s, .refl, .refl, hfront.eq_of_length_le hp.length_le⟩
  | tail hbefore hstep ih =>
      rcases hstep.cases with hsame | ⟨header, payload, haccepts⟩
      · rw [hsame.handled] at hp
        obtain ⟨u, hu, hut, heq⟩ := ih hp
        exact ⟨u, hu, hut.tail hstep, heq⟩
      · rw [haccepts.handled] at hp
        rcases List.prefix_concat_iff.mp hp with rfl | hp
        · exact ⟨_, hbefore.tail hstep, .refl, haccepts.handled⟩
        · obtain ⟨u, hu, hut, heq⟩ := ih hp
          exact ⟨u, hu, hut.tail hstep, heq⟩

/-- A whole frame received and accepted. -/
theorem passes_frame {s t : Impl} (hbuf : s.buf = []) (hcurrent : s.currentFrameHeader_ = none)
    {header : FrameHeader} {payload : Bytes}
    (hread : readFrameHeader (header.writeTo ++ payload) = .ok (header, payload))
    (hlen : header.length.toNat = payload.length)
    (hown : handler header { s with
      currentFrameHeader_ := some header, buf := payload
      handled := s.handled ++ [(header, payload)] } = .ok () t) (hkept : t.buf = payload) :
    Passes s { t with buf := [], currentFrameHeader_ := none } := by
  have hheader : receiveFrameHeader (s.feed (header.writeTo ++ payload)) =
      .ok () { s with currentFrameHeader_ := some header, buf := payload } := by
    have hsize : ¬ (header.writeTo ++ payload).length < FrameHeader.SIZE := by
      rw [List.length_append]
      exact Nat.not_lt.mpr (Nat.le_add_right 9 _)
    rw [receiveFrameHeader, Impl.feed, hbuf, List.nil_append, hcurrent, if_neg (by simp),
      if_neg hsize, hread]
  have hbody : processFrameBody { s with currentFrameHeader_ := some header, buf := payload } =
      .ok () { t with buf := [], currentFrameHeader_ := none } := by
    have htake : payload.take header.length.toNat = payload := List.take_of_length_le (by omega)
    rw [processFrameBody_eq rfl hlen.le, recorded, htake, Steady.bind_apply, hown]
    dsimp only
    rw [Steady.bind_apply, advance_eq (by rw [hkept]; exact hlen.le), hkept,
      List.drop_eq_nil_of_le hlen.ge]
    rfl
  exact .head (.read s _) (.head (.header hheader) (.single (.body hbody)))

/-! ## What is received passes through such states -/

theorem receiveFrame_passes {s t : Impl} {b : Bool} (h : receiveFrame s = .ok b t) :
    Passes s t := by
  -- once there is a header
  have hpending : ∀ {s : Impl} {header : FrameHeader}, s.currentFrameHeader_ = some header →
      receiveFrame s = .ok b t → Passes s t := by
    intro s header hcurrent h
    rw [receiveFrame_pending hcurrent] at h
    split at h
    · cases h
      exact .refl
    · cases hbody : processFrameBody s with
      | error e u =>
          rw [hbody] at h
          cases h
      | ok v u =>
          rw [hbody] at h
          cases h
          exact .single (.body hbody)
  cases hcurrent : s.currentFrameHeader_ with
  | some header => exact hpending hcurrent h
  | none =>
      rw [receiveFrame_between hcurrent, headerStep] at h
      by_cases hlen : s.buf.length < FrameHeader.SIZE
      · rw [if_pos hlen] at h
        cases h
        exact .refl
      · obtain ⟨header, hread⟩ := readFrameHeader_ok (Nat.le_of_not_lt hlen)
        rw [if_neg hlen, hread] at h
        refine .head (.header ?_) (hpending rfl h)
        rw [receiveFrameHeader, hcurrent, if_neg (by exact Bool.false_ne_true), if_neg hlen, hread]

theorem receiveFrames_passes {s t : Impl} {u : Unit} (h : receiveFrames s = .ok u t) :
    Passes s t := by
  have hloop : ∀ (turns : Nat) (s : Impl), receiveFrames_loop turns s = .ok u t → Passes s t := by
    intro turns
    induction turns with
    | zero =>
        intro s h
        cases h
        exact .refl
    | succ turns ih =>
        intro s h
        rw [receiveFrames_loop_eq] at h
        cases hframe : receiveFrame s with
        | error e s₁ =>
            rw [hframe] at h
            cases h
        | ok more s₁ =>
            rw [hframe] at h
            dsimp only at h
            split at h
            · exact (receiveFrame_passes hframe).trans (ih s₁ h)
            · cases h
              exact receiveFrame_passes hframe
  exact hloop (s.buf.length + 2) s h

theorem onInput_passes {s t : Impl} {u : Unit} (h : onInput s = .ok u t) : Passes s t := by
  rw [onInput_eq] at h
  by_cases hpreface : s.prefaceReceived_ = true
  · rw [if_pos hpreface] at h
    exact receiveFrames_passes h
  · rw [if_neg hpreface, receivePreface_eq] at h
    cases hverdict : prefaceStep s with
    | wait =>
        rw [hverdict] at h
        exact receiveFrames_passes h
    | fail s₁ e =>
        rw [hverdict] at h
        cases h
    | next s₁ =>
        rw [hverdict] at h
        refine .head (.preface (by simpa using hpreface) hverdict) ?_
        dsimp only at h
        cases hframes : receiveFrames s₁ with
        | error e s₂ =>
            rw [hframes] at h
            cases h
        | ok v s₂ =>
            rw [hframes] at h
            exact (receiveFrames_passes hframes).trans (receiveFrames_passes h)

/-- A connection that has read some pieces without an exception. -/
theorem run_passes : ∀ {pieces : List Bytes} {s t : Impl}, run pieces s = (t, none) →
    Passes s t := by
  intro pieces
  induction pieces with
  | nil =>
      intro s t h
      cases h
      exact .refl
  | cons piece pieces ih =>
      intro s t h
      rw [run] at h
      cases hinput : onInput (s.feed piece) with
      | error e u =>
          rw [hinput] at h
          cases h
      | ok v u =>
          rw [hinput] at h
          exact .head (.read s piece) ((onInput_passes hinput).trans (ih h))

theorem passes_run {pieces : List Bytes} {s : Impl} (h : (run pieces s).2 = none) :
    Passes s (run pieces s).1 := run_passes (Prod.ext rfl h)

end Shitty.Http2.ServerTransport
