import Shitty.Http2.Logic.Frame
import Shitty.Http2.Logic.Reads

/-!
# Frame boundaries

`processFrameBody` removes a frame's payload and nothing else, and so a list of frames
is handled frame by frame, exactly when no frame is a PING that asks for an answer and
no header is misread. Both directions are proved: where neither is there, every frame is
handled with its own payload, and from a run in which all are it follows that neither
was.
-/

namespace Shitty.Http2.ServerTransport

open Lib.Resumable

/-! ## Reachable states -/

/-- The states a transport passes through, reads included. -/
inductive Reachable : Impl → Prop
  | new (peerSettings_ : Settings) : Reachable (Impl.new peerSettings_)
  | read {s : Impl} (more : Bytes) : Reachable s → Reachable (s.feed more)
  | preface {s t : Impl} : Reachable s → s.prefaceReceived_ = false → prefaceStep s = .next t →
      Reachable t
  | header {s t : Impl} : Reachable s → receiveFrameHeader s = .ok () t → Reachable t
  | body {s t : Impl} : Reachable s → processFrameBody s = .ok () t → Reachable t

theorem idle_of_reachable {s : Impl} (h : Reachable s) : s.Idle := by
  induction h with
  | new _ =>
      intro p hp
      rw [List.mem_singleton.mp hp]
  | read _ _ ih => exact ih
  | preface _ hpreface hstep ih =>
      refine (@step_next (fun _ => False) 0 _ _ ih ?_).1
      rw [step, if_pos hpreface]
      exact hstep
  | header _ hstep ih =>
      unfold receiveFrameHeader at hstep
      split at hstep
      · cases hstep
      · split at hstep
        · cases hstep
          exact ih
        · split at hstep
          · cases hstep
            exact ih
          · cases hstep
  | body _ hstep ih =>
      rcases processFrameBody_ok ih hstep with rfl | ⟨header, -, hlen, hframe⟩
      · exact ih
      · refine frameStep_idle ?_ ih hframe
        rw [List.length_take]
        omega

/-! ## One frame -/

/-- A frame that is handled without an error leaves all but its payload, unless it
is a PING that asks for an answer. -/
theorem processFrameBody_removes_iff {s t : Impl} (hs : s.Idle) {header : FrameHeader}
    (hcurrent : s.currentFrameHeader_ = some header) (hlen : header.length.toNat ≤ s.buf.length)
    (hok : (record header >>= fun _ => handler header) s = .ok () t) :
    (∃ s', processFrameBody s = .ok () s' ∧ s'.buf = s.buf.drop header.length.toNat) ↔
      ¬ header.AsksPing := by
  have hdoes := processFrameBody_does hs hcurrent hlen Iff.rfl
  have hhandler : handler header (recorded header s) = .ok () t := hok
  constructor
  · rintro ⟨s', hbody, hbuf⟩ hping
    rw [hbody] at hdoes
    obtain ⟨u, -, ⟨hanswered, -⟩ | ⟨-, -, h8, rfl⟩⟩ := frameStep_next hdoes.ok
    · obtain ⟨e, herror⟩ := handler_refused hping hanswered (recorded header s)
      rw [herror] at hhandler
      cases hhandler
    · -- eight octets have been taken off twice
      have hlength := congrArg List.length hbuf
      simp only [List.length_drop] at hlength h8
      omega
  · intro hping
    have hanswered : ¬ header.Answered := fun h => hping h.1
    have hown := handler_recorded hs hlen hanswered
    rw [hhandler] at hown
    cases hresult : own header (s.buf.take header.length.toNat) s with
    | error e u =>
        rw [hresult] at hown
        cases hown
    | ok _ u =>
        rw [frameStep, hresult] at hdoes
        simp only [if_neg hanswered] at hdoes
        exact ⟨_, hdoes, rfl⟩

/-! ## A list of frames -/

/-- The frames on the wire, one behind the other. -/
def encode (frames : List (FrameHeader × Bytes)) : Bytes :=
  frames.flatMap fun f => f.1.writeTo ++ f.2

/-- The handlers, called for one frame after the other with nothing but its own
payload, raise no error. -/
def NoError : List (FrameHeader × Bytes) → Impl → Prop
  | [], _ => True
  | (header, payload) :: rest, s =>
      ∃ t, own header payload { s with currentFrameHeader_ := some header } = .ok () t ∧
        NoError rest { t with currentFrameHeader_ := none }

/-- What the frames do not go wrong on: no PING that asks for an answer, and no
header that is misread. -/
def Framed (frames : List (FrameHeader × Bytes)) : Prop :=
  ∀ f ∈ frames, Survives f.1.writeTo ∧ ¬ f.1.AsksPing

/-- Once each, in order, each with its own payload, and nothing is left. -/
def HandledAll (frames : List (FrameHeader × Bytes)) (s s' : Impl) : Prop :=
  s'.handled = s.handled ++ frames ∧ s'.buf = [] ∧ s'.currentFrameHeader_ = none

theorem noError_buf (fs : List (FrameHeader × Bytes)) (s : Impl) (buf : Bytes) :
    NoError fs { s with buf := buf } ↔ NoError fs s := by
  cases fs <;> exact Iff.rfl

theorem encode_cons (header : FrameHeader) (payload : Bytes) (fs : List (FrameHeader × Bytes)) :
    encode ((header, payload) :: fs) = header.writeTo ++ (payload ++ encode fs) := by
  rw [encode, List.flatMap_cons, List.append_assoc]
  rfl

variable {short : Nat → Prop} {received : Nat}

/-- A header that survives the signs of its octets is read in one step of the consumer. -/
theorem step_header {s : Impl} (hpreface : s.prefaceReceived_ = true)
    (hcurrent : s.currentFrameHeader_ = none) {header : FrameHeader} {rest : Bytes}
    (hbuf : s.buf = header.writeTo ++ rest) {header' : FrameHeader}
    (hread : readFrameHeader s.buf = .ok (header', rest)) :
    step short s received =
      .next { s with currentFrameHeader_ := some header', buf := rest } := by
  rw [step_between hpreface hcurrent, headerStep, if_neg, hread]
  rw [hbuf, List.length_append, length_writeTo]
  show ¬ 9 + rest.length < 9
  omega

/-- A payload of the right length handled without an error. -/
theorem step_body {s t : Impl} (hpreface : s.prefaceReceived_ = true) {header : FrameHeader}
    (hcurrent : s.currentFrameHeader_ = some header) {payload rest : Bytes}
    (hbuf : s.buf = payload ++ rest) (hlen : header.length.toNat = payload.length)
    (hping : ¬ header.Answered) (hown : own header payload s = .ok () t) :
    step short s received = .next { t with currentFrameHeader_ := none, buf := rest } := by
  rw [step_pending hpreface hcurrent, bodyStep, hbuf, hlen,
    if_neg (by rw [List.length_append]; omega), List.take_left, List.drop_left, frameStep, hown]
  simp only [if_neg hping]

/-- Frames nothing goes wrong on are handled one by one. -/
theorem drains_framed : ∀ (fs : List (FrameHeader × Bytes)) (s : Impl), s.Idle →
    s.prefaceReceived_ = true → s.currentFrameHeader_ = none → s.buf = encode fs →
    (∀ f ∈ fs, f.1.length.toNat = f.2.length) → NoError fs s → Framed fs →
    ∃ s', Drains (frames short) (s, received) ((s', received), none) ∧ HandledAll fs s s' := by
  intro fs
  induction fs with
  | nil =>
      intro s _ hpreface hcurrent hbuf _ _ _
      refine ⟨s, .wait ?_, (List.append_nil _).symm, hbuf, hcurrent⟩
      show (step short s received).beside received = .wait
      rw [step_between hpreface hcurrent, headerStep, hbuf]
      rfl
  | cons f fs ih =>
      obtain ⟨header, payload⟩ := f
      intro s hs hpreface hcurrent hbuf hlens herr hframed
      obtain ⟨t, hown, hrest⟩ := herr
      obtain ⟨hsurvives, hping⟩ := hframed _ List.mem_cons_self
      have hlen := hlens _ List.mem_cons_self
      have hanswered : ¬ header.Answered := fun h => hping h.1
      rw [encode_cons] at hbuf
      have hread : readFrameHeader s.buf = .ok (header, payload ++ encode fs) := by
        rw [hbuf]
        exact (readFrameHeader_writeTo header _).mpr hsurvives
      have hheader := @step_header short received s hpreface hcurrent _ _ hbuf _ hread
      have hbody := @step_body short received
        { s with currentFrameHeader_ := some header, buf := payload ++ encode fs }
        t hpreface _ rfl _ _ rfl hlen hanswered hown
      have hkept := own_kept hanswered hlen
        (show Impl.Idle { s with currentFrameHeader_ := some header } from hs)
      have hidle := own_idle hlen
        (show Impl.Idle { s with currentFrameHeader_ := some header } from hs)
      rw [hown] at hkept hidle
      obtain ⟨s', hdrains, hhandled, hempty, hnone⟩ :=
        ih { t with currentFrameHeader_ := none, buf := encode fs } hidle
          (hkept.preface.trans hpreface) rfl rfl (fun f hf => hlens f (List.mem_cons_of_mem _ hf))
          ((noError_buf fs _ _).mpr hrest) (fun f hf => hframed f (List.mem_cons_of_mem _ hf))
      refine ⟨s', .next (frames_next hheader) (.next (frames_next hbody) hdrains), ?_, hempty, hnone⟩
      rw [hhandled, show t.handled = s.handled ++ [(header, payload)] from hkept.handled,
        List.append_assoc]
      rfl

/-! ## Only those are handled one by one -/

/-- The octets handled, read as a header, and in the buffer. -/
def weight (s : Impl) : Nat :=
  (encode s.handled).length +
    (match s.currentFrameHeader_ with
      | none => 0
      | some _ => FrameHeader.SIZE) + s.buf.length

theorem length_encode_append (fs gs : List (FrameHeader × Bytes)) :
    (encode (fs ++ gs)).length = (encode fs).length + (encode gs).length := by
  rw [encode, List.flatMap_append, List.length_append]
  rfl

theorem length_encode_one (header : FrameHeader) (payload : Bytes) :
    (encode [(header, payload)]).length = FrameHeader.SIZE + payload.length := by
  rw [encode_cons, List.length_append, List.length_append, length_writeTo]
  rfl

theorem own_handled {header : FrameHeader} {payload : Bytes} {s t : Impl}
    (hlen : header.length.toNat = payload.length) (hs : s.Idle) {u : Unit}
    (h : own header payload s = .ok u t) : t.handled = s.handled ++ [(header, payload)] := by
  by_cases hanswered : header.Answered
  · rw [own_answered hanswered hlen] at h
    cases h
    rfl
  · have hkept := own_kept hanswered hlen hs
    rw [h] at hkept
    exact hkept.handled

/-- A frame that has been handled: what it adds, and the octets that are gone. -/
theorem step_body_next {s t : Impl} (hs : s.Idle) (hpreface : s.prefaceReceived_ = true)
    {header : FrameHeader} (hcurrent : s.currentFrameHeader_ = some header)
    (h : step short s received = .next t) :
    ∃ payload rest u, s.buf = payload ++ rest ∧ header.length.toNat = payload.length ∧
      own header payload s = .ok () u ∧ t.handled = s.handled ++ [(header, payload)] ∧
      t.currentFrameHeader_ = none ∧
      ((¬ header.Answered ∧ t = { u with buf := rest, currentFrameHeader_ := none }) ∨
        t.buf.length + 8 = rest.length) := by
  rw [step_pending hpreface hcurrent, bodyStep] at h
  split at h
  · cases h
  · rename_i hlen
    have hsize : header.length.toNat = (s.buf.take header.length.toNat).length := by
      rw [List.length_take]
      omega
    obtain ⟨u, hown, hnext⟩ := frameStep_next h
    have hhandled := own_handled hsize hs hown
    refine ⟨_, _, u, (List.take_append_drop _ _).symm, hsize, hown, ?_⟩
    rcases hnext with ⟨hanswered, rfl⟩ | ⟨-, -, h8, rfl⟩
    · exact ⟨hhandled, rfl, .inl ⟨hanswered, rfl⟩⟩
    · refine ⟨hhandled, rfl, .inr ?_⟩
      show ((s.buf.drop header.length.toNat).drop 8).length + 8 = _
      rw [List.length_drop]
      omega

/-- Frames are only added to those handled, and octets are only lost. -/
theorem step_grows {s t : Impl} (hs : s.Idle) (hpreface : s.prefaceReceived_ = true)
    (h : step short s received = .next t) : s.handled <+: t.handled ∧ weight t ≤ weight s := by
  cases hcurrent : s.currentFrameHeader_ with
  | none =>
      rw [step_between hpreface hcurrent, headerStep] at h
      split at h
      · cases h
      · rename_i hlen
        obtain ⟨header, hread⟩ := readFrameHeader_ok (Nat.le_of_not_lt hlen)
        rw [hread] at h
        cases h
        refine ⟨List.prefix_rfl, ?_⟩
        simp only [weight, hcurrent, List.length_drop]
        omega
  | some header =>
      obtain ⟨payload, rest, u, hbuf, -, -, hhandled, hnone, hor⟩ :=
        step_body_next hs hpreface hcurrent h
      have hle : t.buf.length ≤ rest.length := by
        rcases hor with ⟨-, rfl⟩ | hor
        · exact Nat.le_refl _
        · omega
      refine ⟨hhandled ▸ List.prefix_append _ _, ?_⟩
      simp only [weight, hcurrent, hnone, hhandled, hbuf, length_encode_append, length_encode_one,
        List.length_append]
      omega

theorem reaches_grows {x y : Impl × Nat} (h : Reaches (frames short) x y) (hs : x.1.Idle)
    (hpreface : x.1.prefaceReceived_ = true) :
    x.1.handled <+: y.1.handled ∧ weight y.1 ≤ weight x.1 := by
  induction h using Relation.ReflTransGen.head_induction_on with
  | refl => exact ⟨List.prefix_rfl, Nat.le_refl _⟩
  | head hstep _ ih =>
      obtain ⟨hnext, -⟩ := of_frames_next hstep
      obtain ⟨hidle, hpreface', -⟩ := step_next hs hnext
      obtain ⟨hgrows, hweight⟩ := step_grows hs hpreface hnext
      obtain ⟨hgrows', hweight'⟩ := ih hidle hpreface'
      exact ⟨hgrows.trans hgrows', Nat.le_trans hweight' hweight⟩

/-- A frame that was handled where it should not be answered is no PING. -/
theorem not_asksPing_of_own {header : FrameHeader} {payload : Bytes} {s t : Impl} {u : Unit}
    (hown : own header payload s = .ok u t) (hanswered : ¬ header.Answered) :
    ¬ header.AsksPing := by
  intro hping
  obtain ⟨e, herror⟩ := handler_refused hping hanswered
    { s with buf := payload, handled := s.handled ++ [(header, payload)] }
  rw [own, herror] at hown
  cases hown

/-- Where the first frame of a list has been handled, the octets of those that will be are
still there. -/
theorem encode_le_buf {f : FrameHeader × Bytes} {fs : List (FrameHeader × Bytes)} {s s' t : Impl}
    (hall : HandledAll (f :: fs) s s') (hadded : t.handled = s.handled ++ [f])
    (hnone : t.currentFrameHeader_ = none) (hweight : weight s' ≤ weight t) :
    (encode fs).length ≤ t.buf.length := by
  obtain ⟨hhandled, hempty, hnone'⟩ := hall
  simp only [weight, hnone, hnone', hempty, hhandled, hadded] at hweight
  rw [← List.singleton_append, length_encode_append, length_encode_append,
    length_encode_append, List.length_nil] at hweight
  omega

theorem framed_of_drains : ∀ (fs : List (FrameHeader × Bytes)) (s s' : Impl), s.Idle →
    s.prefaceReceived_ = true → s.currentFrameHeader_ = none → s.buf = encode fs →
    NoError fs s → Drains (frames short) (s, received) ((s', received), none) →
    HandledAll fs s s' → Framed fs := by
  intro fs
  induction fs with
  | nil => exact fun _ _ _ _ _ _ _ _ _ f hf => absurd hf List.not_mem_nil
  | cons f fs ih =>
      obtain ⟨header, payload⟩ := f
      intro s s' hs hpreface hcurrent hbuf herr hdrains hall
      obtain ⟨t, hown, hrest⟩ := herr
      rw [encode_cons] at hbuf
      have hlong : FrameHeader.SIZE ≤ s.buf.length := by
        rw [hbuf, List.length_append, length_writeTo]
        exact Nat.le_add_right 9 _
      obtain ⟨header', hread⟩ := readFrameHeader_ok hlong
      rw [show s.buf.drop FrameHeader.SIZE = payload ++ encode fs by
        rw [hbuf]; exact List.drop_left' (length_writeTo header)] at hread
      -- the header is read, and then the frame is handled
      have hheader := @step_header short received s hpreface hcurrent _ _ hbuf _ hread
      have hdrains' := hdrains.of_next (frames_next hheader)
      obtain ⟨hhandled, hempty, hnone⟩ := hall
      have hidle : Impl.Idle { s with
          currentFrameHeader_ := some header', buf := payload ++ encode fs } := hs
      cases hdrains' with
      | wait _ => cases hnone
      | next hnext hdrains₂ =>
          rename_i y
          obtain ⟨x, r⟩ := y
          obtain ⟨hstep, hreceived⟩ := of_frames_next hnext
          cases hreceived
          change step short _ received = .next x at hstep
          obtain ⟨payload', rest', u, hsplit, hlen', hown', hadded, hnone', hor⟩ :=
            step_body_next hidle hpreface rfl hstep
          obtain ⟨hidle', hpreface', -⟩ := step_next hidle hstep
          obtain ⟨y, hreaches, ⟨heq, -⟩ | ⟨_, _, heq, -⟩⟩ := hdrains₂.reaches
          swap
          · cases heq
          obtain ⟨hgrows, hweight⟩ := reaches_grows hreaches hidle' hpreface'
          cases heq
          -- what was handled first is the first frame of the list
          simp only at hadded hgrows
          rw [hadded, hhandled, List.prefix_append_right_inj, List.cons_prefix_cons] at hgrows
          obtain ⟨hfirst, -⟩ := hgrows
          cases hfirst
          have hrest' := List.append_cancel_left hsplit
          have hsurvives : Survives header.writeTo := by
            refine (readFrameHeader_writeTo header (payload ++ encode fs)).mp ?_
            rw [← hbuf]
            exact hread
          have hsame : own header payload { s with currentFrameHeader_ := some header } = .ok () u :=
            hown'
          rw [hown] at hsame
          cases hsame
          rcases hor with ⟨hanswered, hx⟩ | hlost
          · have hping := not_asksPing_of_own hown hanswered
            have hframed := ih x s' hidle' hpreface' hnone' (by rw [hx]; exact hrest'.symm)
              (by rw [hx]; exact (noError_buf fs _ _).mpr hrest)
              hdrains₂ ⟨by rw [hhandled, hadded, List.append_assoc]; rfl, hempty, hnone⟩
            intro f hf
            rcases List.mem_cons.mp hf with rfl | hf
            · exact ⟨hsurvives, hping⟩
            · exact hframed f hf
          · -- octets that are gone cannot have been handled
            have hleft := encode_le_buf ⟨hhandled, hempty, hnone⟩ hadded hnone' hweight
            rw [hrest'] at hleft
            omega

/-! ## Both -/

/-- The transport reads a list of frames, received in whatever pieces. -/
theorem run_frames_iff {s : Impl} (hs : s.Idle) (hpreface : s.prefaceReceived_ = true)
    (hcurrent : s.currentFrameHeader_ = none) (hempty : s.buf = [])
    {fs : List (FrameHeader × Bytes)} (hlens : ∀ f ∈ fs, f.1.length.toNat = f.2.length)
    (herr : NoError fs s) {pieces : List Bytes} (hpieces : pieces.flatten = encode fs) :
    (∃ s', run pieces s = (s', none) ∧ HandledAll fs s s') ↔ Framed fs := by
  have hneed : need s = FrameHeader.SIZE := by
    rw [need, if_neg (by rw [hpreface]; exact fun h => Bool.false_ne_true h.symm), hcurrent]
  have hbetween : Between s 0 := by
    refine ⟨hs, by rw [hempty]; exact Nat.le_refl 0, ?_, ?_⟩
    · rw [hneed, hempty]
      decide
    · rw [hpreface]
      exact fun h => absurd h.symm Bool.false_ne_true
  have hdrains := @run_drains pieces s hbetween
    fun h => absurd (h.symm.trans hpreface) Bool.false_ne_true
  have hbuf : (s.feed pieces.flatten).buf = encode fs := by
    rw [Impl.feed, hempty, hpieces]
    rfl
  have herr' := (noError_buf fs s (s.buf ++ pieces.flatten)).mpr herr
  constructor
  · rintro ⟨s', hrun, hall⟩
    rw [hrun] at hdrains
    exact framed_of_drains fs (s.feed pieces.flatten) s' hs hpreface hcurrent hbuf herr' hdrains hall
  · intro hframed
    obtain ⟨s', hdrains', hall⟩ :=
      drains_framed fs (s.feed pieces.flatten) hs hpreface hcurrent hbuf hlens herr' hframed
    have hunique := hdrains.unique hdrains'
    simp only [Prod.mk.injEq, and_true] at hunique
    exact ⟨s', Prod.ext hunique.1 hunique.2, hall⟩

/-- Frame boundaries are preserved, in every reachable state, exactly by frames
that are no PINGs asking for an answer, and in a list of frames exactly where no
header is misread either. -/
theorem frame_boundaries_iff {s : Impl} (hs : Reachable s) :
    (∀ header t, s.currentFrameHeader_ = some header → header.length.toNat ≤ s.buf.length →
      (record header >>= fun _ => handler header) s = .ok () t →
        ((∃ s', processFrameBody s = .ok () s' ∧ s'.buf = s.buf.drop header.length.toNat) ↔
          ¬ header.AsksPing)) ∧
      ∀ fs : List (FrameHeader × Bytes), s.prefaceReceived_ = true →
        s.currentFrameHeader_ = none → s.buf = [] →
        (∀ f ∈ fs, f.1.length.toNat = f.2.length) → NoError fs s →
        ∀ pieces : List Bytes, pieces.flatten = encode fs →
          ((∃ s', run pieces s = (s', none) ∧ HandledAll fs s s') ↔ Framed fs) :=
  ⟨fun _ _ hcurrent hlen hok =>
      processFrameBody_removes_iff (idle_of_reachable hs) hcurrent hlen hok,
    fun _ hpreface hcurrent hempty hlens herr _ hpieces =>
      run_frames_iff (idle_of_reachable hs) hpreface hcurrent hempty hlens herr hpieces⟩

/-- A transport that has read some octets behind the preface. -/
def afterPreface (octets : Bytes) : Impl :=
  { Impl.new {} with prefaceReceived_ := true, buf := octets }

theorem reachable_afterPreface (octets : Bytes) : Reachable (afterPreface octets) :=
  .preface (.read (CLIENT_PREFACE ++ octets) (.new {})) rfl rfl

/-- A WINDOW_UPDATE for the connection, with an increment of one. -/
def windowUpdate : FrameHeader × Bytes :=
  ({ type := FrameType.WINDOW_UPDATE, length := 4 }, [0, 0, 0, 1])

/-- A frame of a type that is not known, and no payload of which is looked at. -/
def unknownFrame : FrameHeader × Bytes := ({ type := 0xee, length := 3 }, [1, 2, 3])

/-- A header that is cut in two, and a payload. -/
def threeFrames : List (FrameHeader × Bytes) := [windowUpdate, unknownFrame, windowUpdate]

def cutFrames : List Bytes :=
  [(encode threeFrames).take 17, ((encode threeFrames).drop 17).take 6,
    (encode threeFrames).drop 23]

theorem frame_boundaries_three :
    ∃ s', run cutFrames (afterPreface []) = (s', none) ∧
      HandledAll threeFrames (afterPreface []) s' := by
  refine ((frame_boundaries_iff (reachable_afterPreface [])).2 threeFrames rfl rfl rfl ?_
    ⟨_, rfl, _, rfl, _, rfl, trivial⟩ cutFrames (by decide)).mpr ?_
  · decide
  · intro f hf
    simp only [threeFrames, List.mem_cons, List.not_mem_nil, or_false] at hf
    rcases hf with rfl | rfl | rfl <;> decide

/-- Behind a PING, the header of the next frame is gone with the payload. -/
theorem processFrameBody_ping :
    ¬ ∀ (s t : Impl) (header : FrameHeader), Reachable s → s.currentFrameHeader_ = some header →
      header.length.toNat ≤ s.buf.length →
      (record header >>= fun _ => handler header) s = .ok () t →
      ∃ s', processFrameBody s = .ok () s' ∧ s'.buf = s.buf.drop header.length.toNat := by
  intro h
  have hping : Reachable { afterPreface ([1, 2, 3, 4, 5, 6, 7, 8] ++ windowUpdate.1.writeTo) with
      currentFrameHeader_ := some { type := FrameType.PING, length := 8 } } :=
    .header (reachable_afterPreface (({ type := FrameType.PING, length := 8 } : FrameHeader).writeTo ++
      ([1, 2, 3, 4, 5, 6, 7, 8] ++ windowUpdate.1.writeTo))) rfl
  obtain ⟨s', hbody, hbuf⟩ := h _ _ _ hping rfl (by decide) rfl
  cases hbody
  exact absurd hbuf (by decide)

end Shitty.Http2.ServerTransport
