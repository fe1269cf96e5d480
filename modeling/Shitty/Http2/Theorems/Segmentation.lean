import Shitty.Http2.Logic.Reads

/-!
# Segmentation

Two ways of cutting a client's stream make no difference exactly when either
both or neither of them end a read within the preface, where nine octets of it
are there already, and, if neither does, the same happens behind every PING that
is answered.
-/

namespace Shitty.Http2.ServerTransport

open Lib.Resumable

variable {short short' : Nat → Prop} {received : Nat} {s t : Impl}

/-! ## What depends on the offsets -/

/-- A PING to be answered has been received and ends at offset `p`. -/
def AnsweredAt (x : Impl × Nat) (p : Nat) : Prop :=
  ∃ header, x.1.prefaceReceived_ = true ∧ x.1.currentFrameHeader_ = some header ∧
    header.Answered ∧ header.length.toNat ≤ x.1.buf.length ∧
    x.2 - (x.1.buf.length - header.length.toNat) = p

theorem frameStep_congr {a b : Prop} {header : FrameHeader} (payload rest : Bytes) (s : Impl)
    (h : header.Answered → (a ↔ b)) :
    frameStep a header payload rest s = frameStep b header payload rest s := by
  unfold frameStep
  cases own header payload s with
  | error e t => rfl
  | ok u t =>
      by_cases hanswered : header.Answered
      · rw [propext (h hanswered)]
      · simp only [if_neg hanswered]

/-- Steps differ only at the end of an answered PING. -/
theorem step_congr (h : ∀ p, AnsweredAt (s, received) p → (short p ↔ short' p)) :
    step short s received = step short' s received := by
  cases hpreface : s.prefaceReceived_ with
  | false => rw [step, step, if_pos hpreface, if_pos hpreface]
  | true =>
      cases hcurrent : s.currentFrameHeader_ with
      | none => rw [step_between hpreface hcurrent, step_between hpreface hcurrent]
      | some header =>
          rw [step_pending hpreface hcurrent, step_pending hpreface hcurrent]
          by_cases hlen : s.buf.length < header.length.toNat
          · rw [bodyStep, bodyStep, if_pos hlen, if_pos hlen]
          · rw [bodyStep, bodyStep, if_neg hlen, if_neg hlen]
            exact frameStep_congr _ _ _ fun hanswered =>
              h _ ⟨header, hpreface, hcurrent, hanswered, Nat.le_of_not_lt hlen, rfl⟩

/-- The step at the end of an answered PING. -/
theorem step_answered {p : Nat} (h : AnsweredAt (s, received) p) :
    ∃ (rest : Bytes) (u : Impl), ∀ short : Nat → Prop,
      (short p → step short s received = .fail { u with buf := rest } tooShort) ∧
        (¬ short p → step short s received = .wait ∨
          ∃ t, step short s received = .next t ∧ t.buf.length + 8 = rest.length) := by
  obtain ⟨header, hpreface, hcurrent, hanswered, hlen, hp⟩ := h
  have hsize : header.length.toNat = (s.buf.take header.length.toNat).length := by
    rw [List.length_take]
    exact (Nat.min_eq_left hlen).symm
  obtain ⟨u, hown⟩ : ∃ u, own header (s.buf.take header.length.toNat) s = .ok () u :=
    ⟨_, own_answered hanswered hsize⟩
  refine ⟨s.buf.drop header.length.toNat, u, fun short => ?_⟩
  have hstep : step short s received = frameStep (short p) header
      (s.buf.take header.length.toNat) (s.buf.drop header.length.toNat) s := by
    rw [step_pending hpreface hcurrent, bodyStep, if_neg (Nat.not_lt.mpr hlen), ← hp]
  rw [hstep, frameStep, hown]
  simp only [if_pos hanswered]
  constructor
  · intro hshort
    rw [if_pos hshort]
  · intro hshort
    rw [if_neg hshort]
    by_cases h8 : (s.buf.drop header.length.toNat).length < 8
    · exact .inl (if_pos h8)
    · refine .inr ⟨_, if_neg h8, ?_⟩
      rw [List.length_drop]
      omega

/-- A failure leaves the octets where they are, or takes some off. -/
theorem step_fail {e : Exn} (hs : s.Idle) (h : step short s received = .fail t e) :
    t.buf.length ≤ s.buf.length ∧ t.prefaceReceived_ = s.prefaceReceived_ := by
  cases hpreface : s.prefaceReceived_ with
  | false =>
      rw [step, if_pos hpreface, prefaceStep] at h
      split at h
      · cases h
      · split at h
        · cases h
          exact ⟨Nat.le_refl _, hpreface⟩
        · cases h
  | true =>
      cases hcurrent : s.currentFrameHeader_ with
      | none =>
          rw [step_between hpreface hcurrent, headerStep] at h
          split at h
          · cases h
          · rename_i hlen
            obtain ⟨header, hread⟩ := readFrameHeader_ok (Nat.le_of_not_lt hlen)
            rw [hread] at h
            cases h
      | some header =>
          rw [step_pending hpreface hcurrent, bodyStep] at h
          split at h
          · cases h
          · rename_i hlen
            have hsize : header.length.toNat = (s.buf.take header.length.toNat).length := by
              rw [List.length_take]
              omega
            obtain ⟨u, ⟨hown, rfl⟩ | ⟨hown, hanswered, -, -, rfl⟩⟩ := frameStep_fail h
            · -- the handler has thrown, and the frame is back in the buffer
              have hanswered : ¬ header.Answered := by
                intro hanswered
                rw [own_answered hanswered hsize] at hown
                cases hown
              have hkept := own_kept hanswered hsize hs
              rw [hown] at hkept
              refine ⟨?_, hkept.preface.trans hpreface⟩
              show (_ ++ _ : Bytes).length ≤ _
              rw [List.take_append_drop]
            · rw [own_answered hanswered hsize] at hown
              cases hown
              refine ⟨?_, hpreface⟩
              show (s.buf.drop header.length.toNat).length ≤ _
              rw [List.length_drop]
              omega

theorem reaches_idle {x y : Impl × Nat} (h : Reaches (frames short) x y) (hs : x.1.Idle) :
    y.1.Idle ∧ y.2 = x.2 ∧ y.1.buf.length ≤ x.1.buf.length ∧
      (x.1.prefaceReceived_ = true → y.1.prefaceReceived_ = true) := by
  induction h using Relation.ReflTransGen.head_induction_on with
  | refl => exact ⟨hs, rfl, Nat.le_refl _, id⟩
  | head hstep _ ih =>
      obtain ⟨hnext, hreceived⟩ := of_frames_next hstep
      obtain ⟨hidle, hpreface, hlen⟩ := step_next hs hnext
      obtain ⟨hidle', hreceived', hlen', hpreface'⟩ := ih hidle
      exact ⟨hidle', hreceived'.trans hreceived, by omega, fun _ => hpreface' hpreface⟩

/-- Octets are never put back, and the preface stays received. -/
theorem drains_idle {x : Impl × Nat} {o : (Impl × Nat) × Option Exn}
    (h : Drains (frames short) x o) (hs : x.1.Idle) :
    o.1.1.buf.length ≤ x.1.buf.length ∧
      (x.1.prefaceReceived_ = true → o.1.1.prefaceReceived_ = true) := by
  obtain ⟨y, hreaches, ⟨rfl, -⟩ | ⟨z, e, rfl, hfail⟩⟩ := h.reaches
  · obtain ⟨-, -, hlen, hpreface⟩ := reaches_idle hreaches hs
    exact ⟨hlen, hpreface⟩
  · obtain ⟨hidle, -, hlen, hpreface⟩ := reaches_idle hreaches hs
    obtain ⟨hlen', hpreface'⟩ := step_fail hidle (of_frames_fail hfail).1
    exact ⟨Nat.le_trans hlen' hlen, fun hx => hpreface'.trans (hpreface hx)⟩

/-- At an answered PING, different offsets make different outcomes. -/
theorem same_at_answered {x : Impl × Nat} {o : (Impl × Nat) × Option Exn} (hs : x.1.Idle)
    (h : Drains (frames short) x o) (h' : Drains (frames short') x o) {p : Nat}
    (hp : AnsweredAt x p) (hshort : short p) : short' p := by
  obtain ⟨s, received⟩ := x
  obtain ⟨rest, u, hstep⟩ := step_answered hp
  by_contra hnot
  have hfails := frames_fail ((hstep short).1 hshort)
  have ho := h.unique (.fail hfails)
  rcases (hstep short').2 hnot with hwait | ⟨t, hnext, hlen⟩
  · have ho' := h'.unique (.wait (frames_wait hwait))
    rw [ho] at ho'
    cases ho'
  · have hdrains := h'.of_next (frames_next hnext)
    obtain ⟨hidle, -, -⟩ := step_next hs hnext
    obtain ⟨hle, -⟩ := drains_idle hdrains hidle
    rw [ho] at hle
    change rest.length ≤ t.buf.length at hle
    omega

/-- The outcome is the same for two sets of offsets exactly when they agree on every
answered PING that is met. -/
theorem drains_eq_iff {x : Impl × Nat} {o o' : (Impl × Nat) × Option Exn} (hs : x.1.Idle)
    (h : Drains (frames short) x o) (h' : Drains (frames short') x o') :
    o = o' ↔ ∀ y p, Reaches (frames short) x y → AnsweredAt y p → (short p ↔ short' p) := by
  have hsame : ∀ t : Impl × Nat, (∀ p, AnsweredAt t p → (short p ↔ short' p)) →
      (frames short').step t = (frames short).step t := by
    intro t ht
    show (step short' t.1 t.2).beside t.2 = (step short t.1 t.2).beside t.2
    rw [step_congr ht]
  constructor
  · rintro rfl y p hy hp
    have hboth := h.together h' (fun t ht hd hd' => hsame t fun p hp =>
      have hidle := (reaches_idle ht hs).1
      ⟨same_at_answered hidle hd hd' hp, same_at_answered hidle hd' hd hp⟩) y hy
    have hidle := (reaches_idle hy hs).1
    exact ⟨same_at_answered hidle hboth.1 hboth.2 hp, same_at_answered hidle hboth.2 hboth.1 hp⟩
  · intro hall
    exact (h.congr fun t ht => hsame t fun p hp => hall t p ht hp).unique h'

/-! ## Within the preface -/

/-- The header the code makes of the preface's first nine octets. -/
def misread : FrameHeader where
  length := 0x505249
  type := 0x20
  flags := 0x2a
  reserved := 0
  streamId := 0x20485454

/-- Waiting for a payload that never comes, with the rest of the preface next. -/
structure Misled (s : Impl) : Prop where
  preface : s.prefaceReceived_ = false
  current : s.currentFrameHeader_ = some misread

/-- As long as there is less than the preface's length, nothing happens. -/
theorem onInput_misled {s : Impl} (h : Misled s) (hlen : s.buf.length < CLIENT_PREFACE.length) :
    onInput s = .ok () s := by
  have hframes : receiveFrames s = .ok () s := by
    show receiveFrames_loop (s.buf.length + 1 + 1) s = _
    rw [receiveFrames_loop_eq, receiveFrame_pending h.current, if_pos]
    · exact if_neg fun h => Bool.false_ne_true h.1
    · exact Nat.lt_trans hlen (by decide)
  rw [onInput_eq, if_neg (by rw [h.preface]; exact Bool.false_ne_true), receivePreface_eq,
    prefaceStep, if_pos hlen]
  exact hframes

/-- When there is more, it is taken for a wrong preface. -/
theorem onInput_misled_fails {s : Impl} (h : Misled s)
    (hlen : CLIENT_PREFACE.length ≤ s.buf.length)
    (hne : s.buf.take CLIENT_PREFACE.length ≠ CLIENT_PREFACE) :
    onInput s = .error (.runtime_error "Invalid connection preface") s := by
  rw [onInput_eq, if_neg (by rw [h.preface]; exact Bool.false_ne_true), receivePreface_eq,
    prefaceStep, if_neg (Nat.not_lt.mpr hlen), if_pos hne]

/-- What the connection then comes to, with these octets from the ninth on. -/
def misledOutcome (s : Impl) (octets : Bytes) : Impl × Option Exn :=
  ({ s with currentFrameHeader_ := some misread, buf := octets },
    if octets.length < CLIENT_PREFACE.length then none
    else some (.runtime_error "Invalid connection preface"))

theorem run_misled : ∀ (pieces : List Bytes) (s : Impl) (rest : Bytes), Misled s →
    s.buf.length < CLIENT_PREFACE.length →
    s.buf ++ pieces.flatten = CLIENT_PREFACE.drop FrameHeader.SIZE ++ rest →
    run pieces s = misledOutcome s (s.buf ++ pieces.flatten) := by
  intro pieces
  induction pieces with
  | nil =>
      intro s rest h hlen _
      rw [List.flatten_nil, List.append_nil, misledOutcome, if_pos hlen, ← h.current]
      rfl
  | cons piece pieces ih =>
      intro s rest h hlen hbuf
      have hsplit : (s.feed piece).buf ++ pieces.flatten =
          s.buf ++ (piece :: pieces).flatten := by
        rw [List.flatten_cons, ← List.append_assoc]
        rfl
      have hmisled : Misled (s.feed piece) := ⟨h.preface, h.current⟩
      by_cases hlen' : (s.feed piece).buf.length < CLIENT_PREFACE.length
      · rw [run, onInput_misled hmisled hlen', ← hsplit]
        exact ih (s.feed piece) rest hmisled hlen' (hsplit.trans hbuf)
      · have hne : (s.feed piece).buf.take CLIENT_PREFACE.length ≠ CLIENT_PREFACE := by
          intro heq
          -- the second octets differ
          have htake := congrArg (List.take 2) hbuf
          rw [← hsplit, List.take_append_of_le_length
            (Nat.le_trans (by decide) (Nat.le_of_not_lt hlen')),
            List.take_append_of_le_length (by decide)] at htake
          have htake' := congrArg (List.take 2) heq
          rw [List.take_take, show min 2 CLIENT_PREFACE.length = 2 from rfl, htake] at htake'
          exact absurd htake' (by decide)
        rw [run, onInput_misled_fails hmisled (Nat.le_of_not_lt hlen') hne, misledOutcome, if_neg,
          ← hsplit, ← h.current]
        · rfl
        · rw [← hsplit, List.length_append]
          omega

/-- The read that ends within the preface. -/
theorem onInput_misleads {s : Impl} (hpreface : s.prefaceReceived_ = false)
    (hcurrent : s.currentFrameHeader_ = none) (hlen : FrameHeader.SIZE ≤ s.buf.length)
    (hlen' : s.buf.length < CLIENT_PREFACE.length)
    (htake : s.buf.take FrameHeader.SIZE = CLIENT_PREFACE.take FrameHeader.SIZE) :
    onInput s = .ok ()
      { s with currentFrameHeader_ := some misread, buf := s.buf.drop FrameHeader.SIZE } := by
  have hread : readFrameHeader s.buf = .ok (misread, s.buf.drop FrameHeader.SIZE) := by
    have hfirst : readFrameHeader (CLIENT_PREFACE.take FrameHeader.SIZE) = .ok (misread, []) := by
      decide
    rw [← List.take_append_drop FrameHeader.SIZE s.buf, htake,
      readFrameHeader_append _ (by decide), hfirst,
      List.drop_left' (show (CLIENT_PREFACE.take FrameHeader.SIZE).length = FrameHeader.SIZE by rfl)]
    rfl
  have hstep : headerStep s = .next
      { s with currentFrameHeader_ := some misread, buf := s.buf.drop FrameHeader.SIZE } := by
    rw [headerStep, if_neg (Nat.not_lt.mpr hlen), hread]
  have hframes : receiveFrames s = .ok ()
      { s with currentFrameHeader_ := some misread, buf := s.buf.drop FrameHeader.SIZE } := by
    show receiveFrames_loop (s.buf.length + 1 + 1) s = _
    rw [receiveFrames_loop_eq, receiveFrame_between hcurrent, hstep]
    simp only
    rw [receiveFrame_pending rfl, if_pos]
    · exact if_neg fun h => Bool.false_ne_true h.1
    · show (s.buf.drop FrameHeader.SIZE).length < misread.length.toNat
      have hsize : misread.length.toNat = 5263945 := by decide
      have hsize' : CLIENT_PREFACE.length = 24 := rfl
      rw [List.length_drop]
      omega
  rw [onInput_eq, if_neg (by rw [hpreface]; exact Bool.false_ne_true), receivePreface_eq,
    prefaceStep, if_pos hlen']
  exact hframes

theorem run_cut_preface (s : Impl) (hpreface : s.prefaceReceived_ = false)
    (hcurrent : s.currentFrameHeader_ = none) (hempty : s.buf = []) {pieces : List Bytes}
    {rest : Bytes} (hpieces : pieces.flatten = CLIENT_PREFACE ++ rest) {c : Nat}
    (hc : ReadUpTo pieces c) (hle : FrameHeader.SIZE ≤ c) (hlt : c < CLIENT_PREFACE.length) :
    ∀ todo front : List Bytes, front ++ todo = pieces → front.flatten.length < FrameHeader.SIZE →
      run todo (s.feed front.flatten) =
        misledOutcome s (CLIENT_PREFACE.drop FrameHeader.SIZE ++ rest) := by
  intro todo
  induction todo with
  | nil =>
      intro front hsplit hfront
      have hlength := congrArg List.length hpieces
      rw [← hsplit, List.append_nil, List.length_append] at hlength
      have hsize : FrameHeader.SIZE < CLIENT_PREFACE.length := by decide
      omega
  | cons piece todo ih =>
      intro front hsplit hfront
      have hsplit' : front ++ [piece] ++ todo = pieces := by
        rw [List.append_assoc]
        exact hsplit
      have hflatten : (front ++ [piece]).flatten = front.flatten ++ piece := by
        simp
      have hfeed : (s.feed front.flatten).feed piece = s.feed (front ++ [piece]).flatten := by
        rw [feed_feed, hflatten]
      have hbuf : (s.feed (front ++ [piece]).flatten).buf = (front ++ [piece]).flatten := by
        rw [Impl.feed, hempty]
        rfl
      rw [run, hfeed]
      by_cases hshort : (front ++ [piece]).flatten.length < FrameHeader.SIZE
      · rw [onInput_waiting (s := s.feed (front ++ [piece]).flatten) hpreface hcurrent
          (by rw [hbuf]; exact hshort)]
        exact ih (front ++ [piece]) hsplit' hshort
      · -- this read ends no later than the one that is known to end too early
        have hread : (front ++ [piece]).flatten.length ≤ c := by
          rcases readUpTo_between (by rw [← hsplit] at hc; exact hc) with h | h
          · omega
          · exact h
        have htail : (front ++ [piece]).flatten ++ todo.flatten = CLIENT_PREFACE ++ rest := by
          rw [← hpieces, ← hsplit']
          exact List.flatten_append.symm
        have hle' := Nat.le_of_not_lt hshort
        have htake := congrArg (List.take FrameHeader.SIZE) htail
        rw [List.take_append_of_le_length hle', List.take_append_of_le_length (by decide)] at htake
        have hdrop := congrArg (List.drop FrameHeader.SIZE) htail
        rw [List.drop_append_of_le_length hle', List.drop_append_of_le_length (by decide)] at hdrop
        rw [onInput_misleads (s := s.feed (front ++ [piece]).flatten) hpreface hcurrent
          (by rw [hbuf]; exact hle') (by rw [hbuf]; omega) (by rw [hbuf]; exact htake), hbuf]
        have hrun := run_misled todo
          { s with
            currentFrameHeader_ := some misread
            buf := (front ++ [piece]).flatten.drop FrameHeader.SIZE }
          rest ⟨hpreface, rfl⟩ (by
            show ((front ++ [piece]).flatten.drop FrameHeader.SIZE).length < _
            rw [List.length_drop]
            omega) hdrop
        rw [show _ ++ todo.flatten = _ from hdrop] at hrun
        exact hrun

/-! ## Segmentation -/

/-- A PING that is answered ends at offset `p` of the stream cut into these
pieces: read frame by frame, with eight octets lost behind each PING that is
answered. -/
def AnswersAt (peerSettings_ : Settings) (pieces : List Bytes) (p : Nat) : Prop :=
  ∃ x, Reaches (frames (EndsBehind pieces))
    ((Impl.new peerSettings_).feed pieces.flatten, pieces.flatten.length) x ∧ AnsweredAt x p

theorem between_new (peerSettings_ : Settings) : Between (Impl.new peerSettings_) 0 where
  idle p hp := by rw [List.mem_singleton.mp hp]
  inside := Nat.le_refl 0
  waits := by
    show 0 < CLIENT_PREFACE.length
    decide
  untouched _ := ⟨rfl, rfl⟩

/-- The preface is received when no read ends within it. -/
theorem preface_received (peerSettings_ : Settings) {pieces : List Bytes} {rest : Bytes}
    (hpieces : pieces.flatten = CLIENT_PREFACE ++ rest) (hspares : SparesPreface pieces) :
    (run pieces (Impl.new peerSettings_)).1.prefaceReceived_ = true := by
  have hdrains := @run_drains pieces _ (between_new peerSettings_) fun _ => hspares
  have hstep : step (EndsBehind pieces) ((Impl.new peerSettings_).feed pieces.flatten)
      pieces.flatten.length = .next { Impl.new peerSettings_ with
        prefaceReceived_ := true, buf := rest } := by
    rw [hpieces]
    show prefaceStep { Impl.new peerSettings_ with buf := CLIENT_PREFACE ++ rest } = _
    rw [prefaceStep, if_neg (by rw [List.length_append]; omega), List.take_left,
      if_neg (fun h => h rfl), List.drop_left]
  exact (drains_idle (hdrains.of_next (frames_next hstep)) (between_new peerSettings_).idle).2 rfl

/-- Cut in two ways, a client's stream comes to the same exactly when both of them
end a read within the preface, or neither does and both do the same behind every
answered PING. -/
theorem segmentation_iff (peerSettings_ : Settings) (rest : Bytes) {A B : List Bytes}
    (hA : A.flatten = CLIENT_PREFACE ++ rest) (hB : B.flatten = CLIENT_PREFACE ++ rest) :
    run A (Impl.new peerSettings_) = run B (Impl.new peerSettings_) ↔
      (SparesPreface A ↔ SparesPreface B) ∧
        (SparesPreface A → ∀ p, AnswersAt peerSettings_ A p → (EndsBehind A p ↔ EndsBehind B p)) := by
  have hcut : ∀ pieces : List Bytes, pieces.flatten = CLIENT_PREFACE ++ rest →
      ¬ SparesPreface pieces → run pieces (Impl.new peerSettings_) =
        misledOutcome (Impl.new peerSettings_) (CLIENT_PREFACE.drop FrameHeader.SIZE ++ rest) := by
    intro pieces hpieces hnot
    unfold SparesPreface at hnot
    simp only [not_forall, not_or, not_lt, not_le] at hnot
    obtain ⟨c, hc, hle, hlt⟩ := hnot
    exact run_cut_preface (Impl.new peerSettings_) rfl rfl rfl hpieces hc hle hlt pieces []
      rfl (by decide)
  -- a preface that has been taken apart is never received
  have hdiffer : ∀ pieces pieces' : List Bytes, pieces.flatten = CLIENT_PREFACE ++ rest →
      pieces'.flatten = CLIENT_PREFACE ++ rest → SparesPreface pieces → ¬ SparesPreface pieces' →
      run pieces (Impl.new peerSettings_) ≠ run pieces' (Impl.new peerSettings_) := by
    intro pieces pieces' hpieces hpieces' hspares hnot heq
    have hreceived := preface_received peerSettings_ hpieces hspares
    rw [heq, hcut pieces' hpieces' hnot] at hreceived
    cases hreceived
  by_cases hsparesA : SparesPreface A
  · by_cases hsparesB : SparesPreface B
    · have hdrainsA := @run_drains A _ (between_new peerSettings_) fun _ => hsparesA
      have hdrainsB := @run_drains B _ (between_new peerSettings_) fun _ => hsparesB
      rw [hB, ← hA] at hdrainsB
      have hiff := drains_eq_iff (between_new peerSettings_).idle hdrainsA hdrainsB
      simp only [Prod.mk.injEq, and_true] at hiff
      rw [Prod.ext_iff, hiff]
      constructor
      · intro hall
        exact ⟨iff_of_true hsparesA hsparesB, fun _ p ⟨y, hy, hp⟩ => hall y p hy hp⟩
      · rintro ⟨-, hall⟩ y p hy hp
        exact hall hsparesA p ⟨y, hy, hp⟩
    · exact iff_of_false (hdiffer A B hA hB hsparesA hsparesB)
        fun h => hsparesB (h.1.mp hsparesA)
  · by_cases hsparesB : SparesPreface B
    · exact iff_of_false (fun heq => hdiffer B A hB hA hsparesB hsparesA heq.symm)
        fun h => hsparesA (h.1.mpr hsparesB)
    · rw [hcut A hA hsparesA, hcut B hB hsparesB]
      exact iff_of_true rfl ⟨iff_of_false hsparesA hsparesB, fun h => absurd h hsparesA⟩

/-- The preface and an empty SETTINGS frame, cut after five octets or not at all. -/
theorem segmentation_settings :
    (SparesPreface [CLIENT_PREFACE ++ [0, 0, 0, 4, 0, 0, 0, 0, 0]] ↔
        SparesPreface [CLIENT_PREFACE.take 5, CLIENT_PREFACE.drop 5 ++ [0, 0, 0, 4, 0, 0, 0, 0, 0]]) ∧
      (SparesPreface [CLIENT_PREFACE ++ [0, 0, 0, 4, 0, 0, 0, 0, 0]] →
        ∀ p, AnswersAt {} [CLIENT_PREFACE ++ [0, 0, 0, 4, 0, 0, 0, 0, 0]] p →
          (EndsBehind [CLIENT_PREFACE ++ [0, 0, 0, 4, 0, 0, 0, 0, 0]] p ↔
            EndsBehind [CLIENT_PREFACE.take 5,
              CLIENT_PREFACE.drop 5 ++ [0, 0, 0, 4, 0, 0, 0, 0, 0]] p)) :=
  (segmentation_iff {} [0, 0, 0, 4, 0, 0, 0, 0, 0] rfl rfl).mp (by decide +kernel)

/-- The preface in two reads, nine octets first. -/
theorem run_preface_cut_at_nine :
    ¬ ∀ (peerSettings_ : Settings) (A B : List Bytes) (rest : Bytes),
      (∀ piece ∈ A, piece ≠ []) → (∀ piece ∈ B, piece ≠ []) →
      A.flatten = CLIENT_PREFACE ++ rest → B.flatten = CLIENT_PREFACE ++ rest →
      run A (Impl.new peerSettings_) = run B (Impl.new peerSettings_) := by
  intro h
  have heq := h {} [CLIENT_PREFACE.take 9, CLIENT_PREFACE.drop 9] [CLIENT_PREFACE] []
    (by decide) (by decide) rfl rfl
  exact absurd heq (by decide +kernel)

end Shitty.Http2.ServerTransport
