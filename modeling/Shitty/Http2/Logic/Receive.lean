import Shitty.Http2.Logic.Framing

/-!
# The receive loops drain the stream

`processFrameBody` takes the step of the consumer, `receiveFrames` drains it, and so
does `onInput`, as long as the offsets behind answered PINGs are those where the octets
received end too early. The loops of the source call each other, and the induction is on
the octets in the buffer. What is left over behind them is less than the next step asks
for.
-/

namespace Shitty.Http2.ServerTransport

open Lib.Resumable

/-! ## What one frame does -/

theorem own_idle {header : FrameHeader} {payload : Bytes} {s : Impl}
    (hlen : header.length.toNat = payload.length) (hs : s.Idle) :
    (stateOf (own header payload s)).Idle := by
  have hs' : Impl.Idle { s with buf := payload, handled := s.handled ++ [(header, payload)] } := hs
  by_cases h : header.Answered
  · have h8 : header.length.toNat = 8 := by
      rw [h.2.2]
      rfl
    rw [own, handler_answered h (show 8 ≤ payload.length by omega)]
    exact hs
  · exact (handler_steady h).idle _ hs' (show header.length.toNat ≤ payload.length by omega)

theorem own_kept {header : FrameHeader} {payload : Bytes} {s : Impl} (h : ¬ header.Answered)
    (hlen : header.length.toNat = payload.length) (hs : s.Idle) :
    Kept { s with buf := payload, handled := s.handled ++ [(header, payload)] }
      (stateOf (own header payload s)) :=
  (handler_steady h).keeps _ hs (show header.length.toNat ≤ payload.length by omega)

theorem own_answered {header : FrameHeader} {payload : Bytes} {s : Impl} (h : header.Answered)
    (hlen : header.length.toNat = payload.length) :
    own header payload s =
      .ok () { s with
        sent := s.sent ++ [({ type := FrameType.PING, flags := setFlag 0 0 true, length := 8 }
          : FrameHeader).writeTo ++ payload]
        buf := []
        handled := s.handled ++ [(header, payload)] } := by
  have h8 : payload.length = 8 := by
    rw [← hlen, h.2.2]
    rfl
  rw [own, handler_answered h (show 8 ≤ payload.length by omega)]
  simp only
  rw [List.take_of_length_le (by omega), List.drop_eq_nil_of_le (by omega)]

/-- The next state, for a frame with its payload. -/
theorem frameStep_next {short : Prop} {header : FrameHeader} {payload rest : Bytes} {s s' : Impl}
    (h : frameStep short header payload rest s = .next s') :
    ∃ t, own header payload s = .ok () t ∧
      ((¬ header.Answered ∧ s' = { t with buf := rest, currentFrameHeader_ := none }) ∨
        (header.Answered ∧ ¬ short ∧ 8 ≤ rest.length ∧
          s' = { t with buf := rest.drop 8, currentFrameHeader_ := none })) := by
  unfold frameStep at h
  cases hown : own header payload s with
  | error e t => rw [hown] at h; cases h
  | ok u t =>
      rw [hown] at h
      refine ⟨t, rfl, ?_⟩
      by_cases hanswered : header.Answered
      · simp only [if_pos hanswered] at h
        by_cases hshort : short
        · rw [if_pos hshort] at h; cases h
        · rw [if_neg hshort] at h
          by_cases hlen : rest.length < 8
          · rw [if_pos hlen] at h; cases h
          · rw [if_neg hlen] at h
            cases h
            exact .inr ⟨hanswered, hshort, Nat.le_of_not_lt hlen, rfl⟩
      · simp only [if_neg hanswered] at h
        cases h
        exact .inl ⟨hanswered, rfl⟩

theorem frameStep_fail {short : Prop} {header : FrameHeader} {payload rest : Bytes} {s s' : Impl}
    {e : Exn} (h : frameStep short header payload rest s = .fail s' e) :
    ∃ t, (own header payload s = .error e t ∧ s' = { t with buf := payload ++ rest }) ∨
      (own header payload s = .ok () t ∧ header.Answered ∧ short ∧ e = tooShort ∧
        s' = { t with buf := rest }) := by
  unfold frameStep at h
  cases hown : own header payload s with
  | error e t =>
      rw [hown] at h
      cases h
      exact ⟨t, .inl ⟨rfl, rfl⟩⟩
  | ok u t =>
      rw [hown] at h
      refine ⟨t, .inr ⟨rfl, ?_⟩⟩
      by_cases hanswered : header.Answered
      · simp only [if_pos hanswered] at h
        by_cases hshort : short
        · rw [if_pos hshort] at h
          cases h
          exact ⟨hanswered, hshort, rfl, rfl⟩
        · rw [if_neg hshort] at h
          split at h <;> cases h
      · simp only [if_neg hanswered] at h
        cases h

theorem frameStep_wait {short : Prop} {header : FrameHeader} {payload rest : Bytes} {s : Impl}
    (h : frameStep short header payload rest s = .wait) :
    header.Answered ∧ ¬ short ∧ rest.length < 8 := by
  unfold frameStep at h
  cases hown : own header payload s with
  | error e t => rw [hown] at h; cases h
  | ok u t =>
      rw [hown] at h
      by_cases hanswered : header.Answered
      · simp only [if_pos hanswered] at h
        by_cases hshort : short
        · rw [if_pos hshort] at h; cases h
        · rw [if_neg hshort] at h
          by_cases hlen : rest.length < 8
          · exact ⟨hanswered, hshort, hlen⟩
          · rw [if_neg hlen] at h; cases h
      · simp only [if_neg hanswered] at h; cases h

theorem frameStep_idle {short : Prop} {header : FrameHeader} {payload rest : Bytes}
    {s s' : Impl} (hlen : header.length.toNat = payload.length) (hs : s.Idle)
    (h : frameStep short header payload rest s = .next s') : s'.Idle := by
  obtain ⟨t, hown, hnext⟩ := frameStep_next h
  have hidle := own_idle hlen hs
  rw [hown] at hidle
  rcases hnext with ⟨-, rfl⟩ | ⟨-, -, -, rfl⟩ <;> exact hidle

/-! ## States in which the loops run -/

/-- The octets the next step needs. -/
def need (s : Impl) : Nat :=
  if s.prefaceReceived_ = false then CLIENT_PREFACE.length
  else
    match s.currentFrameHeader_ with
    | none => FrameHeader.SIZE
    | some header => header.length.toNat

/-- No stream is open, and what is next in the stream was not complete when only
`before` octets had been received. -/
structure Ready (before : Nat) (s : Impl) (received : Nat) : Prop where
  idle : s.Idle
  inside : s.buf.length ≤ received
  late : before < received - s.buf.length + need s

/-- The offsets where less than eight octets are there behind a frame. -/
def Fits (short : Nat → Prop) (before received : Nat) : Prop :=
  ∀ p, before < p → p ≤ received → (short p ↔ received < p + 8)

variable {short : Nat → Prop} {before received : Nat} {s : Impl}

/-- A step takes octets off the front, and no stream is opened. -/
theorem step_next {s' : Impl} (hs : s.Idle) (h : step short s received = .next s') :
    s'.Idle ∧ s'.prefaceReceived_ = true ∧ s'.buf.length + need s ≤ s.buf.length := by
  unfold step at h
  unfold need
  by_cases hpreface : s.prefaceReceived_ = false
  · rw [if_pos hpreface, prefaceStep] at *
    split at h
    · cases h
    · rename_i hlen
      split at h
      · cases h
      · cases h
        -- the preface is taken off
        refine ⟨hs, rfl, ?_⟩
        show (s.buf.drop _).length + _ ≤ _
        rw [List.length_drop]
        omega
  · rw [if_neg hpreface] at *
    rw [Bool.not_eq_false] at hpreface
    cases hcurrent : s.currentFrameHeader_ with
    | none =>
        rw [hcurrent] at h
        simp only [headerStep] at h
        split at h
        · cases h
        · rename_i hlen
          -- a frame header is
          obtain ⟨header, hread⟩ := readFrameHeader_ok (Nat.le_of_not_lt hlen)
          rw [hread] at h
          cases h
          refine ⟨hs, hpreface, ?_⟩
          show (s.buf.drop _).length + _ ≤ _
          rw [List.length_drop]
          simp only
          omega
    | some header =>
        rw [hcurrent] at h
        simp only [bodyStep] at h
        split at h
        · cases h
        · rename_i hlen
          -- a frame is handled, and a PING takes eight more octets along
          obtain ⟨t, hown, hnext⟩ := frameStep_next h
          have hsize : header.length.toNat = (s.buf.take header.length.toNat).length := by
            rw [List.length_take]
            omega
          have hidle := frameStep_idle hsize hs h
          have hdrop : (s.buf.drop header.length.toNat).length =
              s.buf.length - header.length.toNat := List.length_drop
          rcases hnext with ⟨hanswered, rfl⟩ | ⟨hanswered, -, h8, rfl⟩
          · have hkept := own_kept hanswered hsize hs
            rw [hown] at hkept
            refine ⟨hidle, hkept.preface.trans hpreface, ?_⟩
            show (s.buf.drop _).length + _ ≤ _
            simp only
            omega
          · rw [own_answered hanswered hsize] at hown
            cases hown
            refine ⟨hidle, hpreface, ?_⟩
            show ((s.buf.drop _).drop 8).length + _ ≤ _
            rw [List.length_drop, hdrop]
            simp only
            omega

theorem Ready.next {s' : Impl} (hs : Ready before s received)
    (h : step short s received = .next s') : Ready before s' received := by
  obtain ⟨hidle, -, hlen⟩ := step_next hs.idle h
  have hinside := hs.inside
  have hlate := hs.late
  exact ⟨hidle, by omega, by omega⟩

/-- At the end of a frame, the octets behind it are those received beyond it. -/
theorem short_iff (hs : Ready before s received) (hfits : Fits short before received)
    (hpreface : s.prefaceReceived_ = true) {header : FrameHeader}
    (hcurrent : s.currentFrameHeader_ = some header) (hlen : header.length.toNat ≤ s.buf.length) :
    short (received - (s.buf.length - header.length.toNat)) ↔
      (s.buf.drop header.length.toNat).length < 8 := by
  have hinside := hs.inside
  have hlate := hs.late
  simp only [need, hpreface, hcurrent, Bool.true_eq_false, if_false] at hlate
  rw [hfits _ (by omega) (by omega), List.length_drop]
  omega

/-- Waiting is for more octets than there are. -/
theorem lt_need_of_wait (hs : Ready before s received) (hfits : Fits short before received)
    (h : step short s received = .wait) : s.buf.length < need s := by
  unfold step at h
  unfold need
  by_cases hpreface : s.prefaceReceived_ = false
  · rw [if_pos hpreface, prefaceStep] at *
    split at h
    · assumption
    · split at h <;> cases h
  · rw [if_neg hpreface] at *
    rw [Bool.not_eq_false] at hpreface
    cases hcurrent : s.currentFrameHeader_ with
    | none =>
        rw [hcurrent] at h
        simp only [headerStep] at h
        split at h
        · assumption
        · split at h <;> cases h
    | some header =>
        rw [hcurrent] at h
        simp only [bodyStep] at h
        split at h
        · assumption
        · rename_i hlen
          have hiff := short_iff hs hfits hpreface hcurrent (Nat.le_of_not_lt hlen)
          obtain ⟨-, hshort, h8⟩ := frameStep_wait h
          exact absurd (hiff.mpr h8) hshort

/-! ## One frame -/

/-- A verdict that is what an action does. -/
def Does (r : EStateM.Result Exn Impl Unit) : Verdict Impl Exn → Prop
  | .wait => False
  | .next s => r = .ok () s
  | .fail s e => r = .error e s

theorem Does.ok {u : Unit} {t : Impl} {v : Verdict Impl Exn} (h : Does (.ok u t) v) :
    v = .next t := by
  cases v with
  | wait => exact h.elim
  | next t' =>
      cases h
      rfl
  | fail t' e => cases h

/-- The frame about to be handled written down. -/
def recorded (header : FrameHeader) (s : Impl) : Impl :=
  { s with handled := s.handled ++ [(header, s.buf.take header.length.toNat)] }

theorem processFrameBody_eq {header : FrameHeader} (hcurrent : s.currentFrameHeader_ = some header)
    (hlen : header.length.toNat ≤ s.buf.length) :
    processFrameBody s =
      (handler header >>= fun _ => advance header.length.toNat >>= fun _ =>
        modify fun s => { s with currentFrameHeader_ := none }) (recorded header s) := by
  show (match s.currentFrameHeader_ with
    | none => throw (.assertion "currentFrameHeader_.has_value()")
    | some header => get >>= fun s =>
        if s.buf.length < header.length.toNat then return
        else record header >>= fun _ => handler header >>= fun _ =>
          advance header.length.toNat >>= fun _ =>
            modify fun s => { s with currentFrameHeader_ := none } : Act Unit) s = _
  rw [hcurrent]
  show (if s.buf.length < header.length.toNat then _ else _ : Act Unit) s = _
  rw [if_neg (by omega)]
  rfl

/-- Without a header there is no body to process. -/
theorem processFrameBody_none (hcurrent : s.currentFrameHeader_ = none) :
    processFrameBody s = .error (.assertion "currentFrameHeader_.has_value()") s := by
  unfold processFrameBody
  rw [act_get_bind, hcurrent]
  rfl

/-- While the body of a frame is not there as a whole, it is waited for and nothing changes. -/
theorem processFrameBody_short {header : FrameHeader}
    (hcurrent : s.currentFrameHeader_ = some header)
    (hlen : s.buf.length < header.length.toNat) : processFrameBody s = .ok () s := by
  unfold processFrameBody
  rw [act_get_bind, hcurrent]
  show (if s.buf.length < header.length.toNat then _ else _ : Act Unit) s = _
  rw [if_pos hlen]
  rfl

theorem advance_eq {n : Nat} {t : Impl} (h : n ≤ t.buf.length) :
    advance n t = .ok () { t with buf := t.buf.drop n } := by
  rw [advance, Shitty.advance, if_neg (by omega)]

theorem advance_tooShort {n : Nat} {t : Impl} (h : t.buf.length < n) :
    advance n t = .error tooShort t := by
  rw [advance, Shitty.advance, if_pos h]
  rfl

/-- The handler sees its own payload only. -/
theorem handler_recorded {header : FrameHeader} (hs : s.Idle)
    (hlen : header.length.toNat ≤ s.buf.length) (h : ¬ header.Answered) :
    handler header (recorded header s) =
      onState (fun t => t.feed (s.buf.drop header.length.toNat))
        (own header (s.buf.take header.length.toNat) s) := by
  have hsplit : recorded header s = Impl.feed { s with
        buf := s.buf.take header.length.toNat
        handled := s.handled ++ [(header, s.buf.take header.length.toNat)] }
          (s.buf.drop header.length.toNat) := by
    rw [Impl.feed, List.take_append_drop, recorded]
  rw [hsplit]
  refine (handler_steady h).feeds
    { s with
      buf := s.buf.take header.length.toNat
      handled := s.handled ++ [(header, s.buf.take header.length.toNat)] } hs ?_ _
  rw [List.length_take]
  omega

/-- `processFrameBody` takes a step of the consumer. -/
theorem processFrameBody_does {header : FrameHeader} (hs : s.Idle)
    (hcurrent : s.currentFrameHeader_ = some header) (hlen : header.length.toNat ≤ s.buf.length)
    {short : Prop} (hshort : short ↔ (s.buf.drop header.length.toNat).length < 8) :
    Does (processFrameBody s)
      (frameStep short header (s.buf.take header.length.toNat) (s.buf.drop header.length.toNat)
        s) := by
  have hsize : header.length.toNat = (s.buf.take header.length.toNat).length := by
    rw [List.length_take]
    omega
  rw [processFrameBody_eq hcurrent hlen]
  unfold frameStep
  by_cases hanswered : header.Answered
  · have h8 : header.length.toNat = 8 := by
      rw [hanswered.2.2]
      rfl
    rw [Steady.bind_apply,
      handler_answered hanswered (s := recorded header s) (show 8 ≤ s.buf.length by omega),
      own_answered hanswered hsize]
    simp only [if_pos hanswered]
    rw [Steady.bind_apply]
    by_cases h : (s.buf.drop 8).length < 8
    · rw [advance_tooShort (show _ < header.length.toNat by rw [h8]; exact h),
        if_pos (hshort.mpr (by rw [h8]; exact h)), recorded, h8]
      rfl
    · rw [advance_eq (show header.length.toNat ≤ _ by rw [h8]; exact Nat.le_of_not_lt h),
        if_neg fun hs => h (h8 ▸ hshort.mp hs), recorded, h8, if_neg h]
      rfl
  · have hkept := own_kept hanswered hsize hs
    rw [Steady.bind_apply, handler_recorded hs hlen hanswered]
    cases hown : own header (s.buf.take header.length.toNat) s with
    | error e t =>
        rw [hown] at hkept
        show EStateM.Result.error e (t.feed _) = .error e _
        rw [Impl.feed, show t.buf = _ from hkept.buf]
    | ok u t =>
        rw [hown] at hkept
        have hbuf : t.buf = s.buf.take header.length.toNat := hkept.buf
        simp only [if_neg hanswered, onState]
        rw [Steady.bind_apply, advance_eq (show header.length.toNat ≤ (t.buf ++ _).length by
          rw [List.length_append, hbuf]; omega)]
        show EStateM.Result.ok _ _ = _
        rw [Impl.feed, hbuf]
        simp only
        rw [List.drop_left' hsize.symm]

/-- A call that returns has waited, or has handled the frame. -/
theorem processFrameBody_ok {t : Impl} {u : Unit} (hs : s.Idle)
    (h : processFrameBody s = .ok u t) :
    t = s ∨ ∃ header, s.currentFrameHeader_ = some header ∧
      header.length.toNat ≤ s.buf.length ∧
      frameStep ((s.buf.drop header.length.toNat).length < 8) header
        (s.buf.take header.length.toNat) (s.buf.drop header.length.toNat) s = .next t := by
  cases hcurrent : s.currentFrameHeader_ with
  | none =>
      rw [processFrameBody_none hcurrent] at h
      cases h
  | some header =>
      by_cases hlen : s.buf.length < header.length.toNat
      · rw [processFrameBody_short hcurrent hlen] at h
        cases h
        exact .inl rfl
      · have hle := Nat.le_of_not_lt hlen
        have hdoes := processFrameBody_does hs hcurrent hle Iff.rfl
        rw [h] at hdoes
        exact .inr ⟨header, rfl, hle, hdoes.ok⟩

/-! ## The loops -/

/-- Drained with this outcome, and the action had it too. -/
def DrainsTo (short : Nat → Prop) (received : Nat) (s : Impl)
    (r : EStateM.Result Exn Impl Unit) : Prop :=
  ∃ s' err, Drains (frames short) (s, received) ((s', received), err) ∧
    r = match err with
      | none => .ok () s'
      | some e => .error e s'

theorem DrainsTo.waits (h : step short s received = .wait) :
    DrainsTo short received s (.ok () s) :=
  ⟨s, none, .wait (frames_wait h), rfl⟩

theorem DrainsTo.fails {s' : Impl} {e : Exn} (h : step short s received = .fail s' e) :
    DrainsTo short received s (.error e s') :=
  ⟨s', some e, .fail (frames_fail h), rfl⟩

theorem DrainsTo.step {s' : Impl} {r : EStateM.Result Exn Impl Unit}
    (h : step short s received = .next s') (hr : DrainsTo short received s' r) :
    DrainsTo short received s r := by
  obtain ⟨t, err, hdrains, heq⟩ := hr
  exact ⟨t, err, .next (frames_next h) hdrains, heq⟩

/-- The result in which a stream is drained is the only one. -/
theorem DrainsTo.unique {r r' : EStateM.Result Exn Impl Unit} (h : DrainsTo short received s r)
    (h' : DrainsTo short received s r') : r = r' := by
  obtain ⟨t, err, hdrains, rfl⟩ := h
  obtain ⟨t', err', hdrains', rfl⟩ := h'
  have heq := hdrains.unique hdrains'
  simp only [Prod.mk.injEq] at heq
  obtain ⟨⟨rfl, -⟩, rfl⟩ := heq
  rfl

theorem step_pending (hpreface : s.prefaceReceived_ = true) {header : FrameHeader}
    (hcurrent : s.currentFrameHeader_ = some header) :
    step short s received = bodyStep short header s received := by
  rw [step, if_neg (by rw [hpreface]; decide), hcurrent]

theorem step_between (hpreface : s.prefaceReceived_ = true)
    (hcurrent : s.currentFrameHeader_ = none) : step short s received = headerStep s := by
  rw [step, if_neg (by rw [hpreface]; decide), hcurrent]

/-- `receiveFrame` once there is a header. -/
theorem receiveFrame_pending {header : FrameHeader}
    (hcurrent : s.currentFrameHeader_ = some header) :
    receiveFrame s =
      if s.buf.length < header.length.toNat then .ok false s
      else match processFrameBody s with
        | .ok _ t => .ok true t
        | .error e t => .error e t := by
  show (if s.currentFrameHeader_.isNone = true then _ else _ : Act Bool) s = _
  rw [if_neg (by rw [hcurrent]; exact Bool.false_ne_true)]
  show (match s.currentFrameHeader_ with
    | none => return false
    | some header => get >>= fun s =>
        if s.buf.length < header.length.toNat then return false
        else processFrameBody >>= fun _ => return true : Act Bool) s = _
  rw [hcurrent]
  show (if s.buf.length < header.length.toNat then _ else _ : Act Bool) s = _
  split
  · rfl
  · rw [Steady.bind_apply]
    cases processFrameBody s <;> rfl

/-- Between two frames, `receiveFrame` reads the header of the next one when it is there. -/
theorem receiveFrame_between (hcurrent : s.currentFrameHeader_ = none) :
    receiveFrame s =
      match headerStep s with
      | .next s' => receiveFrame s'
      | _ => .ok false s := by
  have hheader : receiveFrame s = (receiveFrameHeader >>= fun _ => get >>= fun t =>
      match t.currentFrameHeader_ with
      | none => return false
      | some header => get >>= fun s =>
          if s.buf.length < header.length.toNat then return false
          else processFrameBody >>= fun _ => return true : Act Bool) s := by
    exact congrFun (if_pos (show s.currentFrameHeader_.isNone = true by rw [hcurrent]; rfl)) s
  rw [hheader, Steady.bind_apply, receiveFrameHeader, headerStep, hcurrent]
  rw [if_neg (show ¬ (none : Option FrameHeader).isSome = true from Bool.false_ne_true)]
  by_cases hlen : s.buf.length < FrameHeader.SIZE
  · rw [if_pos hlen, if_pos hlen]
    show (match s.currentFrameHeader_ with
      | none => return false
      | some header => _ : Act Bool) s = _
    rw [hcurrent]
    rfl
  · obtain ⟨header, hread⟩ := readFrameHeader_ok (Nat.le_of_not_lt hlen)
    rw [if_neg hlen, if_neg hlen, hread]
    rfl

theorem receiveFrames_loop_eq (turns : Nat) (s : Impl) :
    receiveFrames_loop (turns + 1) s =
      match receiveFrame s with
      | .ok moreToProcess t =>
          if moreToProcess = true ∧ t.buf ≠ [] then receiveFrames_loop turns t else .ok () t
      | .error e t => .error e t := by
  show (receiveFrame >>= _ : Act Unit) s = _
  rw [Steady.bind_apply]
  cases receiveFrame s with
  | error e t => rfl
  | ok moreToProcess t =>
      show (if moreToProcess = true ∧ t.buf ≠ [] then _ else _ : Act Unit) t = _
      simp only
      split <;> rfl

/-- The most turns there can be, for a state in which a header has been read or
not. -/
def turnsLeft (s : Impl) : Nat :=
  match s.currentFrameHeader_ with
  | none => s.buf.length
  | some _ => s.buf.length + 1

/-- The turn in which a frame whose header has been read is received, in front of turns
that drain the stream. -/
theorem receiveFrames_pending_drains (hfits : Fits short before received) {turns : Nat}
    (hturns : ∀ t : Impl, Ready before t received → t.prefaceReceived_ = true →
      turnsLeft t < turns → DrainsTo short received t (receiveFrames_loop turns t))
    (hs : Ready before s received) (hpreface : s.prefaceReceived_ = true) {header : FrameHeader}
    (hcurrent : s.currentFrameHeader_ = some header) (hleft : s.buf.length < turns) :
    DrainsTo short received s (receiveFrames_loop (turns + 1) s) := by
  have hstep := @step_pending short received s hpreface _ hcurrent
  rw [receiveFrames_loop_eq, receiveFrame_pending hcurrent]
  by_cases hlen : s.buf.length < header.length.toNat
  · rw [if_pos hlen]
    exact .waits (by rw [hstep, bodyStep, if_pos hlen])
  · have hle := Nat.le_of_not_lt hlen
    have hdoes := processFrameBody_does hs.idle hcurrent hle
      (short_iff hs hfits hpreface hcurrent hle)
    rw [bodyStep, if_neg hlen] at hstep
    rw [if_neg hlen]
    cases hframe : frameStep (short (received - (s.buf.length - header.length.toNat))) header
        (s.buf.take header.length.toNat) (s.buf.drop header.length.toNat) s with
    | wait =>
        rw [hframe] at hdoes
        exact hdoes.elim
    | fail t e =>
        rw [hframe] at hdoes hstep
        rw [show processFrameBody s = _ from hdoes]
        exact .fails hstep
    | next t =>
        rw [hframe] at hdoes hstep
        rw [show processFrameBody s = _ from hdoes]
        have hready := hs.next hstep
        obtain ⟨-, hpreface', hshorter⟩ := step_next hs.idle hstep
        have hnone : t.currentFrameHeader_ = none := by
          obtain ⟨u, -, ⟨-, rfl⟩ | ⟨-, -, -, rfl⟩⟩ := frameStep_next hframe <;> rfl
        refine .step hstep ?_
        simp only
        by_cases hempty : t.buf = []
        · rw [if_neg fun h => h.2 hempty]
          refine .waits ?_
          rw [step_between hpreface' hnone, headerStep, hempty]
          rfl
        · rw [if_pos ⟨trivial, hempty⟩]
          refine hturns t hready hpreface' ?_
          rw [turnsLeft, hnone]
          simp only
          omega

/-- Between two frames, a turn is that behind the header that is read. -/
theorem receiveFrames_loop_between (turns : Nat) (hcurrent : s.currentFrameHeader_ = none) :
    receiveFrames_loop (turns + 1) s =
      match headerStep s with
      | .next s' => receiveFrames_loop (turns + 1) s'
      | _ => .ok () s := by
  rw [receiveFrames_loop_eq, receiveFrame_between hcurrent]
  cases headerStep s with
  | next s' => exact (receiveFrames_loop_eq turns s').symm
  | wait => exact if_neg fun h => Bool.false_ne_true h.1
  | fail s' e => exact if_neg fun h => Bool.false_ne_true h.1

/-- The loop over frames drains the stream, from a state that fits the consumer's. -/
theorem receiveFrames_loop_drains (hfits : Fits short before received) :
    ∀ (turns : Nat) (s : Impl), Ready before s received → s.prefaceReceived_ = true →
      turnsLeft s < turns → DrainsTo short received s (receiveFrames_loop turns s) := by
  intro turns
  induction turns with
  | zero => exact fun _ _ _ h => absurd h (Nat.not_lt_zero _)
  | succ turns ih =>
      intro s hs hpreface hturns
      rw [turnsLeft] at hturns
      cases hcurrent : s.currentFrameHeader_ with
      | some header =>
          rw [hcurrent] at hturns
          exact receiveFrames_pending_drains hfits ih hs hpreface hcurrent
            (Nat.lt_of_succ_lt_succ hturns)
      | none =>
          rw [hcurrent] at hturns
          simp only at hturns
          have hstep := @step_between short received s hpreface hcurrent
          rw [receiveFrames_loop_between turns hcurrent]
          by_cases hlen : s.buf.length < FrameHeader.SIZE
          · rw [headerStep, if_pos hlen] at *
            exact .waits hstep
          · obtain ⟨header, hread⟩ := readFrameHeader_ok (Nat.le_of_not_lt hlen)
            have hnext : headerStep s = .next { s with
                currentFrameHeader_ := some header
                buf := s.buf.drop FrameHeader.SIZE } := by
              rw [headerStep, if_neg hlen, hread]
            rw [hnext] at hstep ⊢
            refine .step hstep (receiveFrames_pending_drains hfits ih (hs.next hstep) hpreface rfl ?_)
            have hsize : FrameHeader.SIZE = 9 := rfl
            show (s.buf.drop FrameHeader.SIZE).length < turns
            rw [List.length_drop]
            omega

theorem receiveFrames_drains (hfits : Fits short before received) (hs : Ready before s received)
    (hpreface : s.prefaceReceived_ = true) :
    DrainsTo short received s (receiveFrames s) := by
  refine receiveFrames_loop_drains hfits (s.buf.length + 2) s hs hpreface ?_
  unfold turnsLeft
  split <;> omega

/-! ## `onInput` -/

/-- The state in which the stream is drained. -/
theorem drained_ready {x : Impl × Nat} {o : (Impl × Nat) × Option Exn}
    (h : Drains (frames short) x o) (ho : o.2 = none) (hs : Ready before x.1 x.2) :
    Ready before o.1.1 x.2 ∧ o.1.2 = x.2 ∧ step short o.1.1 x.2 = .wait ∧
      (o.1.1.prefaceReceived_ = true ∨ o.1.1 = x.1) := by
  induction h with
  | wait hw => exact ⟨hs, rfl, of_frames_wait hw, .inr rfl⟩
  | fail _ => cases ho
  | next hn _ ih =>
      obtain ⟨hstep, hreceived⟩ := of_frames_next hn
      rw [← hreceived] at hs hstep ⊢
      obtain ⟨hready, heq, hwait, hpreface⟩ := ih ho (hs.next hstep)
      refine ⟨hready, heq, hwait, ?_⟩
      rcases hpreface with hpreface | hsame
      · exact .inl hpreface
      · left
        rw [hsame]
        exact (step_next hs.idle hstep).2.1

/-- Behind a drained stream there is nothing left to do: another call of the loop changes
nothing. -/
theorem receiveFrames_again (hfits : Fits short before received) {t : Impl} {u : Unit}
    (hs : Ready before s received) (hpreface : s.prefaceReceived_ = true)
    (h : receiveFrames s = .ok u t) : receiveFrames t = .ok () t := by
  obtain ⟨t', err, hdrains, heq⟩ := receiveFrames_drains hfits hs hpreface
  rw [h] at heq
  cases err with
  | some e => cases heq
  | none =>
      cases heq
      obtain ⟨hready, -, hwait, hor⟩ := drained_ready hdrains rfl hs
      have hpreface' : t.prefaceReceived_ = true := by
        rcases hor with hor | hor
        · exact hor
        · exact (congrArg Impl.prefaceReceived_ hor).trans hpreface
      exact (receiveFrames_drains hfits hready hpreface').unique (.waits hwait)

/-- Before the preface has been received: none of it has been taken, and not so
much of it is there that it is taken for a frame header. -/
def Untouched (s : Impl) : Prop :=
  s.prefaceReceived_ = false → s.currentFrameHeader_ = none ∧
    (s.buf.length < FrameHeader.SIZE ∨ CLIENT_PREFACE.length ≤ s.buf.length)

theorem onInput_eq (s : Impl) :
    onInput s =
      if s.prefaceReceived_ = true then receiveFrames s
      else match receivePreface s with
        | .ok _ t => receiveFrames t
        | .error e t => .error e t := by
  show (if ¬ s.prefaceReceived_ = true then _ else _ : Act Unit) s = _
  by_cases hpreface : s.prefaceReceived_ = true
  · rw [if_pos hpreface, if_neg fun h => h hpreface]
  · rw [if_neg hpreface, if_pos hpreface]
    rw [Steady.bind_apply]
    cases receivePreface s <;> rfl

theorem receivePreface_eq (s : Impl) :
    receivePreface s =
      match prefaceStep s with
      | .wait => .ok () s
      | .next t => receiveFrames t
      | .fail t e => .error e t := by
  show (if s.buf.length < CLIENT_PREFACE.length then _ else _ : Act Unit) s = _
  unfold prefaceStep
  by_cases hlen : s.buf.length < CLIENT_PREFACE.length
  · rw [if_pos hlen, if_pos hlen]
    rfl
  · rw [if_neg hlen, if_neg hlen]
    by_cases heq : s.buf.take CLIENT_PREFACE.length ≠ CLIENT_PREFACE
    · rw [if_pos heq, if_pos heq]
      rfl
    · rw [if_neg heq, if_neg heq]
      show (advance CLIENT_PREFACE.length >>= fun _ => receiveFrames : Act Unit)
        { s with prefaceReceived_ := true } = _
      rw [Steady.bind_apply,
        advance_eq (t := { s with prefaceReceived_ := true })
          (show CLIENT_PREFACE.length ≤ s.buf.length from Nat.le_of_not_lt hlen)]

/-- Too little for the preface, and for a header as well. -/
theorem onInput_waiting (hpreface : s.prefaceReceived_ = false)
    (hcurrent : s.currentFrameHeader_ = none) (hlen : s.buf.length < FrameHeader.SIZE) :
    onInput s = .ok () s := by
  have hframes : receiveFrames s = .ok () s := by
    show receiveFrames_loop (s.buf.length + 1 + 1) s = _
    rw [receiveFrames_loop_eq, receiveFrame_between hcurrent, headerStep, if_pos hlen]
    exact if_neg fun h => Bool.false_ne_true h.1
  rw [onInput_eq, if_neg (by rw [hpreface]; exact Bool.false_ne_true), receivePreface_eq,
    prefaceStep, if_pos (Nat.lt_trans hlen (by decide))]
  exact hframes

theorem onInput_drains (hfits : Fits short before received) (hs : Ready before s received)
    (huntouched : Untouched s) : DrainsTo short received s (onInput s) := by
  cases hpreface : s.prefaceReceived_ with
  | true =>
      rw [onInput_eq, if_pos hpreface]
      exact receiveFrames_drains hfits hs hpreface
  | false =>
      obtain ⟨hcurrent, hlen⟩ := huntouched hpreface
      have hstep : step short s received = prefaceStep s := by
        rw [step, if_pos hpreface]
      have hinput : onInput s = match receivePreface s with
          | .ok _ t => receiveFrames t
          | .error e t => .error e t := by
        rw [onInput_eq, if_neg (by rw [hpreface]; exact Bool.false_ne_true)]
      cases hverdict : prefaceStep s with
      | fail t e =>
          rw [hinput, receivePreface_eq, hverdict]
          rw [hverdict] at hstep
          exact .fails hstep
      | next t =>
          rw [hinput, receivePreface_eq, hverdict]
          rw [hverdict] at hstep
          -- frames are received behind the preface, and again by `onInput`, to no effect
          obtain ⟨-, hpreface', -⟩ := step_next hs.idle hstep
          have hdrains := receiveFrames_drains hfits (hs.next hstep) hpreface'
          refine .step hstep ?_
          simp only
          cases hframes : receiveFrames t with
          | error e u =>
              rw [hframes] at hdrains
              exact hdrains
          | ok _ u =>
              rw [hframes] at hdrains
              have hagain := receiveFrames_again hfits (hs.next hstep) hpreface' hframes
              show DrainsTo short received t (receiveFrames u)
              rw [hagain]
              exact hdrains
      | wait =>
          rw [hverdict] at hstep
          -- too little even for a preface
          have hshort : s.buf.length < FrameHeader.SIZE := by
            rcases hlen with hlen | hlen
            · exact hlen
            · rw [prefaceStep, if_neg (Nat.not_lt.mpr hlen)] at hverdict
              split at hverdict <;> cases hverdict
          rw [onInput_waiting hpreface hcurrent hshort]
          exact .waits hstep

end Shitty.Http2.ServerTransport
