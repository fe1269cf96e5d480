import Shitty.Http2.ServerTransport

/-!
# What the frame handlers do with the buffer

All of them but one look at their own payload and leave the buffer to
`processFrameBody`; the one that answers a PING takes the payload off itself. No stream
is ever opened, so no DATA frame is accepted. A handler that is steady can be given more
octets behind those it looks at, and does the same; so a frame can be handled as if
nothing else had been received.
-/

namespace Shitty.Http2

/-- No stream has left its initial state. -/
def Impl.Idle (s : Impl) : Prop := ∀ p ∈ s.streams_, p.2.state_ = .Idle

/-- A PING that is not an acknowledgement. -/
def FrameHeader.AsksPing (header : FrameHeader) : Prop :=
  header.type = FrameType.PING ∧ isPingACK header = false

/-- A PING to which the transport has an answer. -/
def FrameHeader.Answered (header : FrameHeader) : Prop :=
  header.AsksPing ∧ header.streamId = 0 ∧ header.length = 8

instance (header : FrameHeader) : Decidable header.AsksPing :=
  inferInstanceAs (Decidable (_ ∧ _))

instance (header : FrameHeader) : Decidable header.Answered :=
  inferInstanceAs (Decidable (_ ∧ _))

namespace ServerTransport

/-! ## Actions that leave the buffer alone -/

/-- The state that a computation leaves behind, whether it returns or throws. -/
def stateOf {α : Type} : EStateM.Result Exn Impl α → Impl
  | .ok _ s => s
  | .error _ s => s

/-- A change made to the state behind a result. -/
def onState {α : Type} (f : Impl → Impl) :
    EStateM.Result Exn Impl α → EStateM.Result Exn Impl α
  | .ok a s => .ok a (f s)
  | .error e s => .error e (f s)

/-- What an action on a frame leaves as it is. -/
structure Kept (s s' : Impl) : Prop where
  buf : s'.buf = s.buf
  current : s'.currentFrameHeader_ = s.currentFrameHeader_
  preface : s'.prefaceReceived_ = s.prefaceReceived_
  handled : s'.handled = s.handled

theorem Kept.rfl {s : Impl} : Kept s s := ⟨Eq.refl _, Eq.refl _, Eq.refl _, Eq.refl _⟩

theorem Kept.trans {s t u : Impl} (h : Kept s t) (h' : Kept t u) : Kept s u :=
  ⟨h'.buf.trans h.buf, h'.current.trans h.current, h'.preface.trans h.preface,
    h'.handled.trans h.handled⟩

/-- An action that sees no more than the first `n` octets of the buffer, leaves it
alone, opens no stream, and returns what satisfies `P`. -/
structure Steady {α : Type} (n : Nat) (P : α → Prop) (f : Act α) : Prop where
  feeds : ∀ s : Impl, s.Idle → n ≤ s.buf.length → ∀ more,
    f (s.feed more) = onState (fun t => t.feed more) (f s)
  keeps : ∀ s : Impl, s.Idle → n ≤ s.buf.length → Kept s (stateOf (f s))
  idle : ∀ s : Impl, s.Idle → n ≤ s.buf.length → (stateOf (f s)).Idle
  returns : ∀ s : Impl, s.Idle → n ≤ s.buf.length → ∀ a s', f s = .ok a s' → P a

namespace Steady

variable {α β : Type} {n : Nat} {P : α → Prop} {Q : β → Prop}

theorem pure {a : α} (ha : P a) : Steady n P (Pure.pure a : Act α) where
  feeds _ _ _ _ := rfl
  keeps _ _ _ := Kept.rfl
  idle _ hs _ := hs
  returns s _ _ b s' h := by
    cases h
    exact ha

theorem throw (e : Exn) : Steady n P (MonadExcept.throw e : Act α) where
  feeds _ _ _ _ := rfl
  keeps _ _ _ := Kept.rfl
  idle _ hs _ := hs
  returns s _ _ b s' h := by cases h

theorem ofExcept {x : Except Exn α} (hx : ∀ a, x = .ok a → P a) :
    Steady n P (ServerTransport.ofExcept x) := by
  cases x with
  | error e => exact throw e
  | ok a => exact pure (hx a rfl)

/-- The second action starts where the first one has stopped. -/
theorem bind_apply (f : Act α) (g : α → Act β) (s : Impl) :
    (f >>= g) s = match f s with
      | .ok a s' => g a s'
      | .error e s' => .error e s' := by
  show EStateM.bind f g s = _
  unfold EStateM.bind
  cases f s <;> rfl

theorem bind {f : Act α} {g : α → Act β} (hf : Steady n P f)
    (hg : ∀ a, P a → Steady n Q (g a)) : Steady n Q (f >>= g) := by
  have hstate : ∀ s : Impl, s.Idle → n ≤ s.buf.length → ∀ a s', f s = .ok a s' →
      s'.Idle ∧ n ≤ s'.buf.length ∧ Kept s s' := by
    intro s hs hn a s' h
    have hi := hf.idle s hs hn
    have hk := hf.keeps s hs hn
    rw [h] at hi hk
    exact ⟨hi, hn.trans_eq (congrArg List.length hk.buf).symm, hk⟩
  constructor
  · intro s hs hn more
    rw [bind_apply, bind_apply, hf.feeds s hs hn more]
    cases h : f s with
    | error e s' => rfl
    | ok a s' =>
        obtain ⟨hi, hn', -⟩ := hstate s hs hn a s' h
        exact (hg a (hf.returns s hs hn a s' h)).feeds s' hi hn' more
  · intro s hs hn
    rw [bind_apply]
    cases h : f s with
    | error e s' =>
        have hk := hf.keeps s hs hn
        rw [h] at hk
        exact hk
    | ok a s' =>
        obtain ⟨hi, hn', hk⟩ := hstate s hs hn a s' h
        exact hk.trans ((hg a (hf.returns s hs hn a s' h)).keeps s' hi hn')
  · intro s hs hn
    rw [bind_apply]
    cases h : f s with
    | error e s' =>
        have hi := hf.idle s hs hn
        rw [h] at hi
        exact hi
    | ok a s' =>
        obtain ⟨hi, hn', -⟩ := hstate s hs hn a s' h
        exact (hg a (hf.returns s hs hn a s' h)).idle s' hi hn'
  · intro s hs hn b s'' hb
    rw [bind_apply] at hb
    cases h : f s with
    | error e s' =>
        rw [h] at hb
        cases hb
    | ok a s' =>
        rw [h] at hb
        obtain ⟨hi, hn', -⟩ := hstate s hs hn a s' h
        exact (hg a (hf.returns s hs hn a s' h)).returns s' hi hn' b s'' hb

/-- Reading something of the state that the buffer has no part in. -/
theorem get {p : Impl → α} {g : α → Act β} (hp : ∀ s more, p (Impl.feed s more) = p s)
    (hP : ∀ s : Impl, s.Idle → P (p s)) (hg : ∀ a, P a → Steady n Q (g a)) :
    Steady n Q (MonadState.get >>= fun s => g (p s)) := by
  constructor
  · intro s hs hn more
    show g (p (s.feed more)) (s.feed more) = _
    rw [hp]
    exact (hg _ (hP s hs)).feeds s hs hn more
  · exact fun s hs hn => (hg _ (hP s hs)).keeps s hs hn
  · exact fun s hs hn => (hg _ (hP s hs)).idle s hs hn
  · exact fun s hs hn => (hg _ (hP s hs)).returns s hs hn

/-- Changing something the buffer has no part in. -/
theorem change {f : Impl → Impl} {P : PUnit → Prop}
    (hfeed : ∀ s more, f (Impl.feed s more) = (f s).feed more) (hkept : ∀ s, Kept s (f s))
    (hidle : ∀ s : Impl, s.Idle → (f s).Idle) (hP : P ⟨⟩) :
    Steady n P (modify f : Act PUnit) where
  feeds s _ _ more := congrArg (EStateM.Result.ok PUnit.unit) (hfeed s more)
  keeps s _ _ := hkept s
  idle s hs _ := hidle s hs
  returns s _ _ b s' h := by
    cases h
    exact hP

theorem mono {P P' : α → Prop} {f : Act α} (h : Steady n P f) (hP : ∀ a, P a → P' a) :
    Steady n P' f where
  feeds := h.feeds
  keeps := h.keeps
  idle := h.idle
  returns s hs hn a s' ha := hP a (h.returns s hs hn a s' ha)

theorem frontOr {e : Exn} {k : Nat} (hk : k ≤ n) :
    Steady n (fun _ => True) (ServerTransport.frontOr e k) := by
  have hfront : ∀ s : Impl, n ≤ s.buf.length →
      ServerTransport.frontOr e k s = .ok (s.buf.take k) s := by
    intro s hn
    rw [ServerTransport.frontOr, if_neg (by omega)]
  constructor
  · intro s _ hn more
    have hn' : n ≤ (s.feed more).buf.length := by
      rw [Impl.feed, List.length_append]
      omega
    rw [hfront s hn, hfront _ hn', onState, Impl.feed, List.take_append_of_le_length (by omega)]
  · intro s _ hn
    rw [hfront s hn]
    exact Kept.rfl
  · intro s hs hn
    rw [hfront s hn]
    exact hs
  · exact fun _ _ _ _ _ _ => trivial

end Steady

/-! ## Streams and sending -/

variable {n : Nat}

theorem lookup_mem {id : BitVec 31} {streams : List (BitVec 31 × ServerStream)}
    {stream : ServerStream} (h : streams.lookup id = some stream) : (id, stream) ∈ streams := by
  induction streams with
  | nil => cases h
  | cons p streams ih =>
      rw [List.lookup_cons] at h
      cases hid : id == p.1 with
      | true =>
          rw [hid] at h
          cases h
          rw [beq_iff_eq.mp hid]
          exact List.mem_cons_self
      | false =>
          rw [hid] at h
          exact List.mem_cons_of_mem _ (ih h)

theorem find_steady (id : BitVec 31) :
    Steady n (fun found => ∀ stream, found = some stream → stream.state_ = .Idle) (find id) :=
  Steady.get (p := fun s => s.streams_.lookup id) (fun _ _ => rfl)
    (fun _ hs _ h => hs _ (lookup_mem h)) fun _ h => Steady.pure h

theorem getStream_steady (id : BitVec 31) :
    Steady n (fun stream => stream.state_ = .Idle) (getStream id) := by
  refine (find_steady id).bind ?_
  intro found hfound
  cases found with
  | some stream => exact Steady.pure (hfound stream rfl)
  | none => exact Steady.throw _

theorem emplace_steady (id : BitVec 31) {stream : ServerStream} (h : stream.state_ = .Idle) :
    Steady n (fun _ => True) (emplace id stream) := by
  refine Steady.change (fun _ _ => rfl) (fun _ => ⟨rfl, rfl, rfl, rfl⟩) ?_ trivial
  intro s hs p hp
  rcases List.mem_append.mp hp with hp | hp
  · exact hs p hp
  · rw [List.mem_singleton.mp hp]
    exact h

theorem store_steady (id : BitVec 31) {stream : ServerStream} (h : stream.state_ = .Idle) :
    Steady n (fun _ => True) (store id stream) := by
  refine Steady.change (fun _ _ => rfl) (fun _ => ⟨rfl, rfl, rfl, rfl⟩) ?_ trivial
  intro s hs p hp
  obtain ⟨q, hq, rfl⟩ := List.mem_map.mp hp
  split
  · exact h
  · exact hs q hq

theorem erase_steady (id : BitVec 31) : Steady n (fun _ => True) (erase id) := by
  refine Steady.change (fun _ _ => rfl) (fun _ => ⟨rfl, rfl, rfl, rfl⟩) ?_ trivial
  exact fun s hs p hp => hs p (List.mem_of_mem_filter hp)

theorem send_steady (payload : Bytes) : Steady n (fun _ => True) (send payload) :=
  Steady.change (fun _ _ => rfl) (fun _ => ⟨rfl, rfl, rfl, rfl⟩) (fun _ hs => hs) trivial

theorem dispatch_steady (stream : ServerStream) : Steady n (fun _ => True) (dispatch stream) := by
  refine Steady.bind (P := fun _ => True) ?_ fun _ _ => send_steady _
  exact Steady.change (fun _ _ => rfl) (fun _ => ⟨rfl, rfl, rfl, rfl⟩) (fun _ hs => hs) trivial

/-! ## The handlers -/

theorem receiveData_steady (header : FrameHeader) :
    Steady n (fun _ => True) (receiveData header) := by
  unfold receiveData
  split
  · exact Steady.throw _
  · refine (getStream_steady _).bind fun stream hstream => ?_
    -- an idle stream takes no data
    rw [if_pos (by rw [hstream]; decide)]
    exact Steady.throw _

theorem parseHeaders_steady (block : Bytes) :
    Steady n (fun _ => True) (ServerTransport.parseHeaders block) := by
  have hok : ∀ (s : Impl) headers table_,
      Hpack.parseHeaders s.headerDecoder_ block = (.ok headers, table_) →
      ServerTransport.parseHeaders block s = .ok headers { s with headerDecoder_ := table_ } := by
    intro s headers table_ h
    rw [ServerTransport.parseHeaders, h]
  have herror : ∀ (s : Impl) e table_,
      Hpack.parseHeaders s.headerDecoder_ block = (.error e, table_) →
      ServerTransport.parseHeaders block s = .error e { s with headerDecoder_ := table_ } := by
    intro s e table_ h
    rw [ServerTransport.parseHeaders, h]
  constructor
  · intro s _ _ more
    rcases hparse : Hpack.parseHeaders s.headerDecoder_ block with ⟨result, table_⟩
    cases result with
    | ok headers =>
        rw [hok s headers table_ hparse, hok (s.feed more) headers table_ hparse]
        rfl
    | error e =>
        rw [herror s e table_ hparse, herror (s.feed more) e table_ hparse]
        rfl
  · intro s _ _
    rcases hparse : Hpack.parseHeaders s.headerDecoder_ block with ⟨result, table_⟩
    cases result with
    | ok headers =>
        rw [hok s headers table_ hparse]
        exact ⟨rfl, rfl, rfl, rfl⟩
    | error e =>
        rw [herror s e table_ hparse]
        exact ⟨rfl, rfl, rfl, rfl⟩
  · intro s hs _
    rcases hparse : Hpack.parseHeaders s.headerDecoder_ block with ⟨result, table_⟩
    cases result with
    | ok headers =>
        rw [hok s headers table_ hparse]
        exact hs
    | error e =>
        rw [herror s e table_ hparse]
        exact hs
  · exact fun _ _ _ _ _ _ => trivial

theorem findOrEmplace_steady (id : BitVec 31) :
    Steady n (fun stream => stream.state_ = .Idle) (findOrEmplace id) := by
  refine (find_steady id).bind fun found hfound => ?_
  cases found with
  | some stream => exact Steady.pure (hfound stream rfl)
  | none => exact (emplace_steady id rfl).bind fun _ _ => Steady.pure rfl

theorem receiveHeaders_steady (header : FrameHeader) :
    Steady header.length.toNat (fun _ => True) (receiveHeaders header) := by
  refine (Steady.frontOr (Nat.le_refl _)).bind fun block _ => ?_
  refine (parseHeaders_steady block).bind fun headers _ => ?_
  refine (findOrEmplace_steady _).bind fun stream hstream => ?_
  refine Steady.bind (store_steady header.streamId ?_) fun _ _ => ?_
  · exact hstream
  · exact (dispatch_steady _).bind fun _ _ => erase_steady _

/-- A PING that is an acknowledgement, or not a correct one. -/
theorem receivePing_steady {header : FrameHeader}
    (h : isPingACK header = true ∨ header.streamId ≠ 0 ∨ header.length ≠ 8) :
    Steady n (fun _ => True) (receivePing header) := by
  unfold receivePing
  split
  · exact Steady.pure trivial
  · rename_i hack
    split
    · exact Steady.throw _
    · rename_i hid
      rw [if_pos]
      · exact Steady.throw _
      · rcases h with h | h | h
        · exact absurd h hack
        · exact absurd h hid
        · exact h

theorem receiveResetStream_steady (header : FrameHeader) :
    Steady header.length.toNat (fun _ => True) (receiveResetStream header) := by
  unfold receiveResetStream
  split
  · exact Steady.throw _
  · rename_i hlength
    split
    · exact Steady.throw _
    · rw [not_not] at hlength
      rw [hlength]
      exact (Steady.frontOr (Nat.le_refl _)).bind fun _ _ => erase_steady _

theorem receiveSettings_steady (header : FrameHeader) :
    Steady header.length.toNat (fun _ => True) (receiveSettings header) := by
  unfold receiveSettings
  split
  · exact Steady.pure trivial
  · refine (Steady.frontOr (Nat.le_refl _)).bind fun buf _ => ?_
    refine (Steady.ofExcept (P := fun _ => True) fun _ _ => trivial).bind fun settings _ => ?_
    refine Steady.bind (P := fun _ => True) ?_ fun _ _ => send_steady _
    exact Steady.change (fun _ _ => rfl) (fun _ => ⟨rfl, rfl, rfl, rfl⟩) (fun _ hs => hs) trivial

theorem addConnectionWindowSize_steady (windowSize : Int) :
    Steady n (fun _ => True) (addConnectionWindowSize windowSize) := by
  refine Steady.get (P := fun _ => True) (p := fun s => s.windowSize_)
    (g := fun existing => ofExcept ((addWindowSize existing.toInt windowSize).mapError
      (rethrow "connection error: ")) >>= fun windowSize => modify fun s =>
        { s with windowSize_ := BitVec.ofInt 32 windowSize, windowUpdateReceived_ := true })
    (fun _ _ => rfl) (fun _ _ => trivial) fun existing _ => ?_
  refine (Steady.ofExcept (P := fun _ => True) fun _ _ => trivial).bind fun windowSize _ => ?_
  exact Steady.change (fun _ _ => rfl) (fun _ => ⟨rfl, rfl, rfl, rfl⟩) (fun _ hs => hs) trivial

theorem addStreamWindowSize_steady (streamId : BitVec 31) (windowSize : Int) :
    Steady n (fun _ => True) (addStreamWindowSize streamId windowSize) := by
  refine (find_steady streamId).bind fun found hfound => ?_
  cases found with
  | none => exact Steady.pure trivial
  | some stream =>
      refine (Steady.ofExcept (P := fun stream => stream.state_ = .Idle) ?_).bind
        fun _ h => store_steady _ h
      intro changed h
      have hidle := hfound stream rfl
      unfold ServerStream.addWindowSize at h
      split at h
      · cases h
        exact hidle
      · cases h

theorem receiveWindowUpdate_steady (header : FrameHeader) :
    Steady header.length.toNat (fun _ => True) (receiveWindowUpdate header) := by
  unfold receiveWindowUpdate
  split
  · exact Steady.throw _
  · rename_i hlength
    rw [not_not] at hlength
    rw [hlength]
    refine (Steady.frontOr (Nat.le_refl _)).bind fun data _ => ?_
    split
    · exact addConnectionWindowSize_steady _
    · exact addStreamWindowSize_steady _ _

/-- The handler of every frame but a PING that is answered. -/
theorem handler_steady {header : FrameHeader} (h : ¬ header.Answered) :
    Steady header.length.toNat (fun _ => True) (handler header) := by
  unfold handler
  split
  · exact receiveData_steady header
  · split
    · exact receiveHeaders_steady header
    · split
      · rename_i hping
        refine receivePing_steady ?_
        by_contra hcorrect
        simp only [not_or, not_not, Bool.not_eq_true] at hcorrect
        exact h ⟨⟨hping, hcorrect.1⟩, hcorrect.2⟩
      · split
        · exact receiveResetStream_steady header
        · split
          · exact receiveSettings_steady header
          · split
            · exact receiveWindowUpdate_steady header
            · exact Steady.pure trivial

/-- The handler of a PING that is answered takes the payload off the buffer. -/
theorem handler_answered {header : FrameHeader} (h : header.Answered) {s : Impl}
    (hlen : 8 ≤ s.buf.length) :
    handler header s =
      .ok () { s with
        sent := s.sent ++ [({ type := FrameType.PING, flags := setFlag 0 0 true, length := 8 }
          : FrameHeader).writeTo ++ s.buf.take 8]
        buf := s.buf.drop 8 } := by
  obtain ⟨⟨hping, hack⟩, hid, hlength⟩ := h
  have hsize : (s.buf.take 8).length = 8 := by
    rw [List.length_take]
    omega
  have hfront : front 8 s = .ok (s.buf.take 8) s := by
    rw [front, frontOr, if_neg (by omega)]
  have hhandler : handler header = receivePing header := by
    unfold handler
    rw [hping]
    rfl
  have hreceive : receivePing header s =
      (front 8 >>= fun data => sendPingResponse data >>= fun _ => advance 8) s := by
    unfold receivePing
    rw [hack, hid, hlength]
    show (if s.buf.length < 8 then _ else _ : Act Unit) s = _
    rw [if_neg (by omega)]
  rw [hhandler, hreceive, Steady.bind_apply, hfront]
  show (sendPingResponse (s.buf.take 8) >>= fun _ => advance 8) s = _
  rw [Steady.bind_apply]
  show advance 8 _ = _
  unfold advance Shitty.advance
  rw [if_neg (show ¬ s.buf.length < 8 by omega)]
  simp only [hsize]
  rfl

/-- Every other PING that is not an acknowledgement raises an error. -/
theorem handler_refused {header : FrameHeader} (h : header.AsksPing) (hnot : ¬ header.Answered)
    (s : Impl) : ∃ e, handler header s = .error e s := by
  have hhandler : handler header = receivePing header := by
    unfold handler
    rw [h.1]
    rfl
  rw [hhandler, receivePing, h.2, if_neg Bool.false_ne_true]
  by_cases hid : header.streamId ≠ 0
  · rw [if_pos hid]
    exact ⟨_, rfl⟩
  · rw [if_neg hid, if_pos fun hlength => hnot ⟨h, not_not.mp hid, hlength⟩]
    exact ⟨_, rfl⟩

end ServerTransport

end Shitty.Http2
