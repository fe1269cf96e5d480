import Shitty.Hpack.Theorems.Acceptance
import Shitty.Http2.Logic.Steps
import Shitty.Lib.Returns

/-!
# Frames that raise no error

When `onInput` returns, for each frame on its way read off the header, the octets behind
it and what the transport knows of streams, windows and the header table. The states in
front of the turns are a list that can be computed, and each of them is told what its
frame has to be, type by type. The loop returns when all of them do.
-/

namespace Shitty.Http2.ServerTransport

open Lib Hpack

/-! ## What a frame has to be -/

/-- A window of that size can be widened. -/
def Widened (existing increment : Int) : Prop :=
  1 ≤ increment ∧ (existing < 0 ∨ existing + increment ≤ INT32_MAX)

/-- DATA for a stream that is open. The pad length octet is taken off the buffer in
front of the whole payload. -/
def TakesData (header : FrameHeader) (s : Impl) : Prop :=
  header.streamId ≠ 0 ∧ ∃ stream, s.streams_.lookup header.streamId = some stream ∧
    (stream.state_ = .Open ∨ stream.state_ = .HalfClosedLocal) ∧
    ¬ (stream.windowSize_.toInt < 0 ∧ stream.windowSize_.toInt.natAbs < header.length.toNat) ∧
    (DataFrame.isPadded header = true → header.length ≠ 0 ∧
      (dataAt s.buf 0).toNat ≤ header.length.toNat ∧ header.length.toNat < s.buf.length)

/-- The turns taken on the header block of a HEADERS frame. -/
def blockTurns (header : FrameHeader) (s : Impl) : List Turn :=
  parse_turns (s.buf.take header.length.toNat).length s.headerDecoder_
    (s.buf.take header.length.toNat)

/-- The increment of a WINDOW_UPDATE frame. -/
def incrementOf (s : Impl) : Int := readWindowSize (s.buf.take 4)

/-- A frame that raises no error when its payload is at the front of the buffer. A PING
is taken off twice. -/
def Takes (header : FrameHeader) (s : Impl) : Prop :=
  if header.type = FrameType.DATA then TakesData header s
  else if header.type = FrameType.HEADERS then ∀ turn ∈ blockTurns header s, turn.Decodes
  else if header.type = FrameType.PING then
    header.flags.getLsbD 0 = true ∨ (header.streamId = 0 ∧ header.length = 8 ∧ 16 ≤ s.buf.length)
  else if header.type = FrameType.RST_STREAM then header.length = 4 ∧ header.streamId ≠ 0
  else if header.type = FrameType.SETTINGS then
    header.flags.getLsbD 0 = true ∨ header.length.toNat % 6 = 0
  else if header.type = FrameType.WINDOW_UPDATE then
    header.length = 4 ∧
      if header.streamId = 0 then Widened s.windowSize_.toInt (incrementOf s)
      else ∀ stream, s.streams_.lookup header.streamId = some stream →
        Widened stream.windowSize_.toInt (incrementOf s)
  else True

/-- The frame of which a turn may find all, and the buffer from its payload on. -/
def frameOf (s : Impl) : Option (FrameHeader × Bytes) :=
  match s.currentFrameHeader_ with
  | some header => some (header, s.buf)
  | none => (readFrameHeader s.buf).toOption

/-- A turn that raises no error. -/
def TakesFrame (s : Impl) : Prop :=
  ∀ header rest, frameOf s = some (header, rest) → header.length.toNat ≤ rest.length →
    Takes header { s with buf := rest }

/-! ## The handlers -/

theorem buf_apart (bs : Bytes) : Apart fun s => s.buf = bs := fun _ _ _ _ _ hs => hs

theorem receiveSettings_keeps (header : FrameHeader) (bs : Bytes) :
    Keeps (receiveSettings header) fun s => s.buf = bs := by
  refine .ite (.pure _) (.bind (frontOr_keeps _ _) fun buf => ?_)
  refine .bind (ofExcept_keeps _) fun settings => ?_
  exact .bind (.modify fun _ hs => hs) fun _ => send_keeps (buf_apart bs) _

theorem receiveWindowUpdate_keeps (header : FrameHeader) (bs : Bytes) :
    Keeps (receiveWindowUpdate header) fun s => s.buf = bs := by
  refine .ite (.throw _) (.bind (frontOr_keeps _ _) fun data => .ite ?_ ?_)
  · exact .get_bind fun _ => .bind (ofExcept_keeps _) fun _ => .modify fun _ hs => hs
  · exact addStreamWindowSize_keeps (buf_apart bs) _ _

/-! ## When they return -/

section

variable {header : FrameHeader} {s : Impl}

/-- Behind a handler that leaves the buffer alone, the payload is there to be taken
off. -/
theorem takeOff_iff {f : Act Unit} (hf : Keeps f fun t => t.buf = s.buf)
    (hlen : header.length.toNat ≤ s.buf.length) :
    Returns (f >>= fun _ => advance header.length.toNat) s ↔ Returns f s := by
  refine Returns.bind_always fun u t h => ?_
  have hbuf : t.buf = s.buf := hf.of_ok rfl h
  exact ⟨(), _, advance_eq (by rw [hbuf]; exact hlen)⟩

theorem addWindowSize_iff (existing increment : Int) :
    (∃ w, addWindowSize existing increment = .ok w) ↔ Widened existing increment := by
  unfold addWindowSize Widened wouldAddOverflow
  by_cases hone : increment < 1
  · rw [if_pos hone]
    refine iff_of_false ?_ (by omega)
    rintro ⟨w, hw⟩
    cases hw
  · rw [if_neg hone]
    by_cases hneg : existing < 0
    · rw [if_pos hneg]
      exact iff_of_true ⟨_, rfl⟩ ⟨by omega, .inl hneg⟩
    · rw [if_neg hneg]
      by_cases hover : INT32_MAX - existing < increment
      · rw [if_pos (decide_eq_true hover)]
        refine iff_of_false ?_ (by omega)
        rintro ⟨w, hw⟩
        cases hw
      · rw [if_neg (by simpa using hover)]
        exact iff_of_true ⟨_, rfl⟩ ⟨by omega, .inr (by omega)⟩

theorem ofExcept_returns {α : Type} (x : Except Exn α) :
    Returns (ofExcept x) s ↔ ∃ a, x = .ok a := by
  cases x with
  | error e =>
      refine iff_of_false ?_ ?_
      · rintro ⟨a, t, h⟩
        cases h
      · rintro ⟨a, h⟩
        cases h
  | ok a => exact iff_of_true ⟨a, s, rfl⟩ ⟨a, rfl⟩

theorem receiveHeaders_returns (hlen : header.length.toNat ≤ s.buf.length) :
    Returns (receiveHeaders header) s ↔ ∀ turn ∈ blockTurns header s, turn.Decodes := by
  have hblock : (s.buf.take header.length.toNat).length * 8 < UINTMAX_MOD := by
    have := header.length.isLt
    rw [List.length_take, UINTMAX_MOD]
    omega
  have hfront : frontOr (.assertion "buf.size() >= frameHeader.length") header.length.toNat s =
      .ok (s.buf.take header.length.toNat) s := by
    rw [frontOr, if_neg (by omega)]
  -- only the decoder may object
  have hfound : ∀ id, Always (findOrEmplace id) := by
    intro id t
    unfold findOrEmplace
    refine (Returns.bind_of_ok (show find id t = .ok (t.streams_.lookup id) t from rfl)).mpr ?_
    cases t.streams_.lookup id with
    | some stream => exact Returns.of_pure _ _
    | none => exact ⟨_, _, rfl⟩
  unfold receiveHeaders
  rw [Returns.bind_of_ok hfront, blockTurns, ← parseHeaders_returns_iff hblock]
  rw [Returns.bind_always fun headers t _ => ((hfound header.streamId).bind fun _ => ?_) t]
  · unfold Returns ServerTransport.parseHeaders
    rcases Hpack.parseHeaders s.headerDecoder_ (s.buf.take header.length.toNat) with ⟨r, table_⟩
    cases r <;> simp
  · exact fun t => ⟨_, _, rfl⟩

theorem receiveResetStream_returns (hlen : header.length.toNat ≤ s.buf.length) :
    Returns (receiveResetStream header) s ↔ header.length = 4 ∧ header.streamId ≠ 0 := by
  unfold receiveResetStream
  rw [Returns.throw_else_iff, Returns.throw_else_iff, not_not]
  refine and_congr_right fun hlength => and_iff_left ?_
  have h4 : 4 ≤ s.buf.length := by
    rw [hlength] at hlen
    exact hlen
  exact (Returns.bind_of_ok (front_eq h4)).mpr ⟨_, _, rfl⟩

theorem receiveSettings_returns (hlen : header.length.toNat ≤ s.buf.length) :
    Returns (receiveSettings header) s ↔
      (isSettingsACK header = false → header.length.toNat % 6 = 0) := by
  have hsize : (s.buf.take header.length.toNat).length = header.length.toNat := by
    rw [List.length_take]
    omega
  unfold receiveSettings
  rw [Returns.return_else_iff, Bool.not_eq_true]
  refine forall_congr' fun _ => ?_
  rw [Returns.bind_of_ok (front_eq hlen)]
  refine (Returns.bind_always fun settings t _ => ?_).trans ((ofExcept_returns _).trans ?_)
  · exact ⟨_, _, rfl⟩
  unfold Settings.createFromBuffer
  rw [hsize]
  by_cases hsix : header.length.toNat % 6 = 0
  · rw [if_neg (not_not.mpr hsix)]
    exact iff_of_true ⟨_, rfl⟩ hsix
  · rw [if_pos hsix]
    refine iff_of_false ?_ hsix
    rintro ⟨settings, h⟩
    cases h

theorem receiveWindowUpdate_returns (hlen : header.length.toNat ≤ s.buf.length) :
    Returns (receiveWindowUpdate header) s ↔ header.length = 4 ∧
      if header.streamId = 0 then Widened s.windowSize_.toInt (incrementOf s)
      else ∀ stream, s.streams_.lookup header.streamId = some stream →
        Widened stream.windowSize_.toInt (incrementOf s) := by
  unfold receiveWindowUpdate
  rw [Returns.throw_else_iff, not_not]
  refine and_congr_right fun hlength => ?_
  have h4 : 4 ≤ s.buf.length := by
    rw [hlength] at hlen
    exact hlen
  rw [Returns.bind_of_ok (front_eq h4)]
  unfold incrementOf
  show Returns (if header.streamId = 0 then _ else _ : Act Unit) s ↔ _
  by_cases hid : header.streamId = 0
  · rw [if_pos hid, if_pos hid, ← addWindowSize_iff]
    constructor
    · rintro ⟨u, t, h⟩
      cases hadd : addWindowSize s.windowSize_.toInt (readWindowSize (s.buf.take 4)) with
      | ok w => exact ⟨w, rfl⟩
      | error e =>
          rw [addConnectionWindowSize_error hadd] at h
          cases h
    · rintro ⟨w, hadd⟩
      exact ⟨_, _, addConnectionWindowSize_ok hadd⟩
  · rw [if_neg hid, if_neg hid]
    unfold addStreamWindowSize
    rw [Returns.bind_of_ok (show find header.streamId s =
      .ok (s.streams_.lookup header.streamId) s from rfl)]
    cases s.streams_.lookup header.streamId with
    | none => simp
    | some stream =>
        simp only [Option.some.injEq, forall_eq']
        refine (Returns.bind_always fun stream t _ => ?_).trans ((ofExcept_returns _).trans ?_)
        · exact ⟨_, _, rfl⟩
        rw [← addWindowSize_iff]
        unfold ServerStream.addWindowSize
        cases addWindowSize stream.windowSize_.toInt (readWindowSize (s.buf.take 4)) <;> simp

theorem advance_returns (n : Nat) : Returns (advance n) s ↔ n ≤ s.buf.length := by
  by_cases hlen : n ≤ s.buf.length
  · exact iff_of_true ⟨(), _, advance_eq hlen⟩ hlen
  · refine iff_of_false ?_ hlen
    rintro ⟨u, t, h⟩
    rw [advance_tooShort (Nat.lt_of_not_le hlen)] at h
    cases h

/-- The pad length octet is taken off. -/
theorem takePadLength_ok {length n : Nat} {t : Impl} :
    takePadLength length s = .ok n t ↔
      length ≠ 0 ∧ s.buf ≠ [] ∧ (dataAt s.buf 0).toNat ≤ length ∧
        n = length - (dataAt s.buf 0).toNat ∧ t = { s with buf := s.buf.drop 1 } := by
  unfold takePadLength
  show (if length = 0 ∨ s.buf = [] then _ else _ : Act Nat) s = .ok n t ↔ _
  by_cases hempty : length = 0 ∨ s.buf = []
  · rw [if_pos hempty]
    exact iff_of_false (fun h => by cases h) (by tauto)
  · rw [if_neg hempty]
    obtain ⟨hlength, hbuf⟩ := not_or.mp hempty
    have hpos : 1 ≤ s.buf.length := List.length_pos_iff.mpr hbuf
    have hoctet : dataAt (s.buf.take 1) 0 = dataAt s.buf 0 := by
      cases hs : s.buf with
      | nil => exact absurd hs hbuf
      | cons octet rest => rfl
    rw [act_bind_of_ok (front_eq hpos), act_bind_of_ok (advance_eq hpos), hoctet]
    by_cases hpad : length < (dataAt s.buf 0).toNat
    · refine iff_of_false (fun h => ?_) (by omega)
      simp only [if_pos hpad] at h
      cases h
    · simp only [if_neg hpad, hlength, hbuf, ne_eq, not_false_eq_true, true_and]
      rw [and_iff_right (Nat.le_of_not_lt hpad)]
      constructor
      · intro h
        cases h
        exact ⟨rfl, rfl⟩
      · rintro ⟨rfl, rfl⟩
        rfl

/-- What is left to be done with data when its length without the padding is known. -/
theorem deliver_returns {length n : Nat} {changed : Bytes → ServerStream} :
    (∃ u t, (front length >>= fun data => store header.streamId (changed data) >>= fun _ =>
      dispatch (changed data) >>= fun _ => endStream (changed data).id_ : Act Unit) s = .ok u t ∧
        n ≤ t.buf.length) ↔ length ≤ s.buf.length ∧ n ≤ s.buf.length := by
  by_cases hlength : length ≤ s.buf.length
  · rw [act_bind_of_ok (front_eq hlength), and_iff_right hlength]
    constructor
    · rintro ⟨u, t, h, hn⟩
      cases h
      exact hn
    · exact fun hn => ⟨_, _, rfl, hn⟩
  · have hfront : front length s = .error .overread s := by
      rw [front, frontOr, if_pos (Nat.lt_of_not_le hlength)]
    rw [act_bind_of_error hfront]
    refine iff_of_false ?_ fun h => hlength h.1
    rintro ⟨u, t, h, -⟩
    cases h

/-- No window is taken more from than it can be, unless it is below zero already. -/
theorem subtractWindowSize_iff (stream : ServerStream) (length : BitVec 24) :
    (∃ changed, stream.subtractWindowSize length.toNat = .ok changed) ↔
      ¬ (stream.windowSize_.toInt < 0 ∧ stream.windowSize_.toInt.natAbs < length.toNat) := by
  have hmax : ¬ INT32_MAX < (length.toNat : Int) := by
    have := length.isLt
    rw [INT32_MAX]
    omega
  unfold ServerStream.subtractWindowSize
  by_cases hneg : stream.windowSize_.toInt < 0 ∧ stream.windowSize_.toInt.natAbs < length.toNat
  · rw [if_pos (.inl hneg)]
    refine iff_of_false ?_ (not_not_intro hneg)
    rintro ⟨changed, h⟩
    cases h
  · rw [if_neg (not_or.mpr ⟨hneg, hmax⟩)]
    exact iff_of_true ⟨_, rfl⟩ hneg

theorem getStream_none {id : BitVec 31} (h : s.streams_.lookup id = none) :
    getStream id s = .error (.runtime_error "No such stream") s := by
  unfold getStream
  rw [act_bind_of_ok (show find id s = .ok none s by rw [← h]; rfl)]
  rfl

theorem getStream_some {id : BitVec 31} {stream : ServerStream}
    (h : s.streams_.lookup id = some stream) : getStream id s = .ok stream s := by
  unfold getStream
  rw [act_bind_of_ok (show find id s = .ok (some stream) s by rw [← h]; rfl)]
  rfl

/-- What is left to be done with data: the padding has to fit, with an octet of the
frame behind it. -/
theorem payload_returns (hlen : header.length.toNat ≤ s.buf.length)
    {changed : Bytes → ServerStream} :
    let deliver : Nat → Act Unit := fun length => front length >>= fun data =>
      store header.streamId (changed data) >>= fun _ =>
      dispatch (changed data) >>= fun _ => endStream (changed data).id_
    (∃ u t, (if DataFrame.isPadded header then takePadLength header.length.toNat >>= deliver
        else (pure header.length.toNat : Act Nat) >>= deliver) s = .ok u t ∧
        header.length.toNat ≤ t.buf.length) ↔
      (DataFrame.isPadded header = true → header.length ≠ 0 ∧
        (dataAt s.buf 0).toNat ≤ header.length.toNat ∧ header.length.toNat < s.buf.length) := by
  intro deliver
  by_cases hpadded : DataFrame.isPadded header = true
  · rw [if_pos hpadded, forall_prop_of_true hpadded]
    cases hpad : takePadLength header.length.toNat s with
    | error e t =>
        rw [act_bind_of_error hpad]
        refine iff_of_false (fun ⟨_, _, h, _⟩ => by cases h) ?_
        rintro ⟨hzero, hle, hlt⟩
        have htaken := takePadLength_ok.mpr
          ⟨fun h0 => hzero (BitVec.eq_of_toNat_eq h0),
            List.ne_nil_of_length_pos (by omega), hle, rfl, rfl⟩
        rw [htaken] at hpad
        cases hpad
    | ok length t =>
        obtain ⟨hzero, hbuf, hle, rfl, rfl⟩ := takePadLength_ok.mp hpad
        rw [act_bind_of_ok hpad, deliver_returns]
        have hnonzero : header.length ≠ 0 := fun h0 => hzero (by rw [h0]; rfl)
        have hpos : 0 < s.buf.length := List.length_pos_iff.mpr hbuf
        simp only [List.length_drop]
        constructor
        · rintro ⟨-, hlt⟩
          exact ⟨hnonzero, hle, by omega⟩
        · rintro ⟨-, -, hlt⟩
          exact ⟨by omega, by omega⟩
  · rw [if_neg hpadded]
    refine iff_of_true ?_ fun h => absurd h hpadded
    rw [act_bind_of_ok (show (pure header.length.toNat : Act Nat) s =
      .ok header.length.toNat s from rfl)]
    exact deliver_returns.mpr ⟨hlen, hlen⟩

/-- What there is of a frame for a stream that takes data. -/
theorem receiveData_returns (hlen : header.length.toNat ≤ s.buf.length) :
    Returns (receiveData header >>= fun _ => advance header.length.toNat) s ↔
      TakesData header s := by
  simp only [Returns.bind_iff, advance_returns]
  unfold receiveData TakesData
  by_cases hid : header.streamId = 0
  · rw [if_pos hid]
    exact iff_of_false (fun ⟨_, _, h, _⟩ => by cases h) fun h => h.1 hid
  rw [if_neg hid, and_iff_right hid]
  cases hlookup : s.streams_.lookup header.streamId with
  | none =>
      rw [act_bind_of_error (getStream_none hlookup)]
      exact iff_of_false (fun ⟨_, _, h, _⟩ => by cases h) fun ⟨_, h, _⟩ => by cases h
  | some stream =>
      rw [act_bind_of_ok (getStream_some hlookup)]
      simp only [Option.some.injEq, exists_eq_left']
      by_cases hstate : stream.state_ ≠ .Open ∧ stream.state_ ≠ .HalfClosedLocal
      · rw [if_pos hstate]
        exact iff_of_false (fun ⟨_, _, h, _⟩ => by cases h) fun h => by tauto
      rw [if_neg hstate, and_iff_right (by tauto)]
      cases hsub : stream.subtractWindowSize header.length.toNat with
      | error e =>
          have herror : ofExcept (stream.subtractWindowSize header.length.toNat) s = .error e s := by
            rw [hsub]
            rfl
          rw [← hsub, act_bind_of_error herror]
          refine iff_of_false (fun ⟨_, _, h, _⟩ => by cases h) fun h => ?_
          obtain ⟨changed, hok⟩ := (subtractWindowSize_iff stream header.length).mpr h.1
          rw [hsub] at hok
          cases hok
      | ok changed =>
          rw [and_iff_right ((subtractWindowSize_iff stream header.length).mp ⟨changed, hsub⟩)]
          have hok : ofExcept (Except.ok changed : Except Exn ServerStream) s = .ok changed s := rfl
          obtain ⟨s₁, hstore, hsame⟩ : ∃ s₁, store header.streamId changed s = .ok ⟨⟩ s₁ ∧
              s₁.buf = s.buf := ⟨_, rfl, rfl⟩
          rw [act_bind_of_ok hok, act_bind_of_ok hstore, ← hsame]
          exact payload_returns (hsame ▸ hlen)

/-- An acknowledgement is only taken off; a PING that is answered, off twice. -/
theorem receivePing_returns (htype : header.type = FrameType.PING)
    (hlen : header.length.toNat ≤ s.buf.length) :
    Returns (receivePing header >>= fun _ => advance header.length.toNat) s ↔
      header.flags.getLsbD 0 = true ∨
        (header.streamId = 0 ∧ header.length = 8 ∧ 16 ≤ s.buf.length) := by
  have hack : isPingACK header = header.flags.getLsbD 0 := by
    rw [isPingACK, htype]
    rfl
  have hhandler : handler header = receivePing header := by
    unfold handler
    rw [htype]
    rfl
  cases hflag : header.flags.getLsbD 0 with
  | true =>
      rw [hflag] at hack
      refine iff_of_true ?_ (.inl rfl)
      rw [receivePing, if_pos hack]
      exact (advance_returns _).mpr hlen
  | false =>
      rw [hflag] at hack
      have hasks : header.AsksPing := ⟨htype, hack⟩
      by_cases hanswered : header.Answered
      · have h8 : header.length.toNat = 8 := by
          rw [hanswered.2.2]
          rfl
        rw [← hhandler, Returns.bind_of_ok (handler_answered hanswered (by omega)), advance_returns]
        show header.length.toNat ≤ (s.buf.drop 8).length ↔ _
        rw [List.length_drop, h8]
        constructor
        · exact fun h => .inr ⟨hanswered.2.1, hanswered.2.2, by omega⟩
        · rintro (h | ⟨-, -, h⟩)
          · cases h
          · omega
      · refine iff_of_false ?_ ?_
        · obtain ⟨e, herror⟩ := handler_refused hasks hanswered s
          rw [hhandler] at herror
          rintro ⟨u, t, h⟩
          rw [act_bind_of_error herror] at h
          cases h
        · rintro (h | ⟨hid, hlength, -⟩)
          · cases h
          · exact hanswered ⟨hasks, hid, hlength⟩

/-! ## Frames -/

/-- A handler, and its frame taken off the buffer. -/
theorem handler_returns (hlen : header.length.toNat ≤ s.buf.length) :
    Returns (handler header >>= fun _ => advance header.length.toNat) s ↔ Takes header s := by
  unfold handler Takes
  by_cases hdata : header.type = FrameType.DATA
  · rw [if_pos hdata, if_pos hdata]
    exact receiveData_returns hlen
  rw [if_neg hdata, if_neg hdata]
  by_cases hheaders : header.type = FrameType.HEADERS
  · rw [if_pos hheaders, if_pos hheaders, takeOff_iff (receiveHeaders_keeps (buf_apart _) header) hlen]
    exact receiveHeaders_returns hlen
  rw [if_neg hheaders, if_neg hheaders]
  by_cases hping : header.type = FrameType.PING
  · rw [if_pos hping, if_pos hping]
    exact receivePing_returns hping hlen
  rw [if_neg hping, if_neg hping]
  by_cases hreset : header.type = FrameType.RST_STREAM
  · rw [if_pos hreset, if_pos hreset, takeOff_iff (receiveResetStream_keeps (buf_apart _) header) hlen]
    exact receiveResetStream_returns hlen
  rw [if_neg hreset, if_neg hreset]
  by_cases hsettings : header.type = FrameType.SETTINGS
  · rw [if_pos hsettings, if_pos hsettings, takeOff_iff (receiveSettings_keeps header _) hlen,
      receiveSettings_returns hlen]
    have hack : isSettingsACK header = header.flags.getLsbD 0 := by
      rw [isSettingsACK, hsettings]
      rfl
    rw [hack]
    cases header.flags.getLsbD 0 <;> simp
  rw [if_neg hsettings, if_neg hsettings]
  by_cases hupdate : header.type = FrameType.WINDOW_UPDATE
  · rw [if_pos hupdate, if_pos hupdate, takeOff_iff (receiveWindowUpdate_keeps header _) hlen]
    exact receiveWindowUpdate_returns hlen
  rw [if_neg hupdate, if_neg hupdate]
  exact iff_of_true ((advance_returns _).mpr hlen) trivial

theorem processFrameBody_returns (hcurrent : s.currentFrameHeader_ = some header)
    (hlen : header.length.toNat ≤ s.buf.length) :
    Returns processFrameBody s ↔ Takes header s := by
  have hrecorded : Takes header (recorded header s) ↔ Takes header s := Iff.rfl
  have hlen' : header.length.toNat ≤ (recorded header s).buf.length := hlen
  rw [← hrecorded, ← handler_returns hlen']
  unfold Returns
  rw [processFrameBody_eq hcurrent hlen]
  refine (Returns.bind_iff (s := recorded header s)).trans (Iff.trans ?_ Returns.bind_iff.symm)
  refine exists_congr fun u => exists_congr fun t => and_congr_right fun _ => ?_
  exact Returns.bind_always fun u t _ => ⟨_, _, rfl⟩

/-- When a turn of the loop returns: the frame in front of it is taken, as its type asks for. -/
theorem receiveFrame_returns_iff (s : Impl) : Returns receiveFrame s ↔ TakesFrame s := by
  -- once there is a header
  have hpending : ∀ (s : Impl) (header : FrameHeader), s.currentFrameHeader_ = some header →
      (Returns receiveFrame s ↔ (header.length.toNat ≤ s.buf.length → Takes header s)) := by
    intro s header hcurrent
    unfold Returns
    rw [receiveFrame_pending hcurrent]
    by_cases hlen : s.buf.length < header.length.toNat
    · rw [if_pos hlen]
      exact iff_of_true ⟨_, _, rfl⟩ fun h => absurd hlen (by omega)
    · rw [if_neg hlen, forall_prop_of_true (Nat.le_of_not_lt hlen),
        ← processFrameBody_returns hcurrent (Nat.le_of_not_lt hlen)]
      unfold Returns
      cases processFrameBody s <;> simp
  unfold TakesFrame frameOf
  cases hcurrent : s.currentFrameHeader_ with
  | some header =>
      rw [hpending s header hcurrent]
      simp only [Option.some.injEq, Prod.mk.injEq, and_imp]
      constructor
      · rintro h header' rest rfl rfl hlen
        exact h hlen
      · exact fun h hlen => h header s.buf rfl rfl hlen
  | none =>
      unfold Returns
      rw [receiveFrame_between hcurrent, headerStep]
      by_cases hlen : s.buf.length < FrameHeader.SIZE
      · rw [if_pos hlen]
        refine iff_of_true ⟨_, _, rfl⟩ ?_
        intro header rest h
        rw [readFrameHeader, if_pos hlen] at h
        cases h
      · obtain ⟨header, hread⟩ := readFrameHeader_ok (Nat.le_of_not_lt hlen)
        rw [if_neg hlen, hread]
        refine (hpending _ header rfl).trans ?_
        constructor
        · rintro h header' rest hsome hle
          cases hsome
          exact h hle
        · exact fun h hle => h header _ rfl hle

/-! ## The loops -/

theorem receiveFrames_loop_eq_loop : ∀ turns,
    receiveFrames_loop turns = loop receiveFrame (fun s => s.buf ≠ []) turns := by
  intro turns
  induction turns with
  | zero => rfl
  | succ turns ih =>
      rw [receiveFrames_loop, loop, ih]

/-- The states in which turns of `receiveFrames` begin. -/
def frameTurns (s : Impl) : List Impl :=
  visited receiveFrame (fun s => s.buf ≠ []) (s.buf.length + 2) s

theorem receiveFrames_returns_iff (s : Impl) :
    Returns receiveFrames s ↔ ∀ t ∈ frameTurns s, TakesFrame t := by
  have hloop : receiveFrames s = loop receiveFrame (fun s => s.buf ≠ []) (s.buf.length + 2) s :=
    congrFun (receiveFrames_loop_eq_loop (s.buf.length + 2)) s
  unfold Returns
  rw [hloop]
  exact loop_returns_iff receiveFrame_returns_iff _ s

/-- No octets that should be the preface are anything else. -/
def PrefaceFits (s : Impl) : Prop :=
  s.prefaceReceived_ = false → CLIENT_PREFACE.length ≤ s.buf.length →
    s.buf.take CLIENT_PREFACE.length = CLIENT_PREFACE

/-- The states in which turns of `onInput` begin: behind the preface, `receiveFrames` is
called twice. -/
def inputTurns (s : Impl) : List Impl :=
  if s.prefaceReceived_ then frameTurns s
  else
    match prefaceStep s with
    | .next t =>
        frameTurns t ++
          match receiveFrames t with
          | .ok _ u => frameTurns u
          | .error _ _ => []
    | _ => frameTurns s

theorem onInput_returns_iff (s : Impl) :
    Returns onInput s ↔ PrefaceFits s ∧ ∀ t ∈ inputTurns s, TakesFrame t := by
  have honInput := onInput_eq s
  unfold PrefaceFits inputTurns
  cases hpreface : s.prefaceReceived_ with
  | true =>
      rw [hpreface, if_pos rfl] at honInput
      rw [if_pos rfl, and_iff_right nofun, ← receiveFrames_returns_iff]
      unfold Returns
      rw [honInput]
  | false =>
      rw [hpreface, if_neg Bool.false_ne_true, receivePreface_eq] at honInput
      rw [if_neg Bool.false_ne_true, forall_prop_of_true rfl]
      unfold prefaceStep at honInput ⊢
      by_cases hlen : s.buf.length < CLIENT_PREFACE.length
      · -- come back later
        rw [if_pos hlen] at honInput ⊢
        rw [and_iff_right fun h => absurd hlen (by omega), ← receiveFrames_returns_iff]
        unfold Returns
        rw [honInput]
      · rw [if_neg hlen] at honInput ⊢
        rw [forall_prop_of_true (Nat.le_of_not_lt hlen)]
        by_cases heq : s.buf.take CLIENT_PREFACE.length ≠ CLIENT_PREFACE
        · rw [if_pos heq] at honInput
          refine iff_of_false ?_ fun h => heq h.1
          rintro ⟨u, t, h⟩
          rw [honInput] at h
          cases h
        · rw [if_neg heq] at honInput ⊢
          rw [and_iff_right (not_not.mp heq)]
          simp only [List.forall_mem_append]
          rw [← receiveFrames_returns_iff]
          unfold Returns
          rw [honInput]
          dsimp only
          cases receiveFrames { s with
              prefaceReceived_ := true, buf := s.buf.drop CLIENT_PREFACE.length } with
          | error e t => simp
          | ok u t =>
              refine (receiveFrames_returns_iff t).trans (and_iff_right ?_).symm
              exact ⟨u, t, rfl⟩

end

end Shitty.Http2.ServerTransport
