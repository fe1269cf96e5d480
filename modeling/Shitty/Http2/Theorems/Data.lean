import Shitty.Http2.Logic.Exceptions

/-!
# The octets of a DATA frame

`DataFrame::isPadded` tests the flag END_STREAM, and the pad length octet is not counted
with the padding: a frame is only taken right when neither flag is up, or when both are
and it is refused for its pad length. What a frame carries is given by RFC 7540 section
6.1, and compared with what the handler gives to the stream, for each of the flags being
up or not.
-/

namespace Shitty.Http2.ServerTransport

/-! ## What is in a frame -/

/-- The data of a frame, unless its padding leaves no room for it (RFC 7540 section
6.1). -/
def dataOctets (header : FrameHeader) (payload : Bytes) : Option Bytes :=
  if header.flags.getLsbD 3 then
    match payload with
    | [] => none
    | pad :: rest =>
        if payload.length ≤ pad.toNat then none else some (rest.take (rest.length - pad.toNat))
  else some payload

/-- A frame with that payload is for a stream that takes it. -/
structure Admits (s : Impl) (header : FrameHeader) (payload : Bytes) (stream : ServerStream) :
    Prop where
  streamId : header.streamId ≠ 0
  found : s.streams_.lookup header.streamId = some stream
  state : stream.state_ = .Open ∨ stream.state_ = .HalfClosedLocal
  window : ∃ changed, stream.subtractWindowSize header.length.toNat = .ok changed
  length : payload.length = header.length.toNat

/-- The request goes out with the data behind its body; a frame without data raises an
error and leaves the body as it is. That is so whatever is behind the payload in the
buffer, nothing included: an octet read from there would be seen in the body, or be an
overread. -/
def ExtractsData (s : Impl) (header : FrameHeader) (payload : Bytes) (stream : ServerStream) :
    Prop :=
  ∀ behind, match dataOctets header payload with
    | some data => ∃ t, receiveData header { s with buf := payload ++ behind } = .ok () t ∧
        t.requests = s.requests ++
          [(stream.id_, { stream.request_ with body_ := stream.request_.body_ ++ data })]
    | none => ∃ e t, e ≠ .overread ∧
        receiveData header { s with buf := payload ++ behind } = .error e t ∧
        t.requests = s.requests ∧
        (t.streams_.lookup header.streamId).map (·.request_) = some stream.request_

/-! ## What is taken -/

section

variable {s : Impl} {header : FrameHeader} {payload : Bytes} {stream : ServerStream}

/-- The request of a stream with more in its body. -/
def extended (stream : ServerStream) (data : Bytes) : ServerStream :=
  { stream with request_ := { stream.request_ with body_ := stream.request_.body_ ++ data } }

/-- `body().append(buf.data(), length)`, and the rest of `receiveData`. -/
def deliver (header : FrameHeader) (stream : ServerStream) (length : Nat) : Act Unit := do
  let data ← front length
  store header.streamId (extended stream data)
  dispatch (extended stream data)
  endStream stream.id_

theorem deliver_eq (header : FrameHeader) (stream : ServerStream) {length : Nat}
    (h : length ≤ s.buf.length) :
    ∃ t, deliver header stream length s = .ok () t ∧
      t.requests = s.requests ++ [(stream.id_, (extended stream (s.buf.take length)).request_)] := by
  unfold deliver
  rw [act_bind_of_ok (front_eq h)]
  exact ⟨_, rfl, rfl⟩

theorem deliver_overread {length : Nat} (h : s.buf.length < length) :
    deliver header stream length s = .error .overread s := by
  unfold deliver
  exact act_bind_of_error (by rw [front, frontOr, if_pos h])

theorem lookup_store (id : BitVec 31) (changed : ServerStream) :
    ∀ {streams : List (BitVec 31 × ServerStream)}, streams.lookup id = some stream →
      (streams.map fun p => if p.1 = id then (id, changed) else p).lookup id = some changed := by
  intro streams h
  induction streams with
  | nil => cases h
  | cons p streams ih =>
      rw [List.map_cons]
      by_cases hp : p.1 = id
      · simp [hp]
      · have hne : (id == p.1) = false := by simpa using fun heq : id = p.1 => hp heq.symm
        rw [List.lookup_cons, hne] at h
        rw [if_neg hp, List.lookup_cons, hne]
        exact ih h

/-- Behind the checks, with less room in the window. -/
theorem receiveData_admitted (h : Admits s header payload stream) (buf : Bytes) :
    ∃ s₁ stream₁, receiveData header { s with buf := buf } =
        ((if DataFrame.isPadded header then takePadLength header.length.toNat
          else pure header.length.toNat) >>= deliver header stream₁) s₁ ∧
      s₁.buf = buf ∧ s₁.requests = s.requests ∧
      s₁.streams_.lookup header.streamId = some stream₁ ∧
      stream₁.id_ = stream.id_ ∧ stream₁.request_ = stream.request_ := by
  obtain ⟨changed, hchanged⟩ := h.window
  have hsame : changed.id_ = stream.id_ ∧ changed.request_ = stream.request_ := by
    unfold ServerStream.subtractWindowSize at hchanged
    split at hchanged
    · cases hchanged
    · cases hchanged
      exact ⟨rfl, rfl⟩
  refine ⟨{ s with
      buf := buf
      streams_ := s.streams_.map fun p =>
        if p.1 = header.streamId then (header.streamId, changed) else p },
    changed, ?_, rfl, rfl, lookup_store header.streamId changed h.found, hsame⟩
  have hlookup : ({ s with buf := buf } : Impl).streams_.lookup header.streamId = some stream :=
    h.found
  have hok : ofExcept (stream.subtractWindowSize header.length.toNat) { s with buf := buf } =
      .ok changed { s with buf := buf } := by
    rw [hchanged]
    rfl
  unfold receiveData
  rw [if_neg h.streamId, act_bind_of_ok (getStream_some hlookup), if_neg (by have := h.state; tauto),
    act_bind_of_ok hok]
  cases DataFrame.isPadded header <;> rfl

/-- Nothing is taken for padding: the octets are those of the payload. -/
theorem receiveData_plain (h : Admits s header payload stream)
    (hplain : header.flags.getLsbD 0 = false) (behind : Bytes) :
    ∃ t, receiveData header { s with buf := payload ++ behind } = .ok () t ∧
      t.requests = s.requests ++ [(stream.id_, (extended stream payload).request_)] := by
  obtain ⟨s₁, stream₁, heq, hbuf, hrequests, -, hid, hrequest⟩ :=
    receiveData_admitted h (payload ++ behind)
  rw [DataFrame.isPadded, hplain, if_neg Bool.false_ne_true,
    act_bind_of_ok (show (pure header.length.toNat : Act Nat) s₁ = .ok _ s₁ from rfl)] at heq
  have hle : header.length.toNat ≤ s₁.buf.length := by
    rw [hbuf, List.length_append, h.length]
    omega
  obtain ⟨t, hok, ht⟩ := deliver_eq header stream₁ hle
  refine ⟨t, by rw [heq, hok], ?_⟩
  rw [ht, hbuf, hrequests, hid, List.take_left' h.length, extended, extended, hrequest]

/-- The frame is refused for its padding. -/
theorem takePadLength_refuses {length : Nat}
    (h : length = 0 ∨ s.buf = [] ∨ length < (dataAt s.buf 0).toNat) :
    ∃ what t, takePadLength length s = .error (.runtime_error what) t ∧
      t.requests = s.requests ∧ t.streams_ = s.streams_ := by
  unfold takePadLength
  show ∃ what t, (if length = 0 ∨ s.buf = [] then _ else _ : Act Nat) s = _ ∧ _
  by_cases hempty : length = 0 ∨ s.buf = []
  · rw [if_pos hempty]
    exact ⟨_, _, rfl, rfl, rfl⟩
  · rw [if_neg hempty]
    obtain ⟨-, hbuf⟩ := not_or.mp hempty
    have hpos : 1 ≤ s.buf.length := List.length_pos_iff.mpr hbuf
    have hoctet : dataAt (s.buf.take 1) 0 = dataAt s.buf 0 := by
      cases hs : s.buf with
      | nil => exact absurd hs hbuf
      | cons octet rest => rfl
    rw [act_bind_of_ok (front_eq hpos), act_bind_of_ok (advance_eq hpos), hoctet]
    simp only [if_pos (show length < (dataAt s.buf 0).toNat by tauto)]
    exact ⟨_, _, rfl, rfl, rfl⟩

theorem receiveData_refused (h : Admits s header payload stream)
    (hpadded : header.flags.getLsbD 0 = true)
    (hrefused : ∀ pad rest, payload = pad :: rest → payload.length < pad.toNat) (behind : Bytes) :
    ∃ e t, e ≠ .overread ∧
      receiveData header { s with buf := payload ++ behind } = .error e t ∧
      t.requests = s.requests ∧
      (t.streams_.lookup header.streamId).map (·.request_) = some stream.request_ := by
  obtain ⟨s₁, stream₁, heq, hbuf, hrequests, hlookup, -, hrequest⟩ :=
    receiveData_admitted h (payload ++ behind)
  obtain ⟨what, t, herror, hsame, hstreams⟩ :
      ∃ what t, takePadLength header.length.toNat s₁ = .error (.runtime_error what) t ∧
        t.requests = s₁.requests ∧ t.streams_ = s₁.streams_ := by
    apply takePadLength_refuses
    rw [hbuf, ← h.length]
    cases payload with
    | nil => exact .inl rfl
    | cons pad rest => exact .inr (.inr (hrefused pad rest rfl))
  rw [DataFrame.isPadded, hpadded, if_pos rfl, act_bind_of_error herror] at heq
  refine ⟨_, t, by simp, heq, hsame.trans hrequests, ?_⟩
  rw [hstreams, hlookup, Option.map_some, hrequest]

/-- Taken for padded, the frame loses its first octet, and from there on as many as its
pad length says less of its octets than there are: the last one may be behind it. -/
theorem receiveData_padded {pad : Octet} {rest : Bytes}
    (h : Admits s header (pad :: rest) stream) (hpadded : header.flags.getLsbD 0 = true)
    (hpad : pad.toNat ≤ (pad :: rest).length) :
    (∃ t, receiveData header { s with buf := pad :: rest } = .error .overread t) ∨
      ∃ t, receiveData header { s with buf := pad :: rest } = .ok () t ∧
        t.requests = s.requests ++ [(stream.id_,
          (extended stream (rest.take ((pad :: rest).length - pad.toNat))).request_)] ∧
        pad.toNat ≠ 0 := by
  obtain ⟨s₁, stream₁, heq, hbuf, hrequests, -, hid, hrequest⟩ :=
    receiveData_admitted h (pad :: rest)
  have htaken : takePadLength header.length.toNat s₁ =
      .ok ((pad :: rest).length - pad.toNat) { s₁ with buf := rest } := by
    rw [takePadLength_ok, hbuf, ← h.length]
    exact ⟨by simp, by simp, hpad, rfl, rfl⟩
  rw [DataFrame.isPadded, hpadded, if_pos rfl, act_bind_of_ok htaken] at heq
  by_cases hzero : pad.toNat = 0
  · refine .inl ⟨{ s₁ with buf := rest }, ?_⟩
    rw [heq]
    apply deliver_overread
    rw [hzero]
    simp
  · have hle : (pad :: rest).length - pad.toNat ≤ ({ s₁ with buf := rest } : Impl).buf.length := by
      rw [List.length_cons]
      show _ ≤ rest.length
      omega
    obtain ⟨t, hok, ht⟩ := deliver_eq header stream₁ hle
    refine .inr ⟨t, by rw [heq, hok], ?_, hzero⟩
    rw [ht, hid, extended, extended, hrequest]
    rw [← hrequests]

end

/-! ## Which frames are taken right -/

/-- Neither END_STREAM nor PADDED, or both and no room for the padding. -/
def TakenRight (header : FrameHeader) (payload : Bytes) : Prop :=
  header.flags.getLsbD 0 = header.flags.getLsbD 3 ∧
    (header.flags.getLsbD 3 = true →
      ∀ pad rest, payload = pad :: rest → payload.length < pad.toNat)

/-- What is in the body can be told from the request. -/
theorem ExtractsData.of_ok {s t : Impl} {header : FrameHeader} {payload behind data : Bytes}
    {stream : ServerStream} (h : ExtractsData s header payload stream)
    (hok : receiveData header { s with buf := payload ++ behind } = .ok () t)
    (ht : t.requests = s.requests ++ [(stream.id_, (extended stream data).request_)]) :
    dataOctets header payload = some data := by
  have hbehind := h behind
  cases hdata : dataOctets header payload with
  | none =>
      simp only [hdata, hok] at hbehind
      obtain ⟨e, t', -, herror, -⟩ := hbehind
      cases herror
  | some data' =>
      simp only [hdata, hok] at hbehind
      obtain ⟨t', hok', ht'⟩ := hbehind
      cases hok'
      rw [ht] at ht'
      simpa [extended, eq_comm] using ht'

theorem ExtractsData.of_error {s t : Impl} {header : FrameHeader} {payload behind : Bytes}
    {stream : ServerStream} (h : ExtractsData s header payload stream) {e : Exn}
    (herror : receiveData header { s with buf := payload ++ behind } = .error e t) :
    dataOctets header payload = none ∧ e ≠ .overread := by
  have hbehind := h behind
  cases hdata : dataOctets header payload with
  | none =>
      simp only [hdata, herror] at hbehind
      obtain ⟨e', t', hne, herror', -⟩ := hbehind
      cases herror'
      exact ⟨rfl, hne⟩
  | some data =>
      simp only [hdata, herror] at hbehind
      obtain ⟨t', hok, -⟩ := hbehind
      cases hok

/-- How many octets of data there are in a frame. -/
theorem length_of_dataOctets {header : FrameHeader} {pad : Octet} {rest data : Bytes}
    (h : dataOctets header (pad :: rest) = some data) :
    if header.flags.getLsbD 3 = true then data.length + pad.toNat = rest.length
    else data.length = rest.length + 1 := by
  unfold dataOctets at h
  by_cases hpadded : header.flags.getLsbD 3 = true
  · simp only [if_pos hpadded, List.length_cons] at h ⊢
    split at h
    · cases h
    · cases h
      rw [List.length_take]
      omega
  · rw [if_neg hpadded] at h ⊢
    cases h
    rfl

/-- A frame with the flag END_STREAM is taken right only when it is refused. -/
theorem ExtractsData.refused {s : Impl} {header : FrameHeader} {payload : Bytes}
    {stream : ServerStream} (hright : ExtractsData s header payload stream)
    (h : Admits s header payload stream) (hcode : header.flags.getLsbD 0 = true) :
    ∀ pad rest, payload = pad :: rest → payload.length < pad.toNat := by
  intro pad rest hpayload
  subst hpayload
  by_contra hpad
  have happend : (pad :: rest) ++ [] = pad :: rest := List.append_nil _
  rcases receiveData_padded h hcode (Nat.le_of_not_lt hpad) with
    ⟨t, hover⟩ | ⟨t, hok, ht, hzero⟩
  · rw [← happend] at hover
    exact (hright.of_error hover).2 rfl
  · rw [← happend] at hok
    have hlength := length_of_dataOctets (hright.of_ok hok ht)
    rw [List.length_take, List.length_cons] at hlength
    split at hlength <;> simp only [List.length_cons] at hpad <;> omega

/-- A frame is taken right exactly when neither of the flags is up, or both are and the
pad length is refused. -/
theorem extractsData_iff {s : Impl} {header : FrameHeader} {payload : Bytes}
    {stream : ServerStream} (h : Admits s header payload stream) :
    ExtractsData s header payload stream ↔ TakenRight header payload := by
  constructor
  · intro hright
    cases hcode : header.flags.getLsbD 0 with
    | false =>
        -- the whole payload is taken
        obtain ⟨t, hok, ht⟩ := receiveData_plain h hcode []
        have hdata := hright.of_ok hok ht
        have hplain : header.flags.getLsbD 3 = false := by
          by_contra hpadded
          rw [Bool.not_eq_false] at hpadded
          cases payload with
          | nil => simp [dataOctets, hpadded] at hdata
          | cons pad rest =>
              have hlength := length_of_dataOctets hdata
              rw [if_pos hpadded, List.length_cons] at hlength
              omega
        refine ⟨hcode.trans hplain.symm, fun hpadded => ?_⟩
        rw [hplain] at hpadded
        cases hpadded
    | true =>
        have hrefused := hright.refused h hcode
        obtain ⟨e, t, -, herror, -⟩ := receiveData_refused h hcode hrefused []
        have hnone := (hright.of_error herror).1
        have hpadded : header.flags.getLsbD 3 = true := by
          by_contra hplain
          unfold dataOctets at hnone
          rw [if_neg hplain] at hnone
          cases hnone
        exact ⟨hcode.trans hpadded.symm, fun _ => hrefused⟩
  · rintro ⟨hflags, hrefused⟩ behind
    cases hpadded : header.flags.getLsbD 3 with
    | false =>
        rw [hpadded] at hflags
        simp only [dataOctets, hpadded]
        exact receiveData_plain h hflags behind
    | true =>
        rw [hpadded] at hflags
        have hall := hrefused hpadded
        have hdata : dataOctets header payload = none := by
          unfold dataOctets
          rw [if_pos hpadded]
          cases payload with
          | nil => rfl
          | cons pad rest => exact if_pos (Nat.le_of_lt (hall pad rest rfl))
        rw [hdata]
        exact receiveData_refused h hflags hall behind

/-- A transport with stream 3 open. -/
def withStream3 : Impl := { streams_ := [(3, { id_ := 3, state_ := .Open })] }

/-- A DATA frame of two octets on it. -/
def dataFrame (flags : BitVec 8) : FrameHeader :=
  { type := FrameType.DATA, flags := flags, streamId := 3, length := 2 }

theorem admits_dataFrame (flags : BitVec 8) :
    Admits withStream3 (dataFrame flags) [0x68, 0x69] { id_ := 3, state_ := .Open } :=
  ⟨by simp [dataFrame], rfl, .inl rfl, ⟨_, rfl⟩, rfl⟩

theorem extractsData_plain :
    ExtractsData withStream3 (dataFrame 0) [0x68, 0x69] { id_ := 3, state_ := .Open } :=
  (extractsData_iff (admits_dataFrame 0)).mpr ⟨rfl, fun h => by simp [dataFrame] at h⟩

/-- The last frame of a request is refused, for `h` is more than its length. -/
theorem endStream_refused :
    ¬ ∀ s header payload stream, Admits s header payload stream →
      ExtractsData s header payload stream := by
  intro h
  have hright := h _ _ _ _ (admits_dataFrame 1)
  obtain ⟨e, t, -, herror, -⟩ := receiveData_refused (admits_dataFrame 1) rfl
    (fun pad rest hpayload => by cases hpayload; simp) []
  have hnone := (hright.of_error herror).1
  cases hnone

end Shitty.Http2.ServerTransport
