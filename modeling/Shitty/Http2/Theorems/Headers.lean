import Shitty.Hpack.Theorems.Compositional
import Shitty.Http2.Logic.Handlers

/-!
# The fields of a HEADERS frame

RFC 7540 section 6.2 puts a pad length and a priority field in front of the header
block, and padding behind it. `receiveHeaders` looks at no flag, and gives all of the
payload to the decoder. So a block comes out right exactly when neither flag is there.
With one of them, there are fields in front of a block that the decoder takes for
headers.
-/

namespace Shitty.Http2

open Hpack

/-! ## What is in a frame -/

/-- The octets of the priority field. -/
def prioritySize (flags : BitVec 8) : Nat := if flags.getLsbD 5 then 5 else 0

/-- A payload behind its pad length: the header block fragment, unless there is no room for
the other fields, and how many octets of padding there are. -/
def unpaddedFields (flags : BitVec 8) (rest : Bytes) (padLength : Nat) : Option (Bytes × Nat) :=
  let block := rest.drop (prioritySize flags)
  if rest.length < prioritySize flags + padLength then none
  else some (block.take (block.length - padLength), padLength)

/-- What a receiver is to make of a payload. -/
def headersFields (flags : BitVec 8) (payload : Bytes) : Option (Bytes × Nat) :=
  if flags.getLsbD 3 then
    match payload with
    | [] => none
    | pad :: rest => unpaddedFields flags rest pad.toNat
  else unpaddedFields flags payload 0

/-- What may stand around a header block. -/
structure ExtraFields where
  priority : Bytes
  padding : Bytes
  length_priority : priority.length = 5
  length_padding : padding.length < 256

namespace ExtraFields

def priorityField (fields : ExtraFields) (flags : BitVec 8) : Bytes :=
  if flags.getLsbD 5 then fields.priority else []

/-- The payload that carries a block with the fields that the flags announce. -/
def payload (fields : ExtraFields) (flags : BitVec 8) (block : Bytes) : Bytes :=
  if flags.getLsbD 3 then
    BitVec.ofNat 8 fields.padding.length ::
      (fields.priorityField flags ++ block ++ fields.padding)
  else fields.priorityField flags ++ block

theorem payload_plain (fields : ExtraFields) {flags : BitVec 8} (h3 : flags.getLsbD 3 = false)
    (h5 : flags.getLsbD 5 = false) (block : Bytes) : fields.payload flags block = block := by
  rw [payload, priorityField, h3, h5, if_neg Bool.false_ne_true, if_neg Bool.false_ne_true,
    List.nil_append]

theorem length_priorityField (fields : ExtraFields) (flags : BitVec 8) :
    (fields.priorityField flags).length = prioritySize flags := by
  unfold priorityField prioritySize
  split
  · exact fields.length_priority
  · rfl

theorem unpaddedFields_payload (fields : ExtraFields) (flags : BitVec 8) (block padding : Bytes) :
    unpaddedFields flags (fields.priorityField flags ++ block ++ padding) padding.length =
      some (block, padding.length) := by
  have hlen := fields.length_priorityField flags
  unfold unpaddedFields
  simp only [List.append_assoc, ← hlen, List.drop_left, List.length_append]
  rw [if_neg (by omega), Nat.add_sub_cancel, List.take_left]

/-- The block is where section 6.2 looks for it. -/
theorem headersFields_payload (fields : ExtraFields) (flags : BitVec 8) (block : Bytes) :
    headersFields flags (fields.payload flags block) =
      some (block, if flags.getLsbD 3 then fields.padding.length else 0) := by
  have hpad : (BitVec.ofNat 8 fields.padding.length).toNat = fields.padding.length := by
    have := fields.length_padding
    rw [BitVec.toNat_ofNat, Nat.mod_eq_of_lt this]
  unfold headersFields payload
  by_cases h3 : flags.getLsbD 3 = true
  · simp only [if_pos h3, hpad]
    exact fields.unpaddedFields_payload flags block fields.padding
  · simp only [if_neg h3]
    have hplain := fields.unpaddedFields_payload flags block []
    rwa [List.append_nil] at hplain

end ExtraFields

namespace ServerTransport

/-! ## What becomes of it -/

/-- `receiveHeaders` on a frame with that payload and other octets behind it; the buffer is
`processFrameBody`'s. -/
def receivesHeaders (s : Impl) (header : FrameHeader) (payload behind : Bytes) :
    EStateM.Result Exn Impl Unit :=
  onState (fun t => { t with buf := [] })
    (receiveHeaders { header with length := BitVec.ofNat 24 payload.length }
      { s with buf := payload ++ behind })

/-- The same header with neither PADDED nor PRIORITY set. -/
def plain (header : FrameHeader) : FrameHeader :=
  { header with flags := setFlag (setFlag header.flags 3 false) 5 false }

/-- The frame does what the one with the block alone does: the same request goes out, or
the same exception, from the same table to the same table. -/
def SameRequest (s : Impl) (header : FrameHeader) (block : Bytes) (fields : ExtraFields) : Prop :=
  ∀ behind behind', receivesHeaders s header (fields.payload header.flags block) behind =
    receivesHeaders s (plain header) block behind'

/-- Frames with those flags on that stream are taken as section 6.2 says. -/
structure FieldsTaken (s : Impl) (header : FrameHeader) : Prop where
  same : ∀ block fields, (fields.payload header.flags block).length < 2 ^ 24 →
    SameRequest s header block fields
  rejected : HeadersFrame.isPadded header = true → ∀ pad rest behind, rest.length + 1 < 2 ^ 24 →
    rest.length < prioritySize header.flags + pad.toNat →
      ∃ e t, receivesHeaders s header (pad :: rest) behind = .error e t

section

variable {s : Impl} {header : FrameHeader} {block : Bytes}

/-- The fields of a request with those of a block. -/
def withHeaders (request_ : Message) (headers : List Header) : Message :=
  { request_ with
    headers_ := headers.foldl (fun fields header => fields.add header.name header.value)
      request_.headers_ }

/-- What is done behind the check of the size. -/
def serveBlock (streamId : BitVec 31) (block : Bytes) : Act Unit := do
  let headers ← parseHeaders block
  let stream ← findOrEmplace streamId
  let stream := { stream with request_ := withHeaders stream.request_ headers }
  store streamId stream
  dispatch stream
  endStream stream.id_

theorem findOrEmplace_eq (id : BitVec 31) (s : Impl) :
    ∃ stream streams_, findOrEmplace id s = .ok stream { s with streams_ := streams_ } ∧
      ∀ buf, findOrEmplace id { s with buf := buf } =
        .ok stream { s with streams_ := streams_, buf := buf } := by
  cases hlookup : s.streams_.lookup id with
  | some stream =>
      have hfind : ∀ buf, find id { s with buf := buf } =
          .ok (some stream) { s with buf := buf } := fun buf => by
        rw [← hlookup]
        rfl
      exact ⟨stream, s.streams_, act_bind_of_ok (hfind s.buf), fun buf => act_bind_of_ok (hfind buf)⟩
  | none =>
      have hfind : ∀ buf, find id { s with buf := buf } = .ok none { s with buf := buf } := fun buf => by
        rw [← hlookup]
        rfl
      exact ⟨{ id_ := id }, s.streams_ ++ [(id, { id_ := id })], act_bind_of_ok (hfind s.buf),
        fun buf => act_bind_of_ok (hfind buf)⟩

/-- Nothing behind the check looks at the buffer. -/
theorem serveBlock_buf (streamId : BitVec 31) (block buf : Bytes) (s : Impl) :
    onState (fun t => { t with buf := [] }) (serveBlock streamId block { s with buf := buf }) =
      onState (fun t => { t with buf := [] }) (serveBlock streamId block s) := by
  unfold serveBlock
  rcases hparse : Hpack.parseHeaders s.headerDecoder_ block with ⟨result, table_⟩
  cases result with
  | error e =>
      have hthrown : ∀ buf, parseHeaders block { s with buf := buf } =
          .error e { s with headerDecoder_ := table_, buf := buf } := fun buf => by
        rw [parseHeaders, hparse]
      rw [act_bind_of_error (hthrown buf), act_bind_of_error (hthrown s.buf)]
      rfl
  | ok headers =>
      have hread : ∀ buf, parseHeaders block { s with buf := buf } =
          .ok headers { s with headerDecoder_ := table_, buf := buf } := fun buf => by
        rw [parseHeaders, hparse]
      obtain ⟨stream, streams_, hfound, hbuf⟩ :=
        findOrEmplace_eq streamId { s with headerDecoder_ := table_ }
      rw [act_bind_of_ok (hread buf), act_bind_of_ok (hread s.buf), act_bind_of_ok (hbuf buf),
        act_bind_of_ok hfound]
      rfl

theorem receivesHeaders_eq (s : Impl) (header : FrameHeader) {payload : Bytes} (behind : Bytes)
    (h : payload.length < 2 ^ 24) :
    receivesHeaders s header payload behind =
      onState (fun t => { t with buf := [] }) (serveBlock header.streamId payload s) := by
  have hlen : (BitVec.ofNat 24 payload.length).toNat = payload.length := by
    rw [BitVec.toNat_ofNat, Nat.mod_eq_of_lt h]
  have hfront : frontOr (.assertion "buf.size() >= frameHeader.length")
      (BitVec.ofNat 24 payload.length).toNat { s with buf := payload ++ behind } =
        .ok payload { s with buf := payload ++ behind } := by
    rw [frontOr, hlen, if_neg (by simp), List.take_left]
  rw [receivesHeaders, receiveHeaders]
  dsimp only
  rw [act_bind_of_ok hfront]
  exact serveBlock_buf header.streamId payload _ s

/-! ## Fields that are taken for headers -/

/-- The octet of an indexed field, `:method: GET`. -/
def get : Octet := 0x82

def getHeader : Header := { name := octets ":method", value := octets "GET" }

theorem parseHeaders_get (table_ : DynamicTable) (n : Nat) :
    Hpack.parseHeaders table_ (List.replicate n get) =
      (.ok (List.replicate n getHeader), table_) := by
  induction n with
  | zero => rfl
  | succ n ih =>
      have hfield : parse_field table_ get (get :: ([] ++ List.replicate n get)) =
          .ok (some getHeader, List.replicate n get, table_) := rfl
      have hcons := parseHeaders_cons hfield
      rw [List.nil_append, ih] at hcons
      exact hcons

/-- Such fields in front of a block and behind it. -/
theorem parseHeaders_around {table_ table' : DynamicTable} {headers : List Header}
    (h : Hpack.parseHeaders table_ block = (.ok headers, table')) (k m : Nat) :
    Hpack.parseHeaders table_ (List.replicate k get ++ (block ++ List.replicate m get)) =
      (.ok (List.replicate k getHeader ++ (headers ++ List.replicate m getHeader)), table') := by
  rw [parseHeaders_append (Nat.le_refl _) (parseHeaders_get table_ k),
    parseHeaders_append (Nat.le_refl _) h, parseHeaders_get]
  rfl

theorem length_withHeaders (request_ : Message) (headers : List Header) :
    (withHeaders request_ headers).headers_.length =
      request_.headers_.length + headers.length := by
  have hfold : ∀ fields : Headers, (headers.foldl (fun fields header =>
      fields.add header.name header.value) fields).length = fields.length + headers.length := by
    induction headers with
    | nil => exact fun fields => rfl
    | cons header headers ih =>
        intro fields
        rw [List.foldl_cons, ih, Headers.add, List.length_append, List.length_singleton,
          List.length_cons]
        omega
  exact hfold request_.headers_

/-- The request of a block that is decoded. -/
theorem serveBlock_requests (s : Impl) (streamId : BitVec 31) (table' : DynamicTable) :
    ∃ stream : ServerStream, ∀ block headers,
      Hpack.parseHeaders s.headerDecoder_ block = (.ok headers, table') →
        ∃ t, serveBlock streamId block s = .ok () t ∧
          t.requests = s.requests ++ [(stream.id_, withHeaders stream.request_ headers)] := by
  obtain ⟨stream, streams_, hfound, -⟩ :=
    findOrEmplace_eq streamId { s with headerDecoder_ := table' }
  refine ⟨stream, fun block headers hparse => ?_⟩
  have hread : parseHeaders block s = .ok headers { s with headerDecoder_ := table' } := by
    rw [parseHeaders, hparse]
  unfold serveBlock
  rw [act_bind_of_ok hread, act_bind_of_ok hfound]
  exact ⟨_, rfl, rfl⟩

/-- Blocks with different numbers of headers make different requests. -/
theorem serveBlock_length {table' : DynamicTable} {block' : Bytes} {headers headers' : List Header}
    {streamId : BitVec 31} (h : Hpack.parseHeaders s.headerDecoder_ block = (.ok headers, table'))
    (h' : Hpack.parseHeaders s.headerDecoder_ block' = (.ok headers', table'))
    (hsame : onState (fun t => { t with buf := [] }) (serveBlock streamId block s) =
      onState (fun t => { t with buf := [] }) (serveBlock streamId block' s)) :
    headers.length = headers'.length := by
  obtain ⟨stream, hserve⟩ := serveBlock_requests s streamId table'
  obtain ⟨t, hblock, ht⟩ := hserve block headers h
  obtain ⟨t', hblock', ht'⟩ := hserve block' headers' h'
  rw [hblock, hblock'] at hsame
  have hrequests : t.requests = t'.requests := congrArg (fun r => (stateOf r).requests) hsame
  rw [ht, ht'] at hrequests
  have hlast := List.append_cancel_left hrequests
  have hmessage : withHeaders stream.request_ headers = withHeaders stream.request_ headers' := by
    simpa using hlast
  have hcount := congrArg (fun message : Message => message.headers_.length) hmessage
  simp only [length_withHeaders] at hcount
  omega

/-! ## When the fields are taken -/

/-- Without either flag there is nothing but the block. -/
theorem fieldsTaken_plain (h3 : HeadersFrame.isPadded header = false)
    (h5 : HeadersFrame.isPriority header = false) : FieldsTaken s header where
  same block fields hfits behind behind' := by
    rw [fields.payload_plain h3 h5] at hfits ⊢
    rw [receivesHeaders_eq s header behind hfits, receivesHeaders_eq s (plain header) behind' hfits]
    rfl
  rejected h := by
    rw [h3] at h
    cases h

/-- A pad length and a priority whose octets are indexed fields all of them. -/
def getFields : ExtraFields where
  priority := List.replicate 5 get
  padding := List.replicate 130 get
  length_priority := List.length_replicate
  length_padding := by
    rw [List.length_replicate]
    omega

theorem getFields_payload (flags : BitVec 8) (block : Bytes) :
    ∃ k m, k ≤ 6 ∧ m ≤ 130 ∧ (flags.getLsbD 3 = true ∨ flags.getLsbD 5 = true → 0 < k) ∧
      getFields.payload flags block = List.replicate k get ++ (block ++ List.replicate m get) := by
  have hpad : BitVec.ofNat 8 getFields.padding.length = get := rfl
  unfold ExtraFields.payload ExtraFields.priorityField
  rw [hpad]
  by_cases h3 : flags.getLsbD 3 = true
  · rw [if_pos h3]
    by_cases h5 : flags.getLsbD 5 = true
    · rw [if_pos h5]
      exact ⟨6, 130, by omega, by omega, fun _ => by omega, by simp [getFields]⟩
    · rw [if_neg h5]
      exact ⟨1, 130, by omega, by omega, fun _ => by omega, by rw [List.nil_append]; rfl⟩
  · rw [if_neg h3]
    by_cases h5 : flags.getLsbD 5 = true
    · rw [if_pos h5]
      exact ⟨5, 0, by omega, by omega, fun _ => by omega, by simp [getFields]⟩
    · rw [if_neg h5]
      exact ⟨0, 0, by omega, by omega, fun h => h.elim (absurd · h3) (absurd · h5),
        (List.append_nil block).symm⟩

/-- With one of the flags, whatever the block, there are fields that become headers. -/
theorem not_sameRequest {headers : List Header} {table' : DynamicTable}
    (hflags : HeadersFrame.isPadded header = true ∨ HeadersFrame.isPriority header = true)
    (hparse : Hpack.parseHeaders s.headerDecoder_ block = (.ok headers, table'))
    (hroom : block.length + 136 < 2 ^ 24) :
    (getFields.payload header.flags block).length < 2 ^ 24 ∧
      ¬ SameRequest s header block getFields := by
  obtain ⟨k, m, hk, hm, hpos, hpayload⟩ := getFields_payload header.flags block
  have hfits : (getFields.payload header.flags block).length < 2 ^ 24 := by
    rw [hpayload]
    simp only [List.length_append, List.length_replicate]
    omega
  refine ⟨hfits, fun hsame => ?_⟩
  have heffect := hsame [] []
  rw [receivesHeaders_eq s header [] hfits, receivesHeaders_eq s (plain header) [] (by omega),
    hpayload] at heffect
  have hcount := serveBlock_length (parseHeaders_around hparse k m) hparse heffect
  simp only [List.length_append, List.length_replicate] at hcount
  have := hpos hflags
  omega

/-- From any state, frames with certain flags are taken as they should be exactly when
neither PADDED nor PRIORITY is among them. With one of the two, there are such fields for
every block that can be decoded that the request is another one. -/
theorem fieldsTaken_iff (s : Impl) (header : FrameHeader) :
    (FieldsTaken s header ↔
      HeadersFrame.isPadded header = false ∧ HeadersFrame.isPriority header = false) ∧
    (HeadersFrame.isPadded header = true ∨ HeadersFrame.isPriority header = true →
      ∀ block headers table', Hpack.parseHeaders s.headerDecoder_ block = (.ok headers, table') →
        block.length + 136 < 2 ^ 24 →
          ∃ fields, (fields.payload header.flags block).length < 2 ^ 24 ∧
            ¬ SameRequest s header block fields) ∧
    ∀ (fields : ExtraFields) block, headersFields header.flags (fields.payload header.flags block) =
      some (block, if header.flags.getLsbD 3 then fields.padding.length else 0) := by
  have hdiffer : HeadersFrame.isPadded header = true ∨ HeadersFrame.isPriority header = true →
      ∀ block headers table', Hpack.parseHeaders s.headerDecoder_ block = (.ok headers, table') →
        block.length + 136 < 2 ^ 24 →
          ∃ fields, (fields.payload header.flags block).length < 2 ^ 24 ∧
            ¬ SameRequest s header block fields :=
    fun hflags block headers table' hparse hroom =>
      ⟨getFields, not_sameRequest hflags hparse hroom⟩
  refine ⟨⟨fun htaken => ?_, fun h => fieldsTaken_plain h.1 h.2⟩, hdiffer,
    fun fields block => fields.headersFields_payload header.flags block⟩
  by_contra hplain
  have hflags : HeadersFrame.isPadded header = true ∨ HeadersFrame.isPriority header = true := by
    rw [← Bool.not_eq_true, ← Bool.not_eq_true] at hplain
    tauto
  obtain ⟨fields, hfits, hnot⟩ := hdiffer hflags [] [] s.headerDecoder_ rfl (by simp)
  exact hnot (htaken.same [] fields hfits)

/-- From a frame with END_HEADERS alone, the fields are taken as they are meant. -/
theorem fieldsTaken_endHeaders : FieldsTaken {} { type := FrameType.HEADERS, flags := 0x04#8 } :=
  (fieldsTaken_iff {} { type := FrameType.HEADERS, flags := 0x04#8 }).1.mpr ⟨rfl, rfl⟩

/-- A dependency on stream 0x02828282 becomes five times `:method: GET`. -/
theorem priority_taken_for_headers :
    ¬ ∀ (s : Impl) (header : FrameHeader), header.flags.getLsbD 2 = true → FieldsTaken s header := by
  intro h
  have htaken := h {} { type := FrameType.HEADERS, flags := 0x24#8 } rfl
  have hparse : Hpack.parseHeaders {} [0x84#8] =
      (.ok [{ name := octets ":path", value := octets "/" }], {}) := rfl
  have hdiffers := @not_sameRequest {} { type := FrameType.HEADERS, flags := 0x24#8 } [0x84#8] _ _
    (.inr rfl) hparse (by simp)
  exact hdiffers.2 (htaken.same _ _ hdiffers.1)

end

end ServerTransport

end Shitty.Http2
