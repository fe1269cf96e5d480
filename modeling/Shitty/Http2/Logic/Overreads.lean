import Shitty.Lib.Triple
import Shitty.Http2.Logic.Receive

/-!
# What the handlers are called with

The octets a handler reads are those of a frame that is in the buffer as a whole, and no
exception comes from a read behind the end of it. One lemma for each function says what
it keeps and what it throws, from the handlers up to the reads of a connection.
-/

namespace Shitty.Http2.ServerTransport

open Lib

/-! ## Exceptions -/

/-- Neither a read behind the end of the buffer, nor the assertion that there is none. -/
def Harmless (e : Exn) : Prop :=
  e ≠ .overread ∧ e ≠ .assertion "buf.size() >= frameHeader.length"

theorem harmless_runtime_error (what : String) : Harmless (.runtime_error what) := ⟨nofun, nofun⟩

theorem harmless_logic_error (what : String) : Harmless (.logic_error what) := ⟨nofun, nofun⟩

theorem harmless_out_of_range (what : String) : Harmless (.out_of_range what) := ⟨nofun, nofun⟩

theorem harmless_length_error (what : String) : Harmless (.length_error what) := ⟨nofun, nofun⟩

theorem harmless_assertion {expr : String} (h : expr ≠ "buf.size() >= frameHeader.length") :
    Harmless (.assertion expr) := ⟨nofun, fun heq => h (Exn.assertion.inj heq)⟩

/-! ## The header decoder's exceptions -/

theorem read_number_raises (buf : Bytes) (bits : Nat) (what : String) :
    Raises (Hpack.read_number buf bits what) Harmless :=
  Raises.ite (Raises.error (harmless_runtime_error _)) (Raises.ok _)

theorem decode_raw_string_raises (buf : Bytes) :
    Raises (Hpack.decode_raw_string_from_rbuf buf) Harmless :=
  (read_number_raises _ _ _).bind fun _ =>
    Raises.ite (Raises.error (harmless_runtime_error _)) (Raises.ok _)

theorem decode_huff_string_raises (buf : Bytes) :
    Raises (Hpack.decode_huff_string_from_rbuf buf) Harmless :=
  (read_number_raises _ _ _).bind fun _ =>
    Raises.ite (Raises.error (harmless_runtime_error _)) <|
      Raises.ite (Raises.error (harmless_assertion (by simp))) <|
        Raises.ite (Raises.error (harmless_length_error _)) (Raises.ok _)

theorem decode_string_raises (buf : Bytes) :
    Raises (Hpack.decode_string_from_rbuf buf) Harmless := by
  cases buf with
  | nil => exact Raises.error (harmless_runtime_error _)
  | cons octet rest =>
      exact Raises.ite (decode_huff_string_raises _) (decode_raw_string_raises _)

theorem get_raises (table_ : Hpack.DynamicTable) (index : Nat) :
    Raises (Hpack.HeaderTable.get table_ index) Harmless := by
  refine Raises.ite ?_ ?_
  · exact Raises.ite (Raises.error (harmless_out_of_range _)) (Raises.ok _)
  · refine Raises.ite (Raises.error (harmless_out_of_range _)) ?_
    split
    · exact Raises.ok _
    · exact Raises.error (harmless_out_of_range _)

theorem decode_literal_raises (table_ : Hpack.DynamicTable) (buf : Bytes) (length_bits : Nat) :
    Raises (Hpack.decode_literal table_ buf length_bits) Harmless := by
  refine (read_number_raises _ _ _).bind fun _ => Raises.ite ?_ ?_
  · exact (get_raises _ _).bind fun _ => (decode_string_raises _).bind fun _ => Raises.ok _
  · exact (decode_string_raises _).bind fun _ => (decode_string_raises _).bind fun _ => Raises.ok _

theorem resize_loop_raises (new_hpack_size : Nat) (oldest : List Hpack.Header) :
    ∀ nremove hsize : Nat,
      Raises (Hpack.resize_loop new_hpack_size oldest nremove hsize) Harmless := by
  induction oldest with
  | nil =>
      exact fun _ _ => Raises.ite (Raises.error (harmless_out_of_range _)) (Raises.ok _)
  | cons header newer ih =>
      intro nremove hsize
      refine Raises.ite (Raises.ite (ih _ _) ?_) (Raises.ok _)
      exact Raises.error (harmless_assertion (by simp))

theorem resize_raises (table_ : Hpack.DynamicTable) (new_hpack_size : Nat) :
    Raises (table_.resize new_hpack_size) Harmless :=
  Raises.ite (Raises.ok _) <| Raises.ite (Raises.ok _) <|
    (resize_loop_raises _ _ _ _).bind fun _ => Raises.ok _

theorem dynamic_table_resize_raises (table_ : Hpack.DynamicTable) (buf : Bytes) :
    Raises (Hpack.dynamic_table_resize table_ buf) Harmless := by
  cases buf with
  | nil => exact Raises.error (harmless_logic_error _)
  | cons octet rest =>
      refine Raises.ite (Raises.error (harmless_logic_error _)) ?_
      exact (read_number_raises _ _ _).bind fun _ => (resize_raises _ _).bind fun _ => Raises.ok _

theorem parse_field_raises (table_ : Hpack.DynamicTable) (octet : Octet) (buf : Bytes) :
    Raises (Hpack.parse_field table_ octet buf) Harmless := by
  refine Raises.ite ?_ (Raises.ite ?_ (Raises.ite ?_ (Raises.ite ?_ ?_)))
  · exact ((read_number_raises _ _ _).bind fun _ =>
      (get_raises _ _).bind fun _ => Raises.ok _).bind fun _ => Raises.ok _
  · exact ((decode_literal_raises _ _ _).bind fun _ => Raises.ok _).bind fun _ => Raises.ok _
  · exact (dynamic_table_resize_raises _ _).bind fun _ => Raises.ok _
  · exact ((decode_literal_raises _ _ _).bind fun _ => Raises.ok _).bind fun _ => Raises.ok _
  · exact (decode_literal_raises _ _ _).bind fun _ => Raises.ok _

theorem parseHeaders_raises (table_ : Hpack.DynamicTable) (buf : Bytes) :
    Raises (Hpack.parseHeaders table_ buf).1 Harmless := by
  have hloop : ∀ (turns : Nat) (table_ : Hpack.DynamicTable) (buf : Bytes)
      (headers : List Hpack.Header),
      Raises (Hpack.parse_loop turns table_ buf headers).1 Harmless := by
    intro turns
    induction turns with
    | zero =>
        intro table_ buf headers
        cases buf <;> exact Raises.ok _
    | succ turns ih =>
        intro table_ buf headers
        cases buf with
        | nil => exact Raises.ok _
        | cons octet rest =>
            rw [Hpack.parse_loop]
            cases hfield : Hpack.parse_field table_ octet (octet :: rest) with
            | error e => exact Raises.error (parse_field_raises _ _ _ e hfield)
            | ok r => exact ih _ _ _
  exact hloop _ _ _ _

/-! ## Actions on a frame that is there -/

/-- Every handler called so far had the payload of its frame in the buffer. -/
def Whole (s : Impl) : Prop := ∀ f ∈ s.handled, f.2.length = f.1.length.toNat

/-- What holds at all times: no stream takes data, and frames were whole. -/
structure Sound (s : Impl) : Prop where
  idle : s.Idle
  whole : Whole s

/-- At least so many octets are there as well. -/
structure Buffered (n : Nat) (s : Impl) : Prop extends Sound s where
  enough : n ≤ s.buf.length

/-- What holds behind an exception: no read behind the end has thrown it, and all frames handled
so far were whole. -/
def Failed (e : Exn) (s : Impl) : Prop := Harmless e ∧ Whole s

/-- The exceptions of an action on a frame of `n` octets that are there. -/
def Calm {α : Type} (n : Nat) (f : Act α) : Prop :=
  ∀ s e t, s.Idle → n ≤ s.buf.length → f s = .error e t → Harmless e

variable {α β : Type} {n : Nat} {P : α → Prop} {Q : β → Impl → Prop}

namespace Calm

theorem pure (a : α) : Calm n (Pure.pure a : Act α) := fun _ _ _ _ _ h => by cases h

theorem throw {e : Exn} (h : Harmless e) : Calm n (MonadExcept.throw e : Act α) := by
  intro s e' t _ _ hthrow
  cases hthrow
  exact h

theorem change (f : Impl → Impl) : Calm n (modify f : Act PUnit) := fun _ _ _ _ _ h => by cases h

theorem get {g : Impl → Act β} (hg : ∀ s, Calm n (g s)) : Calm n (MonadState.get >>= g) :=
  fun s e t hs hn h => hg s s e t hs hn h

theorem frontOr {e : Exn} {k : Nat} (hk : k ≤ n) : Calm n (ServerTransport.frontOr e k) := by
  intro s e' t _ hn h
  rw [ServerTransport.frontOr, if_neg (by omega)] at h
  cases h

theorem ofExcept {x : Except Exn α} (hx : Raises x Harmless) :
    Calm n (ServerTransport.ofExcept x) := by
  intro s e t _ _ h
  cases x with
  | ok a => cases h
  | error e' =>
      cases h
      exact hx _ rfl

/-- The second action is one for a frame that is there, too. -/
theorem bind {f : Act α} {g : α → Act β} (hf : Calm n f) (hsteady : Steady n P f)
    (hg : ∀ a, P a → Calm n (g a)) : Calm n (f >>= g) := by
  intro s e t hs hn h
  rw [Steady.bind_apply] at h
  cases hfirst : f s with
  | error e' t' =>
      rw [hfirst] at h
      cases h
      exact hf s _ _ hs hn hfirst
  | ok a u =>
      rw [hfirst] at h
      have hidle := hsteady.idle s hs hn
      have hkept := hsteady.keeps s hs hn
      rw [hfirst] at hidle hkept
      exact hg a (hsteady.returns s hs hn a u hfirst) u e t hidle
        (hn.trans_eq (congrArg List.length hkept.buf).symm) h

end Calm

theorem find_calm (id : BitVec 31) : Calm n (find id) := Calm.get fun _ => Calm.pure _

theorem getStream_calm (id : BitVec 31) : Calm n (getStream id) := by
  refine (find_calm id).bind (find_steady id) fun found _ => ?_
  cases found with
  | some stream => exact Calm.pure stream
  | none => exact Calm.throw (harmless_runtime_error _)

/-! ## The handlers -/

/-- An idle stream takes no data, so that none is read. -/
theorem receiveData_calm (header : FrameHeader) : Calm n (receiveData header) := by
  unfold receiveData
  split
  · exact Calm.throw (harmless_runtime_error _)
  · refine (getStream_calm _).bind (getStream_steady _) fun stream hstream => ?_
    rw [if_pos (by rw [hstream]; decide)]
    exact Calm.throw (harmless_runtime_error _)

theorem parseHeaders_calm (block : Bytes) : Calm n (ServerTransport.parseHeaders block) := by
  intro s e t _ _ h
  unfold ServerTransport.parseHeaders at h
  have hraises := parseHeaders_raises s.headerDecoder_ block
  rcases hparse : Hpack.parseHeaders s.headerDecoder_ block with ⟨result, table_⟩
  rw [hparse] at h hraises
  cases result with
  | ok headers => cases h
  | error e' =>
      cases h
      exact hraises _ rfl

theorem findOrEmplace_calm (id : BitVec 31) : Calm n (findOrEmplace id) := by
  refine (find_calm id).bind (find_steady id) fun found _ => ?_
  cases found with
  | some stream => exact Calm.pure stream
  | none => exact fun _ _ _ _ _ h => by cases h

theorem receiveHeaders_calm (header : FrameHeader) :
    Calm header.length.toNat (receiveHeaders header) := by
  refine (Calm.frontOr (Nat.le_refl _)).bind (Steady.frontOr (Nat.le_refl _)) fun block _ => ?_
  refine (parseHeaders_calm block).bind (parseHeaders_steady block) fun headers _ => ?_
  refine (findOrEmplace_calm _).bind (findOrEmplace_steady _) fun stream _ => ?_
  exact fun _ _ _ _ _ h => by cases h

theorem receiveResetStream_calm (header : FrameHeader) :
    Calm header.length.toNat (receiveResetStream header) := by
  unfold receiveResetStream
  split
  · exact Calm.throw (harmless_runtime_error _)
  · rename_i hlength
    split
    · exact Calm.throw (harmless_runtime_error _)
    · -- the length has been compared with that of the error code
      have h4 : 4 ≤ header.length.toNat := by
        rw [not_not.mp hlength]
        exact Nat.le_refl 4
      refine (Calm.frontOr h4).bind (Steady.frontOr h4) fun _ _ => ?_
      exact Calm.change _

theorem createFromBuffer_raises (buf : Bytes) : Raises (Settings.createFromBuffer buf) Harmless :=
  Raises.ite (Raises.error (harmless_runtime_error _)) (Raises.ok _)

theorem receiveSettings_calm (header : FrameHeader) :
    Calm header.length.toNat (receiveSettings header) := by
  unfold receiveSettings
  split
  · exact Calm.pure _
  · refine (Calm.frontOr (Nat.le_refl _)).bind (Steady.frontOr (Nat.le_refl _)) fun buf _ => ?_
    refine (Calm.ofExcept (createFromBuffer_raises buf)).bind
      (Steady.ofExcept (P := fun _ => True) fun _ _ => trivial) fun settings _ => ?_
    exact fun _ _ _ _ _ h => by cases h

theorem addWindowSize_raises (existing increment : Int) :
    Raises (Http2.addWindowSize existing increment) fun e => ∃ what, e = .runtime_error what :=
  Raises.ite (Raises.error ⟨_, rfl⟩) <| Raises.ite (Raises.ok _) <|
    Raises.ite (Raises.error ⟨_, rfl⟩) (Raises.ok _)

theorem addConnectionWindowSize_calm (windowSize : Int) :
    Calm n (addConnectionWindowSize windowSize) := by
  refine Calm.get fun s => ?_
  have hraises : Raises ((Http2.addWindowSize s.windowSize_.toInt windowSize).mapError
      (rethrow "connection error: ")) Harmless := by
    cases hadd : Http2.addWindowSize s.windowSize_.toInt windowSize with
    | ok w => exact Raises.ok w
    | error e =>
        obtain ⟨what, rfl⟩ := addWindowSize_raises _ _ _ hadd
        exact Raises.error (harmless_runtime_error _)
  refine (Calm.ofExcept hraises).bind
    (Steady.ofExcept (P := fun _ => True) fun _ _ => trivial) fun w _ => ?_
  exact Calm.change _

theorem addStreamWindowSize_calm (streamId : BitVec 31) (windowSize : Int) :
    Calm n (addStreamWindowSize streamId windowSize) := by
  refine (find_calm streamId).bind (find_steady streamId) fun found _ => ?_
  cases found with
  | none => exact Calm.pure _
  | some stream =>
      have hraises : Raises (stream.addWindowSize windowSize) Harmless := by
        unfold ServerStream.addWindowSize
        cases hadd : Http2.addWindowSize stream.windowSize_.toInt windowSize with
        | ok w => exact Raises.ok _
        | error e =>
            obtain ⟨what, rfl⟩ := addWindowSize_raises _ _ _ hadd
            exact Raises.error (harmless_runtime_error _)
      refine (Calm.ofExcept hraises).bind
        (Steady.ofExcept (P := fun _ => True) fun _ _ => trivial) fun changed _ => ?_
      exact Calm.change _

theorem receiveWindowUpdate_calm (header : FrameHeader) :
    Calm header.length.toNat (receiveWindowUpdate header) := by
  unfold receiveWindowUpdate
  split
  · exact Calm.throw (harmless_runtime_error _)
  · rename_i hlength
    have h4 : 4 ≤ header.length.toNat := by
      rw [not_not.mp hlength]
      exact Nat.le_refl 4
    refine (Calm.frontOr h4).bind (Steady.frontOr h4) fun data _ => ?_
    dsimp only
    split
    · exact addConnectionWindowSize_calm _
    · exact addStreamWindowSize_calm _ _

theorem handler_calm {header : FrameHeader} (h : ¬ header.Answered) :
    Calm header.length.toNat (handler header) := by
  unfold handler
  split
  · exact receiveData_calm header
  split
  · exact receiveHeaders_calm header
  split
  · rename_i hping
    by_cases hack : isPingACK header = true
    · rw [receivePing, if_pos hack]
      exact Calm.pure _
    · -- nothing of a PING without an answer is read
      intro s e t _ _ herror
      rw [receivePing, if_neg hack] at herror
      by_cases hid : header.streamId ≠ 0
      · rw [if_pos hid] at herror
        cases herror
        exact harmless_runtime_error _
      · rw [if_neg hid] at herror
        have hlength : header.length ≠ 8 := fun hlength =>
          h ⟨⟨hping, Bool.eq_false_iff.mpr hack⟩, not_not.mp hid, hlength⟩
        rw [if_pos hlength] at herror
        cases herror
        exact harmless_runtime_error _
  split
  · exact receiveResetStream_calm header
  split
  · exact receiveSettings_calm header
  split
  · exact receiveWindowUpdate_calm header
  · exact Calm.pure _

/-! ## Everything around them -/

/-- A handler is called with its frame, and leaves what holds at all times. -/
theorem handler_safe (header : FrameHeader) :
    Triple (Buffered header.length.toNat) (handler header) (fun _ => Sound) Failed := by
  intro s hs
  by_cases hanswered : header.Answered
  · have h8 : 8 ≤ s.buf.length := by
      have henough := hs.enough
      rw [hanswered.2.2] at henough
      exact henough
    rw [handler_answered hanswered h8]
    exact ⟨hs.idle, hs.whole⟩
  · have hsteady := handler_steady hanswered
    have hidle := hsteady.idle s hs.idle hs.enough
    have hkept := hsteady.keeps s hs.idle hs.enough
    cases hhandler : handler header s with
    | ok u t =>
        rw [hhandler] at hidle hkept
        refine ⟨hidle, ?_⟩
        rw [Whole, show t.handled = s.handled from hkept.handled]
        exact hs.whole
    | error e t =>
        rw [hhandler] at hkept
        refine ⟨handler_calm hanswered s e t hs.idle hs.enough hhandler, ?_⟩
        rw [Whole, show t.handled = s.handled from hkept.handled]
        exact hs.whole

theorem advance_safe (n : Nat) : Triple Sound (advance n) (fun _ => Sound) Failed := by
  intro s hs
  unfold advance Shitty.advance
  split
  · rename_i hok
    exact ⟨hs.idle, hs.whole⟩
  · rename_i e herror
    split at herror
    · cases herror
      exact ⟨harmless_length_error _, hs.whole⟩
    · cases herror

/-- The frame is in the buffer when it is written down and its handler is called. -/
theorem processFrameBody_safe : Triple Sound processFrameBody (fun _ => Sound) Failed := by
  refine Triple.get_bind fun s hs => ?_
  cases hcurrent : s.currentFrameHeader_ with
  | none =>
      refine Triple.throw fun t ht => ?_
      rw [ht]
      exact ⟨harmless_assertion (by simp), hs.whole⟩
  | some header =>
      refine Triple.get_bind fun t ht => Triple.ite (fun _ => ?_) fun hlen => ?_
      · refine Triple.pure fun u hu => ?_
        rw [hu, ht]
        exact hs
      · refine Triple.bind (Q := fun _ => Buffered header.length.toNat) ?_ fun _ => ?_
        · refine Triple.modify fun u hu => ?_
          rw [hu, ht] at *
          refine ⟨⟨hs.idle, ?_⟩, Nat.le_of_not_lt hlen⟩
          intro f hf
          rcases List.mem_append.mp hf with hf | hf
          · exact hs.whole f hf
          · rw [List.mem_singleton.mp hf, List.length_take]
            exact Nat.min_eq_left (Nat.le_of_not_lt hlen)
        · refine (handler_safe header).bind fun _ => (advance_safe _).bind fun _ => ?_
          exact Triple.modify fun u hu => ⟨hu.idle, hu.whole⟩

theorem receiveFrame_safe : Triple Sound receiveFrame (fun _ => Sound) Failed := by
  -- once there is a header
  have hpending : ∀ (s : Impl) (header : FrameHeader), s.currentFrameHeader_ = some header →
      Sound s → Meets (fun _ => Sound) Failed (receiveFrame s) := by
    intro s header hcurrent hs
    rw [receiveFrame_pending hcurrent]
    split
    · exact hs
    · have hmeets := processFrameBody_safe s hs
      cases hbody : processFrameBody s with
      | ok u t =>
          rw [hbody] at hmeets
          exact hmeets
      | error e t =>
          rw [hbody] at hmeets
          exact hmeets
  intro s hs
  cases hcurrent : s.currentFrameHeader_ with
  | some header => exact hpending s header hcurrent hs
  | none =>
      rw [receiveFrame_between hcurrent, headerStep]
      by_cases hlen : s.buf.length < FrameHeader.SIZE
      · rw [if_pos hlen]
        exact hs
      · obtain ⟨header, hread⟩ := readFrameHeader_ok (Nat.le_of_not_lt hlen)
        rw [if_neg hlen, hread]
        exact hpending _ header rfl ⟨hs.idle, hs.whole⟩

theorem receiveFrames_safe : Triple Sound receiveFrames (fun _ => Sound) Failed := by
  have hloop : ∀ turns, Triple Sound (receiveFrames_loop turns) (fun _ => Sound) Failed := by
    intro turns
    induction turns with
    | zero => exact Triple.pure fun _ h => h
    | succ turns ih =>
        refine receiveFrame_safe.bind fun moreToProcess => Triple.get_bind fun s hs => ?_
        refine Triple.ite (fun _ => ?_) fun _ => Triple.pure fun t ht => ht ▸ hs
        exact ih.weaken (fun t ht => ht ▸ hs) fun _ _ h => h
  exact fun s hs => hloop _ s hs

theorem receivePreface_safe : Triple Sound receivePreface (fun _ => Sound) Failed := by
  refine Triple.get_bind fun s hs => ?_
  split
  · exact Triple.pure fun t ht => ht ▸ hs
  split
  · exact Triple.throw fun t ht => ⟨harmless_runtime_error _, ht ▸ hs.whole⟩
  · refine Triple.bind (Q := fun _ => Sound) ?_ fun _ => ?_
    · refine Triple.modify fun t ht => ?_
      rw [ht]
      exact ⟨hs.idle, hs.whole⟩
    · exact (advance_safe _).bind fun _ => receiveFrames_safe

theorem onInput_safe : Triple Sound onInput (fun _ => Sound) Failed := by
  intro s hs
  rw [onInput_eq]
  split
  · exact receiveFrames_safe s hs
  · have hmeets := receivePreface_safe s hs
    cases hpreface : receivePreface s with
    | ok u t =>
        rw [hpreface] at hmeets
        exact receiveFrames_safe t hmeets
    | error e t =>
        rw [hpreface] at hmeets
        exact hmeets

end Shitty.Http2.ServerTransport
