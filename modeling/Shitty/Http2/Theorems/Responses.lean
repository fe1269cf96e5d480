import Shitty.Http2.Logic.Responses

/-!
# One response a stream

`receiveHeaders` answers on whatever stream it is told, and forgets the stream: when no
stream is answered twice, or should not be, all the same. That depends on the streams of
the frames alone. A repeated stream gets a second response, and an even one or stream 0
gets one that no client may be sent.
-/

namespace Shitty.Http2.ServerTransport

open Lib

/-! ## What was received -/

/-- The streams of the HEADERS frames, in order. -/
def headersIds (handled : List (FrameHeader × Bytes)) : List Nat :=
  handled.flatMap fun f => answeredBy f.1

/-- The streams that the peer has reset. -/
def resetIds (handled : List (FrameHeader × Bytes)) : List Nat :=
  (handled.filter fun f => f.1.type = FrameType.RST_STREAM).map fun f => f.1.streamId.toNat

/-- A stream that has been answered, or reset by the peer. -/
def Closed (s : Impl) (id : Nat) : Prop := id ∈ responses s.sent ∨ id ∈ resetIds s.handled

/-- The responses up to a state: each for an odd stream above those answered before,
and none for a HEADERS frame on stream 0, on an even stream or on a closed one. -/
structure OneResponseEach (first s : Impl) : Prop where
  increasing : (responses s.sent).Pairwise (· < ·)
  odd : ∀ id ∈ responses s.sent, id % 2 = 1
  refused : ∀ u v header, Passes first u → Leads u v → Passes v s →
    u.currentFrameHeader_ = some header → header.type = FrameType.HEADERS →
    header.streamId.toNat % 2 = 0 ∨ Closed u header.streamId.toNat →
    responses v.sent = responses u.sent

/-- Each HEADERS frame, as its header was read, opens a stream: an odd one above those
of the HEADERS frames before, that has not been reset. -/
def OpensStreams (handled : List (FrameHeader × Bytes)) : Prop :=
  ∀ before header payload, before ++ [(header, payload)] <+: handled →
    header.type = FrameType.HEADERS →
    header.streamId.toNat % 2 = 1 ∧ (∀ id ∈ headersIds before, id < header.streamId.toNat) ∧
      header.streamId.toNat ∉ resetIds before

theorem headersIds_append (handled : List (FrameHeader × Bytes)) (header : FrameHeader)
    (payload : Bytes) :
    headersIds (handled ++ [(header, payload)]) = headersIds handled ++ answeredBy header := by
  rw [headersIds, List.flatMap_append]
  exact congrArg _ (List.append_nil _)

theorem headersIds_front {before handled : List (FrameHeader × Bytes)} (h : before <+: handled) :
    headersIds before <+: headersIds handled := by
  obtain ⟨rest, rfl⟩ := h
  exact ⟨headersIds rest, List.flatMap_append.symm⟩

/-! ## Responses and HEADERS frames -/

/-- The streams answered are those of the HEADERS frames accepted. -/
theorem serving_of_passes {peerSettings_ : Settings} {s : Impl}
    (h : Passes (Impl.new peerSettings_) s) : Serving (headersIds s.handled) s := by
  induction h with
  | refl =>
      refine ⟨fun p hp => ?_, fun p hp => ?_, rfl⟩
      all_goals rw [List.mem_singleton.mp hp]
  | tail _ hstep ih =>
      cases hstep with
      | read more => exact ⟨ih.idle, ih.named, ih.answered⟩
      | preface _ hpreface =>
          unfold prefaceStep at hpreface
          split at hpreface
          · cases hpreface
          · split at hpreface
            · cases hpreface
            · cases hpreface
              exact ⟨ih.idle, ih.named, ih.answered⟩
      | header hheader =>
          unfold receiveFrameHeader at hheader
          split at hheader
          · cases hheader
          · split at hheader
            · cases hheader
              exact ih
            · split at hheader
              · cases hheader
                exact ⟨ih.idle, ih.named, ih.answered⟩
              · cases hheader
      | body hbody =>
          have hmeets := processFrameBody_serving ih
          rw [hbody] at hmeets
          rcases processFrameBody_accepts hbody with rfl | ⟨header, payload, haccepts⟩
          · exact ih
          rcases hmeets with rfl | ⟨header', hcurrent, hserving⟩
          · exact ih
          · rw [haccepts.current] at hcurrent
            cases hcurrent
            rw [haccepts.handled, headersIds_append]
            exact hserving

/-- The step that accepts a frame. -/
theorem passes_accepts {s t : Impl} (h : Passes s t) {before : List (FrameHeader × Bytes)}
    {header : FrameHeader} {payload : Bytes} (hfront : s.handled <+: before)
    (hp : before ++ [(header, payload)] <+: t.handled) :
    ∃ u v, Passes s u ∧ Leads u v ∧ Passes v t ∧ u.handled = before ∧
      Accepts u v header payload := by
  induction h with
  | refl =>
      have hlen := hp.length_le.trans hfront.length_le
      simp at hlen
  | tail hpasses hstep ih =>
      rcases hstep.cases with hsame | ⟨header', payload', haccepts⟩
      · rw [hsame.handled] at hp
        obtain ⟨u, v, hu, huv, hv, hrest⟩ := ih hp
        exact ⟨u, v, hu, huv, hv.tail hstep, hrest⟩
      · rw [haccepts.handled] at hp
        rcases List.prefix_concat_iff.mp hp with heq | hp
        · obtain ⟨rfl, hlast⟩ := List.append_inj' heq rfl
          cases hlast
          exact ⟨_, _, hpasses, hstep, .refl, rfl, haccepts⟩
        · obtain ⟨u, v, hu, huv, hv, hrest⟩ := ih hp
          exact ⟨u, v, hu, huv, hv.tail hstep, hrest⟩

/-- Streams opened one above the other. -/
theorem increasing_of_opens {handled : List (FrameHeader × Bytes)} (h : OpensStreams handled) :
    (headersIds handled).Pairwise (· < ·) ∧ ∀ id ∈ headersIds handled, id % 2 = 1 := by
  induction handled using List.reverseRecOn with
  | nil => exact ⟨.nil, nofun⟩
  | append_singleton before f ih =>
      obtain ⟨header, payload⟩ := f
      obtain ⟨hincreasing, hodd⟩ := ih fun before' header' payload' hp =>
        h before' header' payload' (hp.trans (List.prefix_append _ _))
      rw [headersIds_append]
      by_cases htype : header.type = FrameType.HEADERS
      · obtain ⟨hid, habove, -⟩ := h before header payload List.prefix_rfl htype
        rw [answeredBy, if_pos htype]
        constructor
        · refine List.pairwise_append.mpr ⟨hincreasing, List.pairwise_singleton _ _, ?_⟩
          intro id hmem id' hid'
          rw [List.mem_singleton.mp hid']
          exact habove id hmem
        · intro id hmem
          rcases List.mem_append.mp hmem with hmem | hmem
          · exact hodd id hmem
          · rwa [List.mem_singleton.mp hmem]
      · rw [answeredBy, if_neg htype, List.append_nil]
        exact ⟨hincreasing, hodd⟩

/-- A frame accepted, with the responses before and behind it. -/
theorem responses_of_accepts {peerSettings_ : Settings} {u v : Impl} {header : FrameHeader}
    {payload : Bytes} (hu : Passes (Impl.new peerSettings_) u) (huv : Leads u v)
    (haccepts : Accepts u v header payload) :
    responses u.sent = headersIds u.handled ∧
      responses v.sent = headersIds u.handled ++ answeredBy header := by
  refine ⟨(serving_of_passes hu).answered, ?_⟩
  rw [(serving_of_passes (hu.tail huv)).answered, haccepts.handled, headersIds_append]

/-- The responses are right exactly for HEADERS frames that open streams; the frame at
which an exception ends a connection is not answered. -/
theorem one_response_each_iff {peerSettings_ : Settings} {s : Impl}
    (h : Passes (Impl.new peerSettings_) s) :
    (OneResponseEach (Impl.new peerSettings_) s ↔ OpensStreams s.handled) ∧
      ∀ e t, processFrameBody s = .error e t → responses t.sent = responses s.sent := by
  have hserving := serving_of_passes h
  constructor
  · constructor
    · intro hright before header payload hp htype
      obtain ⟨u, v, hu, huv, hv, rfl, haccepts⟩ := passes_accepts h (List.nil_prefix) hp
      obtain ⟨hbefore, hbehind⟩ := responses_of_accepts hu huv haccepts
      rw [answeredBy, if_pos htype] at hbehind
      -- the frame was answered, so it was none of those to be refused
      have hrefused : ¬ (header.streamId.toNat % 2 = 0 ∨ Closed u header.streamId.toNat) := by
        intro hno
        have hsame := hright.refused u v header hu huv hv haccepts.current htype hno
        rw [hbehind, hbefore] at hsame
        simp at hsame
      obtain ⟨heven, hclosed⟩ := not_or.mp hrefused
      obtain ⟨-, hreset⟩ := not_or.mp hclosed
      refine ⟨by omega, fun id hid => ?_, hreset⟩
      have hincreasing := hright.increasing
      rw [hserving.answered] at hincreasing
      have hpair := hincreasing.sublist (headersIds_front hp).sublist
      rw [headersIds_append, answeredBy, if_pos htype] at hpair
      exact (List.pairwise_append.mp hpair).2.2 id hid _ (List.mem_singleton_self _)
    · intro hopens
      obtain ⟨hincreasing, hodd⟩ := increasing_of_opens hopens
      rw [← hserving.answered] at hincreasing hodd
      refine ⟨hincreasing, hodd, ?_⟩
      intro u v header hu huv hv hcurrent htype hno
      rcases huv.cases with hsame | ⟨header', payload, haccepts⟩
      · -- nothing has been accepted
        rw [(serving_of_passes (hu.tail huv)).answered, (serving_of_passes hu).answered,
          hsame.handled]
      · rw [haccepts.current] at hcurrent
        cases hcurrent
        have hp : u.handled ++ [(header, payload)] <+: s.handled := by
          rw [← haccepts.handled]
          exact handled_grows hv
        obtain ⟨hid, habove, hreset⟩ := hopens _ _ _ hp htype
        obtain ⟨hbefore, -⟩ := responses_of_accepts hu huv haccepts
        rcases hno with heven | hanswered | hclosed
        · omega
        · rw [hbefore] at hanswered
          exact absurd (habove _ hanswered) (Nat.lt_irrefl _)
        · exact absurd hclosed hreset
  · intro e t hbody
    have hmeets := processFrameBody_serving hserving
    rw [hbody] at hmeets
    exact hmeets.answered.trans hserving.answered.symm

/-- The header of a HEADERS frame for three octets. -/
def requestHeader (id : BitVec 31) : FrameHeader :=
  { type := FrameType.HEADERS, flags := 5, length := 3, streamId := id }

/-- HEADERS frames behind the preface, each with the fields of a GET request. -/
def requestsOn (ids : List (BitVec 31)) : Bytes :=
  CLIENT_PREFACE ++ ids.flatMap fun id => (requestHeader id).writeTo ++ [0x82, 0x84, 0x86]

theorem one_response_each_ascending :
    OneResponseEach (Impl.new {}) (run [requestsOn [1, 3]] (Impl.new {})).1 := by
  have hpasses : Passes (Impl.new {}) (run [requestsOn [1, 3]] (Impl.new {})).1 :=
    passes_run (by decide +kernel)
  have hhandled : (run [requestsOn [1, 3]] (Impl.new {})).1.handled =
      [(requestHeader 1, [0x82, 0x84, 0x86]), (requestHeader 3, [0x82, 0x84, 0x86])] := by
    decide +kernel
  refine (one_response_each_iff hpasses).1.mpr ?_
  rw [hhandled]
  rintro before header payload ⟨rest, hsplit⟩ -
  rcases before with _ | ⟨first, _ | ⟨second, before⟩⟩
  · cases hsplit
    exact ⟨rfl, nofun, nofun⟩
  · cases hsplit
    refine ⟨rfl, fun id hid => ?_, nofun⟩
    rw [List.mem_singleton.mp hid]
    decide
  · have hlen := congrArg List.length hsplit
    simp at hlen

/-- One stream answered twice, then an even one, and stream 0. -/
theorem responses_repeated :
    ¬ ∀ (peerSettings_ : Settings) (s : Impl), Passes (Impl.new peerSettings_) s →
      OneResponseEach (Impl.new peerSettings_) s := by
  intro h
  have hpasses : Passes (Impl.new {}) (run [requestsOn [1, 1, 2, 0]] (Impl.new {})).1 :=
    passes_run (by decide +kernel)
  have hresponses : responses (run [requestsOn [1, 1, 2, 0]] (Impl.new {})).1.sent =
      [1, 1, 2, 0] := by
    decide +kernel
  have hincreasing := (h {} _ hpasses).increasing
  rw [hresponses] at hincreasing
  exact absurd hincreasing (by decide)

end Shitty.Http2.ServerTransport
