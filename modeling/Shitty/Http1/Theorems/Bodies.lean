import Shitty.Http1.Logic.Framing

/-!
# Reading bodies

`readContent` takes as many octets as there are in the buffer or as the whole body has,
whichever is more: a body comes out right only when it is read at once and nothing is
behind it. The one call is looked at first, and then any sequence of reads, with the
octets that the first of them finds in the buffer.
-/

namespace Shitty.Http1.Transport

variable {ω : Type} {s : Transport ω} {msg : IncomingMessage} {length : Nat}

/-- A body of `length` octets is being read, of which some may have been. -/
structure Collecting (s : Transport ω) (msg : IncomingMessage) (length : Nat) : Prop where
  message : s.incoming_message_ = some msg
  complete : s.message_headers_complete_ = true
  expected : s.expected_body_length_ = length
  collected : msg.message.body_.length ≤ length

/-- The octets that are missing are taken, or as many as there are, and no others. -/
def TakesExactly (s : Transport ω) (msg : IncomingMessage) (length : Nat) : Prop :=
  let taken := min s.buf.length (length - msg.message.body_.length)
  readContent s = .ok () { s with
    incoming_message_ := some (IncomingMessage.append msg (s.buf.take taken))
    buf := s.buf.drop taken }

/-! ## One call -/

theorem Collecting.toNat (h : s.Collecting msg length) : s.expected_body_length_.toNat = length := by
  rw [h.expected, Int.toNat_natCast]

theorem takesExactly_iff (h : s.Collecting msg length) :
    s.TakesExactly msg length ↔ s.buf.length = length ∧ msg.message.body_ = [] := by
  unfold TakesExactly
  by_cases hshort : s.buf.length < length
  · rw [readContent_short h.message (by rw [h.toNat]; exact hshort)]
    refine iff_of_false ?_ (by omega)
    intro htaken
    cases htaken
  · rw [readContent_all h.message (by rw [h.toNat]; omega)]
    constructor
    · intro htaken
      have hbuf : [] = s.buf.drop (min s.buf.length (length - msg.message.body_.length)) :=
        congrArg (fun result => (stateOf result).buf) htaken
      have hall := congrArg List.length hbuf
      rw [List.length_nil, List.length_drop] at hall
      have := h.collected
      have hnone : msg.message.body_.length = 0 := by omega
      exact ⟨by omega, List.length_eq_zero_iff.mp hnone⟩
    · rintro ⟨hlen, hbody⟩
      have htaken : min s.buf.length (length - msg.message.body_.length) = s.buf.length := by
        rw [hbody, hlen]
        simp
      simp only [htaken, List.take_length, List.drop_length]

/-! ## Reads -/

/-- What `processInput` does of a body, unless there is nothing in the buffer. -/
def readMore : Act ω Unit := do
  let s ← get
  if s.buf ≠ [] ∧ parked s then readBody else return

/-- The reads of a connection, for as long as the body lasts. -/
def collect : List Bytes → Act ω Unit
  | [] => return
  | piece :: pieces => do
      modify fun s => s.feed piece
      readMore
      collect pieces

/-- Of the octets so far the first are the body, and the others are in the buffer still. -/
def Collected (t : Transport ω) (octets : Bytes) (length : Nat) : Prop :=
  (∃ msg, t.incoming_message_ = some msg ∧ msg.message.body_ = octets.take length) ∧
    t.buf = octets.drop length

/-- Behind every read, what has been read of the body is collected in this way. -/
def CollectsExactly (s : Transport ω) (msg : IncomingMessage) (length : Nat)
    (pieces : List Bytes) : Prop :=
  ∀ front, front <+: pieces → front ≠ [] →
    ∃ t, collect front s = .ok () t ∧
      t.Collected (msg.message.body_ ++ s.buf ++ front.flatten) length

theorem Collecting.feed (h : s.Collecting msg length) (piece : Bytes) :
    (s.feed piece).Collecting msg length := ⟨h.message, h.complete, h.expected, h.collected⟩

theorem Collecting.parked_iff (h : s.Collecting msg length) :
    parked s = true ↔ msg.message.body_.length < length := by
  rw [Transport.parked_iff, h.message, h.expected]
  simp only [Option.some.injEq, exists_eq_left', h.complete, true_and]
  have := h.collected
  omega

theorem readMore_parked (h : s.Collecting msg length) (hbuf : s.buf ≠ [])
    (hmissing : msg.message.body_.length < length) : readMore s = readContent s := by
  have hchunks : s.expected_body_length_ ≠ -1 := by
    rw [h.expected]
    omega
  unfold readMore
  rw [act_get_bind, if_pos ⟨hbuf, h.parked_iff.mpr hmissing⟩, readBody, act_get_bind, if_neg hchunks]

/-- Behind the body, what is read stays in the buffer. -/
theorem collect_complete (h : s.Collecting msg length) (hall : msg.message.body_.length = length)
    (pieces : List Bytes) : collect pieces s = .ok () (s.feed pieces.flatten) := by
  induction pieces generalizing s with
  | nil =>
      rw [List.flatten_nil, feed, List.append_nil]
      rfl
  | cons piece pieces ih =>
      have hmore : readMore (s.feed piece) = .ok () (s.feed piece) := by
        have hparked : ¬ parked (s.feed piece) = true := by
          rw [(h.feed piece).parked_iff]
          omega
        unfold readMore
        rw [act_get_bind, if_neg (fun hboth => hparked hboth.2)]
        rfl
      rw [collect, act_modify_bind, act_bind_of_ok hmore, ih (h.feed piece)]
      rw [feed, feed, feed, List.flatten_cons, List.append_assoc]

/-- Reading pieces comes to reading the first of them, where octets are missing, and then the
others. -/
theorem collect_cons (h : s.Collecting msg length) (hmissing : msg.message.body_.length < length)
    {piece : Bytes} (hpiece : piece ≠ []) (pieces : List Bytes) :
    collect (piece :: pieces) s =
      (readContent >>= fun _ => collect pieces) (s.feed piece) := by
  have hbuf : (s.feed piece).buf ≠ [] := by
    show s.buf ++ piece ≠ []
    simp [hpiece]
  have hmore := readMore_parked (h.feed piece) hbuf hmissing
  rw [collect, act_modify_bind]
  show EStateM.bind readMore _ _ = EStateM.bind readContent _ _
  unfold EStateM.bind
  rw [hmore]

/-- Nothing is left in the buffer by the first read, so nothing may be behind the body. -/
theorem collected_first (h : s.Collecting msg length) (hmissing : msg.message.body_.length < length)
    {piece : Bytes} (hpiece : piece ≠ []) {t : Transport ω} (ht : collect [piece] s = .ok () t)
    (hcollected : t.Collected (msg.message.body_ ++ s.buf ++ piece) length) :
    (s.buf ++ piece).length = length ∧ msg.message.body_ = [] := by
  obtain ⟨-, hbuf⟩ := hcollected
  rw [collect_cons h hmissing hpiece] at ht
  by_cases hshort : (s.buf ++ piece).length < length
  · have hover := readContent_short (h.feed piece).message (by rw [(h.feed piece).toNat]; exact hshort)
    rw [act_bind_of_error hover] at ht
    cases ht
  · have hread := readContent_all (h.feed piece).message
      (by rw [(h.feed piece).toNat]; exact Nat.not_lt.mp hshort)
    rw [act_bind_of_ok hread] at ht
    cases ht
    have hdrop := congrArg List.length hbuf
    simp only [List.length_nil, List.length_drop, List.length_append] at hdrop hshort
    have hnone : msg.message.body_.length = 0 := by omega
    exact ⟨by rw [List.length_append]; omega, List.length_eq_zero_iff.mp hnone⟩

/-- A first read that brings the body, whatever is read behind it. -/
theorem collect_exact (h : s.Collecting msg length) (hmissing : msg.message.body_.length < length)
    {piece : Bytes} (hpiece : piece ≠ []) (hlen : (s.buf ++ piece).length = length)
    (hbody : msg.message.body_ = []) (pieces : List Bytes) :
    ∃ t, collect (piece :: pieces) s = .ok () t ∧
      t.Collected (msg.message.body_ ++ s.buf ++ (piece :: pieces).flatten) length := by
  have hfed : (s.feed piece).buf = s.buf ++ piece := rfl
  have hread := readContent_all (h.feed piece).message (by rw [(h.feed piece).toNat, hfed, hlen])
  have hwhole : (IncomingMessage.append msg (s.buf ++ piece)).message.body_.length = length := by
    rw [IncomingMessage.append, hbody, List.nil_append, hlen]
  have hcollecting : Collecting { s.feed piece with
      incoming_message_ := some (IncomingMessage.append msg (s.buf ++ piece)), buf := [] }
      (IncomingMessage.append msg (s.buf ++ piece)) length :=
    ⟨rfl, h.complete, h.expected, hwhole.le⟩
  have hcollect := (collect_cons h hmissing hpiece pieces).trans (act_bind_of_ok hread)
  rw [hfed, collect_complete hcollecting hwhole pieces] at hcollect
  refine ⟨_, hcollect, ⟨_, rfl, ?_⟩, ?_⟩
  · rw [hbody, List.nil_append, List.flatten_cons, ← List.append_assoc, ← hlen, List.take_left,
      IncomingMessage.append, hbody, List.nil_append]
  · rw [hbody, List.nil_append, List.flatten_cons, ← List.append_assoc, ← hlen, List.drop_left]
    rfl

theorem collectsExactly_iff (h : s.Collecting msg length) {pieces : List Bytes}
    (hpieces : ∀ piece ∈ pieces, piece ≠ []) :
    s.CollectsExactly msg length pieces ↔
      msg.message.body_.length = length ∨ ∀ piece, pieces.head? = some piece →
        (s.buf ++ piece).length = length ∧ msg.message.body_ = [] := by
  by_cases hall : msg.message.body_.length = length
  · refine iff_of_true (fun front _ _ => ?_) (.inl hall)
    refine ⟨_, collect_complete h hall front, ⟨msg, h.message, ?_⟩, ?_⟩
    · rw [List.append_assoc, ← hall, List.take_left]
    · rw [List.append_assoc, ← hall, List.drop_left]
      rfl
  · have hmissing : msg.message.body_.length < length := by
      have := h.collected
      omega
    cases pieces with
    | nil =>
        refine iff_of_true (fun front hfront hne => absurd (List.prefix_nil.mp hfront) hne) (.inr ?_)
        intro piece hpiece
        cases hpiece
    | cons piece pieces =>
        have hpiece := hpieces piece List.mem_cons_self
        simp only [List.head?_cons, Option.some.injEq, forall_eq', hall, false_or]
        constructor
        · intro hcollects
          obtain ⟨t, ht, hcollected⟩ := hcollects [piece] ⟨pieces, rfl⟩ (List.cons_ne_nil _ _)
          rw [List.flatten_singleton] at hcollected
          exact collected_first h hmissing hpiece ht hcollected
        · rintro ⟨hlen, hbody⟩ front hfront hne
          cases front with
          | nil => exact absurd rfl hne
          | cons first rest =>
              obtain ⟨rfl, -⟩ := List.cons_prefix_cons.mp hfront
              exact collect_exact h hmissing hpiece hlen hbody rest

/-- A call takes exactly the octets of the body exactly when all of them are in the buffer,
no others are, and none has been read before. Over any reads the body is exactly the
octets that follow the head, and the others stay in the buffer, exactly when it has been
read before, or the first of the reads brings the end of the body and nothing else. -/
theorem reading_bodies_iff (h : s.Collecting msg length) {pieces : List Bytes}
    (hpieces : ∀ piece ∈ pieces, piece ≠ []) :
    (s.TakesExactly msg length ↔ s.buf.length = length ∧ msg.message.body_ = []) ∧
    (s.CollectsExactly msg length pieces ↔
      msg.message.body_.length = length ∨ ∀ piece, pieces.head? = some piece →
        (s.buf ++ piece).length = length ∧ msg.message.body_ = []) :=
  ⟨takesExactly_iff h, collectsExactly_iff h hpieces⟩

/-- The body of a request whose head has been read: two octets are expected. -/
def expecting (buf : Bytes) : Transport Unit where
  incoming_message_ := some { first_line := octets "POST / HTTP/1.1" }
  message_headers_complete_ := true
  expected_body_length_ := 2
  buf := buf
  world := ()

theorem expecting_collecting (buf : Bytes) :
    (expecting buf).Collecting { first_line := octets "POST / HTTP/1.1" } 2 :=
  ⟨rfl, rfl, rfl, Nat.zero_le _⟩

/-- A body that is read at once. -/
theorem reading_bodies_once :
    (expecting []).CollectsExactly { first_line := octets "POST / HTTP/1.1" } 2 [octets "hi"] :=
  (reading_bodies_iff (expecting_collecting []) (by simp [octets])).2.mpr
    (.inr fun piece hpiece => by cases hpiece; exact ⟨rfl, rfl⟩)

/-- With the first octet of a body, what is behind it in memory is read too. -/
theorem body_overread :
    ¬ ∀ (s : Transport Unit) (msg : IncomingMessage) (length : Nat), s.Collecting msg length →
      s.TakesExactly msg length := by
  intro h
  have htaken := h (expecting (octets "h")) _ 2 (expecting_collecting _)
  have hall := ((takesExactly_iff (expecting_collecting (octets "h"))).mp htaken).1
  revert hall
  decide

end Shitty.Http1.Transport
