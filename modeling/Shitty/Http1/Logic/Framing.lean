import Shitty.Http1.Logic.Lines
import Shitty.Lib.Resumable

/-!
# Reading a stream line by line and body by body

The transport as a consumer of the stream. A line is taken when it is there. A
body is different: `processInput` stops in front of it whatever the buffer holds,
and the next read after that takes all that has come by then for the body. So how
far a body is read, given where it begins, is a parameter: `due`.

The code's loop drains this consumer.
-/

namespace Shitty.Http1.Transport

open Lib.Resumable

variable {ω : Type} {find : Find} {virtual : Virtual ω} {s t : Transport ω} {b : Bool}

/-! ## `processInput` -/

theorem processInput_replaced (h : virtual.replaced s.world = true) :
    processInput find virtual s = .error .useAfterDestroy s := by
  show (if virtual.replaced s.world then _ else _ : Act ω Bool) s = _
  rw [if_pos h]
  rfl

theorem processInput_empty (h : virtual.replaced s.world = false) (hbuf : s.buf = []) :
    processInput find virtual s = .ok false s := by
  show (if virtual.replaced s.world then _ else _ : Act ω Bool) s = _
  rw [if_neg (by rw [h]; exact Bool.false_ne_true)]
  show (if s.buf = [] then _ else _ : Act ω Bool) s = _
  rw [if_pos hbuf]
  rfl

theorem processInput_body (h : virtual.replaced s.world = false) (hbuf : s.buf ≠ [])
    (hparked : parked s = true) : processInput find virtual s = processBody find virtual s := by
  show (if virtual.replaced s.world then _ else _ : Act ω Bool) s = _
  rw [if_neg (by rw [h]; exact Bool.false_ne_true)]
  show (if s.buf = [] then _ else _ : Act ω Bool) s = _
  rw [if_neg hbuf]
  show (if parked s then _ else _ : Act ω Bool) s = _
  rw [if_pos hparked]

/-- Nothing is done about a line that is not complete. -/
def processOptional (find : Find) (virtual : Virtual ω) : Option Bytes → Act ω Bool
  | none => return false
  | some line => processLine find virtual line

/-- Where no body is read, the buffer is read by lines. -/
theorem processInput_lines (h : virtual.replaced s.world = false) (hbuf : s.buf ≠ [])
    (hparked : parked s = false) :
    processInput find virtual s = (getLine >>= processOptional find virtual) s := by
  show (if virtual.replaced s.world then _ else _ : Act ω Bool) s = _
  rw [if_neg (by rw [h]; exact Bool.false_ne_true)]
  show (if s.buf = [] then _ else _ : Act ω Bool) s = _
  rw [if_neg hbuf]
  show (if parked s then _ else _ : Act ω Bool) s = _
  rw [if_neg (by rw [hparked]; exact Bool.false_ne_true)]
  rfl

theorem processInput_incomplete (h : virtual.replaced s.world = false) (hbuf : s.buf ≠ [])
    (hparked : parked s = false) (hline : LF ∉ s.buf) :
    processInput find virtual s = .ok false s := by
  have hget : (getLine : Act ω (Option Bytes)) s = .ok none s := by
    rw [getLine, getLine_none hline]
  rw [processInput_lines h hbuf hparked, act_bind_of_ok hget]
  rfl

theorem processInput_line (find : Find) {front rest : Bytes} (h : virtual.replaced s.world = false)
    (hparked : parked s = false) (hbuf : s.buf = front ++ LF :: rest) (hfront : LF ∉ front) :
    processInput find virtual s =
      processLine find virtual (removeTrailingChar front CR) { s with buf := rest } := by
  have hget : (getLine : Act ω (Option Bytes)) s =
      .ok (some (removeTrailingChar front CR)) { s with buf := rest } := by
    rw [getLine, hbuf, getLine_some rest hfront]
  rw [processInput_lines h (by rw [hbuf]; simp) hparked, act_bind_of_ok hget]
  rfl

/-! ## Bodies -/

/-- The message with more of its body. -/
def IncomingMessage.append (msg : IncomingMessage) (data : Bytes) : IncomingMessage :=
  { msg with message := { msg.message with body_ := msg.message.body_ ++ data } }

/-- Fewer octets than the whole body has: `data()` is read behind its end. -/
theorem readContent_short {msg : IncomingMessage} (hmsg : s.incoming_message_ = some msg)
    (hlen : s.buf.length < s.expected_body_length_.toNat) :
    readContent s = .error .overread s := by
  have hmessage : message s = .ok msg s := by
    rw [message, hmsg]
  have hfront : front (max s.buf.length s.expected_body_length_.toNat) s = .error .overread s := by
    rw [front, if_pos (by omega)]
  show (message >>= _ : Act ω Unit) s = _
  rw [act_bind_of_ok hmessage]
  show (EStateM.bind (front _) _ : Act ω Unit) s = _
  unfold EStateM.bind
  rw [hfront]

/-- All that is there is taken for the body. -/
theorem readContent_all {msg : IncomingMessage} (hmsg : s.incoming_message_ = some msg)
    (hlen : s.expected_body_length_.toNat ≤ s.buf.length) :
    readContent s = .ok () { s with
      incoming_message_ := some (IncomingMessage.append msg s.buf), buf := [] } := by
  have hmessage : message s = .ok msg s := by
    rw [message, hmsg]
  have hmax : max s.buf.length s.expected_body_length_.toNat = s.buf.length := by omega
  have hfront : front (max s.buf.length s.expected_body_length_.toNat) s = .ok s.buf s := by
    rw [front, hmax, if_neg (Nat.lt_irrefl _), List.take_length]
  show (message >>= _ : Act ω Unit) s = _
  rw [act_bind_of_ok hmessage, act_bind_of_ok hfront]
  show advance (max s.buf.length s.expected_body_length_.toNat) _ = _
  rw [hmax, advance]
  simp only [Shitty.advance, if_neg (Nat.lt_irrefl _), List.drop_length]
  rfl

/-- `processBody` throws for a body of which octets are missing, as the read of it does. -/
theorem processBody_short {msg : IncomingMessage} (hmsg : s.incoming_message_ = some msg)
    (hchunks : s.expected_body_length_ ≠ -1)
    (hlen : s.buf.length < s.expected_body_length_.toNat) :
    processBody find virtual s = .error .overread s := by
  show EStateM.bind (fun s => (if s.expected_body_length_ = -1 then readChunked else readContent
    : Act ω Unit) s) _ s = _
  unfold EStateM.bind
  simp only
  rw [if_neg hchunks, readContent_short hmsg hlen]

theorem processBody_all {msg : IncomingMessage} (hmsg : s.incoming_message_ = some msg)
    (hchunks : s.expected_body_length_ ≠ -1)
    (hlen : s.expected_body_length_.toNat ≤ s.buf.length) :
    processBody find virtual s = handleComplete find virtual { s with
      incoming_message_ := some (IncomingMessage.append msg s.buf), buf := [] } := by
  show EStateM.bind (fun s => (if s.expected_body_length_ = -1 then readChunked else readContent
    : Act ω Unit) s) _ s = _
  unfold EStateM.bind
  simp only
  rw [if_neg hchunks, readContent_all hmsg hlen]
  rfl

theorem parked_iff : parked s = true ↔
    ∃ msg, s.incoming_message_ = some msg ∧ s.message_headers_complete_ = true ∧
      (msg.message.body_.length : Int) ≠ s.expected_body_length_ := by
  obtain ⟨_ | msg, _, _, _, _, _, _⟩ := s
  · simp [parked]
  · simp [parked, isMessageComplete]

/-- Whatever a body is read from, nothing of it is left. -/
theorem processBody_ok (hs : parked s = true) (h : processBody find virtual s = .ok b t) :
    t.buf = [] ∧ parked t = !b := by
  obtain ⟨msg, hmsg, hcomplete, -⟩ := parked_iff.mp hs
  change (readBody >>= fun _ => handleComplete find virtual) s = _ at h
  obtain ⟨_, u, hread, h⟩ := act_bind_eq_ok.mp h
  change (if s.expected_body_length_ = -1 then readChunked else readContent : Act ω Unit) s = _
    at hread
  split at hread
  · cases hread
  · by_cases hlen : s.buf.length < s.expected_body_length_.toNat
    · rw [readContent_short hmsg hlen] at hread
      cases hread
    · rw [readContent_all hmsg (Nat.le_of_not_lt hlen)] at hread
      cases hread
      have hbuf := (handleComplete_blind find virtual).keeps_buf
        { s with incoming_message_ := some (IncomingMessage.append msg s.buf), buf := [] }
      rw [h] at hbuf
      refine ⟨hbuf, handleComplete_parked ?_ ?_ h⟩
      · exact Option.some_ne_none _
      · exact hcomplete

/-! ## The consumer -/

/-- A turn of the loop as a step. -/
def verdict : EStateM.Result Exn (Transport ω) Bool → Verdict (Transport ω) Exn
  | .ok _ t => .next t
  | .error e t => .fail t e

/-- The next `n` octets are read as if there were no more. -/
def bodyPart (find : Find) (virtual : Virtual ω) (n : Nat) (s : Transport ω) :
    Verdict (Transport ω) Exn :=
  verdict (mapState (·.feed (s.buf.drop n)) (processInput find virtual { s with buf := s.buf.take n }))

/-- The octets of a body, up to where it is due. -/
def bodyStep (find : Find) (virtual : Virtual ω) (due : Nat → Option Nat) (s : Transport ω)
    (received : Nat) : Verdict (Transport ω) Exn :=
  let start := received - s.buf.length
  match due start with
  | none => .wait
  | some stop => if received < stop then .wait else bodyPart find virtual (stop - start) s

/-- A step at a state and the number of octets received so far. -/
def step (find : Find) (virtual : Virtual ω) (due : Nat → Option Nat) (s : Transport ω)
    (received : Nat) : Verdict (Transport ω) Exn :=
  if s.buf = [] then .wait
  else if parked s then bodyStep find virtual due s received
  else if virtual.replaced s.world then .fail s .useAfterDestroy
  else if LF ∈ s.buf then verdict (processInput find virtual s)
  else .wait

theorem feed_nil (s : Transport ω) : s.feed [] = s := by
  rw [Transport.feed, List.append_nil]

theorem feed_feed (s : Transport ω) (a b : Bytes) : (s.feed a).feed b = s.feed (a ++ b) := by
  rw [Transport.feed, Transport.feed, Transport.feed, List.append_assoc]

theorem verdict_settled (r : EStateM.Result Exn (Transport ω) Bool) (more : Bytes) :
    Settled feed more (verdict r) (verdict (mapState (·.feed more) r)) := by
  cases r <;> rfl

theorem bodyPart_settled {n : Nat} (hn : n ≤ s.buf.length) (more : Bytes) :
    Settled feed more (bodyPart find virtual n s) (bodyPart find virtual n (s.feed more)) := by
  have htake : (s.feed more).buf.take n = s.buf.take n := List.take_append_of_le_length hn
  have hdrop : (s.feed more).buf.drop n = s.buf.drop n ++ more := List.drop_append_of_le_length hn
  rw [bodyPart, bodyPart, htake, hdrop]
  show Settled feed more _ (verdict (mapState _ (processInput find virtual { s with buf := _ })))
  cases processInput find virtual { s with buf := s.buf.take n } with
  | ok b t => exact congrArg Verdict.next (feed_feed t _ more).symm
  | error e t => exact congrArg (Verdict.fail · e) (feed_feed t _ more).symm

theorem bodyStep_settled (due : Nat → Option Nat) (s : Transport ω) (received : Nat)
    (more : Bytes) :
    Settled feed more (bodyStep find virtual due s received)
      (bodyStep find virtual due (s.feed more) (received + more.length)) := by
  have hlength : (s.feed more).buf.length = s.buf.length + more.length := List.length_append
  unfold bodyStep
  simp only [hlength, Nat.add_sub_add_right]
  cases hdue : due (received - s.buf.length) with
  | none => trivial
  | some stop =>
      simp only
      by_cases hstop : received < stop
      · rw [if_pos hstop]
        trivial
      · rw [if_neg hstop, if_neg (show ¬ received + more.length < stop by omega)]
        exact bodyPart_settled (by omega) more

theorem step_settled (due : Nat → Option Nat) (s : Transport ω) (received : Nat)
    (more : Bytes) :
    Settled feed more (step find virtual due s received)
      (step find virtual due (s.feed more) (received + more.length)) := by
  unfold step
  by_cases hbuf : s.buf = []
  · rw [if_pos hbuf]
    trivial
  · have hbuf' : (s.feed more).buf ≠ [] := List.append_ne_nil_of_left_ne_nil hbuf more
    rw [if_neg hbuf, if_neg hbuf']
    show Settled feed more _ (if parked s then _
      else if virtual.replaced s.world then _ else _)
    by_cases hparked : parked s = true
    · rw [if_pos hparked, if_pos hparked]
      exact bodyStep_settled due s received more
    · rw [if_neg hparked, if_neg hparked]
      rw [Bool.not_eq_true] at hparked
      by_cases hreplaced : virtual.replaced s.world = true
      · rw [if_pos hreplaced, if_pos hreplaced]
        exact rfl
      · rw [if_neg hreplaced, if_neg hreplaced]
        rw [Bool.not_eq_true] at hreplaced
        by_cases hline : LF ∈ s.buf
        · have hline' : LF ∈ (s.feed more).buf := List.mem_append_left more hline
          rw [if_pos hline, if_pos hline']
          obtain ⟨front, rest, hsplit, hfront⟩ := List.eq_append_cons_of_mem hline
          have hsplit' : (s.feed more).buf = front ++ LF :: (rest ++ more) := by
            rw [Transport.feed, hsplit, List.append_assoc, List.cons_append]
          rw [processInput_line find hreplaced hparked hsplit hfront,
            processInput_line find (s := s.feed more) hreplaced hparked hsplit' hfront]
          -- a line is handled whatever comes behind it
          have hfeed := (processLine_blind find virtual (removeTrailingChar front CR)).feed
            { s with buf := rest } more
          rw [show ({ s.feed more with buf := rest ++ more } : Transport ω) =
            Transport.feed { s with buf := rest } more from rfl, hfeed]
          exact verdict_settled _ more
        · rw [if_neg hline]
          trivial

/-- The stream read line by line and body by body. -/
def counted (find : Find) (virtual : Virtual ω) (due : Nat → Option Nat) :
    Counting (Transport ω) Octet Exn where
  feed := feed
  step := step find virtual due
  feed_nil := feed_nil
  feed_feed := feed_feed
  settled := step_settled due

abbrev messages (find : Find) (virtual : Virtual ω) (due : Nat → Option Nat) :
    Consumer (Transport ω × Nat) Octet Exn := (counted find virtual due).consumer

/-! ## Steps -/

section

variable {due : Nat → Option Nat} {received : Nat}

theorem step_empty (h : s.buf = []) : step find virtual due s received = .wait := if_pos h

theorem waits_empty (find : Find) (virtual : Virtual ω) (due : Nat → Option Nat) (received : Nat)
    (h : s.buf = []) : (messages find virtual due).step (s, received) = .wait :=
  Counting.wait_iff.mpr (step_empty h)

theorem step_parked (hbuf : s.buf ≠ []) (hparked : parked s = true) :
    step find virtual due s received = bodyStep find virtual due s received := by
  rw [step, if_neg hbuf, if_pos hparked]

theorem step_replaced (hbuf : s.buf ≠ []) (hparked : parked s = false)
    (h : virtual.replaced s.world = true) :
    step find virtual due s received = .fail s .useAfterDestroy := by
  rw [step, if_neg hbuf, if_neg (by rw [hparked]; exact Bool.false_ne_true), if_pos h]

theorem step_incomplete (hparked : parked s = false) (h : virtual.replaced s.world = false)
    (hline : LF ∉ s.buf) : step find virtual due s received = .wait := by
  by_cases hbuf : s.buf = []
  · exact step_empty hbuf
  · rw [step, if_neg hbuf, if_neg (by rw [hparked]; exact Bool.false_ne_true),
      if_neg (by rw [h]; exact Bool.false_ne_true), if_neg hline]

theorem step_line (find : Find) (due : Nat → Option Nat) (received : Nat)
    (hparked : parked s = false) (h : virtual.replaced s.world = false)
    (hline : LF ∈ s.buf) :
    step find virtual due s received = verdict (processInput find virtual s) := by
  have hbuf : s.buf ≠ [] := List.ne_nil_of_mem hline
  rw [step, if_neg hbuf, if_neg (by rw [hparked]; exact Bool.false_ne_true),
    if_neg (by rw [h]; exact Bool.false_ne_true), if_pos hline]

/-- A body that is due later. -/
theorem step_later (hparked : parked s = true)
    (h : ∀ stop, due (received - s.buf.length) = some stop → received < stop) :
    step find virtual due s received = .wait := by
  by_cases hbuf : s.buf = []
  · exact step_empty hbuf
  · rw [step_parked hbuf hparked, bodyStep]
    cases hdue : due (received - s.buf.length) with
    | none => rfl
    | some stop => exact if_pos (h stop hdue)

theorem step_due (hbuf : s.buf ≠ []) (hparked : parked s = true) {stop : Nat}
    (hdue : due (received - s.buf.length) = some stop) (hstop : stop ≤ received) :
    step find virtual due s received =
      bodyPart find virtual (stop - (received - s.buf.length)) s := by
  rw [step_parked hbuf hparked, bodyStep]
  simp only [hdue]
  exact if_neg (Nat.not_lt.mpr hstop)

/-- A body that is due now is read from all that is there. -/
theorem step_now (find : Find) (virtual : Virtual ω) (hbuf : s.buf ≠ []) (hparked : parked s = true)
    (hinside : s.buf.length ≤ received) (hdue : due (received - s.buf.length) = some received) :
    step find virtual due s received = verdict (processInput find virtual s) := by
  rw [step_due hbuf hparked hdue (Nat.le_refl _),
    show received - (received - s.buf.length) = s.buf.length by omega, bodyPart, List.take_length,
    List.drop_length]
  cases processInput find virtual s with
  | ok b t => exact congrArg Verdict.next (feed_nil t)
  | error e t => exact congrArg (Verdict.fail · e) (feed_nil t)

end

/-! ## The loop -/

section

variable {turns : Nat}

theorem onInput_loop_error {e : Exn} (h : processInput find virtual s = .error e t) :
    onInput_loop find virtual (turns + 1) s = .error e t := by
  show EStateM.bind (processInput find virtual) _ s = _
  unfold EStateM.bind
  rw [h]

theorem onInput_loop_stop (h : processInput find virtual s = .ok b t)
    (hstop : b = false ∨ t.buf = []) :
    onInput_loop find virtual (turns + 1) s = .ok () t := by
  show (processInput find virtual >>= _ : Act ω Unit) s = _
  rw [act_bind_of_ok h]
  show (if b = true ∧ t.buf ≠ [] then _ else _ : Act ω Unit) t = _
  rw [if_neg ?_]
  · rfl
  · rintro ⟨rfl, hbuf⟩
    rcases hstop with hfalse | hempty
    · cases hfalse
    · exact hbuf hempty

theorem onInput_loop_again (h : processInput find virtual s = .ok true t) (hbuf : t.buf ≠ []) :
    onInput_loop find virtual (turns + 1) s = onInput_loop find virtual turns t := by
  show (processInput find virtual >>= _ : Act ω Unit) s = _
  rw [act_bind_of_ok h]
  show (if true = true ∧ t.buf ≠ [] then _ else _ : Act ω Unit) t = _
  rw [if_pos ⟨rfl, hbuf⟩]

end

/-- What a function returns that ends in a state, with or without an exception. -/
def outcome (t : Transport ω) : Option Exn → EStateM.Result Exn (Transport ω) Unit
  | none => .ok () t
  | some e => .error e t

/-- A state in which the loop is entered, when `received` octets have been received and
all but the last read, which made `before` into `received`, have been processed. -/
structure Entered (due : Nat → Option Nat) (before received : Nat) (s : Transport ω) : Prop where
  inside : s.buf.length ≤ received
  body : parked s = true → due (received - s.buf.length) = some received
  /-- No line ends in what was there before. -/
  line : parked s = false → ∀ front rest, s.buf = front ++ LF :: rest → LF ∉ front →
    before < received - rest.length

/-- Bodies that begin in the last read are due later. -/
def Later (due : Nat → Option Nat) (before received : Nat) : Prop :=
  ∀ start stop, before < start → due start = some stop → received < stop

variable {due : Nat → Option Nat} {before received : Nat}

/-- Drained with this outcome, and the action had it too. Where a body is to be read
next, it begins in the last read. -/
def DrainsTo (find : Find) (virtual : Virtual ω) (due : Nat → Option Nat) (before received : Nat)
    (s : Transport ω) (r : EStateM.Result Exn (Transport ω) Unit) : Prop :=
  ∃ t err, Drains (messages find virtual due) (s, received) ((t, received), err) ∧
    r = outcome t err ∧
    (err = none → t.buf.length ≤ received ∧ (parked t = true → before < received - t.buf.length))

theorem DrainsTo.waits (h : step find virtual due s received = .wait)
    (hinside : s.buf.length ≤ received)
    (hparked : parked s = true → before < received - s.buf.length) :
    DrainsTo find virtual due before received s (.ok () s) :=
  ⟨s, none, .wait (Counting.wait_iff.mpr h), rfl, fun _ => ⟨hinside, hparked⟩⟩

theorem DrainsTo.fails {e : Exn} (h : step find virtual due s received = .fail t e) :
    DrainsTo find virtual due before received s (.error e t) :=
  ⟨t, some e, .fail (Counting.fail_iff.mpr ⟨h, rfl⟩), rfl, nofun⟩

theorem DrainsTo.step {r : EStateM.Result Exn (Transport ω) Unit}
    (h : step find virtual due s received = .next t)
    (hr : DrainsTo find virtual due before received t r) :
    DrainsTo find virtual due before received s r := by
  obtain ⟨u, err, hdrains, heq, hor⟩ := hr
  exact ⟨u, err, .next ((Counting.next_iff (y := (t, received))).mpr ⟨h, rfl⟩) hdrains, heq, hor⟩

/-- A body ends the loop: nothing of the buffer is left. -/
theorem onInput_loop_body {turns : Nat} (hs : Entered due before received s)
    (hlt : before < received) (hbuf : s.buf ≠ []) (hparked : parked s = true) :
    DrainsTo find virtual due before received s (onInput_loop find virtual (turns + 1) s) := by
  have hstep := step_now find virtual hbuf hparked hs.inside (hs.body hparked)
  cases hprocess : processInput find virtual s with
  | error e t =>
      rw [onInput_loop_error hprocess]
      rw [hprocess] at hstep
      exact .fails hstep
  | ok b t =>
      rw [hprocess] at hstep
      have hempty : t.buf = [] := by
        cases hreplaced : virtual.replaced s.world with
        | true =>
            rw [processInput_replaced hreplaced] at hprocess
            cases hprocess
        | false =>
            rw [processInput_body hreplaced hbuf hparked] at hprocess
            exact (processBody_ok hparked hprocess).1
      rw [onInput_loop_stop hprocess (.inr hempty)]
      refine .step hstep (.waits (step_empty hempty) ?_ fun _ => ?_)
      · rw [hempty]
        exact Nat.zero_le _
      · rw [hempty]
        exact hlt

/-- A line, and the state behind it. -/
theorem entered_rest {front rest : Bytes} (hs : Entered due before received s)
    (hparked : parked s = false) (hsplit : s.buf = front ++ LF :: rest) (hfront : LF ∉ front)
    (ht : t.buf = rest) (hopen : parked t = false) : Entered due before received t := by
  have hline := hs.line hparked front rest hsplit hfront
  have hinside := hs.inside
  have hlen : s.buf.length = front.length + (rest.length + 1) := by
    rw [hsplit, List.length_append, List.length_cons]
  refine ⟨by rw [ht]; omega, ?_, ?_⟩
  · intro hcontra
    rw [hopen] at hcontra
    cases hcontra
  · intro _ front' rest' hsplit' _
    have hlen' : t.buf.length = front'.length + (rest'.length + 1) := by
      rw [hsplit', List.length_append, List.length_cons]
    rw [ht] at hlen'
    omega

theorem onInput_loop_drains (hlater : Later due before received) (hlt : before < received) :
    ∀ (turns : Nat) (s : Transport ω), s.buf.length < turns → s.buf ≠ [] →
      Entered due before received s →
      DrainsTo find virtual due before received s (onInput_loop find virtual turns s) := by
  intro turns
  induction turns with
  | zero => exact fun s hturns => absurd hturns (Nat.not_lt_zero _)
  | succ turns ih =>
      intro s hturns hbuf hs
      cases hparked : parked s with
      | true => exact onInput_loop_body hs hlt hbuf hparked
      | false =>
          cases hreplaced : virtual.replaced s.world with
          | true =>
              rw [onInput_loop_error (processInput_replaced hreplaced)]
              exact .fails (step_replaced hbuf hparked hreplaced)
          | false =>
              by_cases hline : LF ∈ s.buf
              · obtain ⟨front, rest, hsplit, hfront⟩ := List.eq_append_cons_of_mem hline
                have hstep := step_line find due received hparked hreplaced hline
                have hprocess := processInput_line find hreplaced hparked hsplit hfront
                have hkeeps := (processLine_blind find virtual
                  (removeTrailingChar front CR)).keeps_buf { s with buf := rest }
                rw [← hprocess] at hkeeps
                cases hresult : processInput find virtual s with
                | error e t =>
                    rw [onInput_loop_error hresult]
                    rw [hresult] at hstep
                    exact .fails hstep
                | ok b t =>
                    rw [hresult] at hstep hkeeps hprocess
                    have hafter := processLine_parked (show parked { s with buf := rest } = false
                      from hparked) hprocess.symm
                    have hinside := hs.inside
                    have hlen : s.buf.length = front.length + (rest.length + 1) := by
                      rw [hsplit, List.length_append, List.length_cons]
                    have hbefore := hs.line hparked front rest hsplit hfront
                    have hrest : t.buf = rest := hkeeps
                    refine .step hstep ?_
                    cases b with
                    | false =>
                        -- a body begins behind this line, and the loop ends in front of it
                        rw [onInput_loop_stop hresult (.inl rfl)]
                        refine .waits (step_later hafter ?_) (by rw [hrest]; omega)
                          fun _ => by rw [hrest]; exact hbefore
                        intro stop hdue
                        rw [hrest] at hdue
                        exact hlater _ _ hbefore hdue
                    | true =>
                        by_cases hempty : t.buf = []
                        · rw [onInput_loop_stop hresult (.inr hempty)]
                          refine .waits (step_empty hempty) (by rw [hrest]; omega) fun hcontra => ?_
                          rw [hafter] at hcontra
                          cases hcontra
                        · rw [onInput_loop_again hresult hempty]
                          exact ih t (by rw [hrest]; omega) hempty
                            (entered_rest hs hparked hsplit hfront hrest hafter)
              · rw [onInput_loop_stop (processInput_incomplete hreplaced hbuf hparked hline)
                  (.inl rfl)]
                refine .waits (step_incomplete hparked hreplaced hline) hs.inside fun hcontra => ?_
                rw [hparked] at hcontra
                cases hcontra

theorem onInput_drains (find : Find) (virtual : Virtual ω) (hlater : Later due before received)
    (hlt : before < received) (hbuf : s.buf ≠ []) (hs : Entered due before received s) :
    DrainsTo find virtual due before received s (onInput find virtual s) :=
  onInput_loop_drains hlater hlt (s.buf.length + 1) s (Nat.lt_succ_self _) hbuf hs

end Shitty.Http1.Transport
