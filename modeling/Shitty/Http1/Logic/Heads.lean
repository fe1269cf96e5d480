import Shitty.Http1.Logic.Reads
import Shitty.Http1.Requests
import Shitty.Lib.Returns

/-!
# Heads of messages

The consumer's way through a head: the first line, the fields one by one, and the empty
line, behind which the message is handled or its body is to be read. Each step is one
lemma, for any fields that may follow. Where only a part of a head has arrived, the
consumer stops in front of the first line that is not there.
-/

namespace Shitty.Http1.Transport

open Lib Lib.Resumable

variable {ω : Type} {find : Find} {virtual : Virtual ω} {due : Nat → Option Nat}
  {received : Nat} {s t : Transport ω} {rest : Bytes}

/-- A line that is there is handled. -/
theorem line_step (find : Find) (due : Nat → Option Nat) (received : Nat) {line : Bytes}
    (hline : LF ∉ line) (hparked : parked s = false)
    (hreplaced : virtual.replaced s.world = false) (hbuf : s.buf = line ++ CRLF ++ rest) :
    step find virtual due s received =
      verdict (processLine find virtual line { s with buf := rest }) := by
  have hsplit : s.buf = (line ++ [CR]) ++ LF :: rest := by
    rw [hbuf, CRLF]
    simp
  have hfront : LF ∉ line ++ [CR] := by
    rw [List.mem_append, not_or]
    exact ⟨hline, by decide⟩
  have hmem : LF ∈ s.buf := by
    rw [hsplit]
    simp
  rw [step_line find due received hparked hreplaced hmem,
    processInput_line find hreplaced hparked hsplit hfront, removeTrailingChar_append]

theorem line_next (find : Find) (due : Nat → Option Nat) (received : Nat) {line : Bytes} {b : Bool}
    (hline : LF ∉ line) (hparked : parked s = false)
    (hreplaced : virtual.replaced s.world = false) (hbuf : s.buf = line ++ CRLF ++ rest)
    (h : processLine find virtual line { s with buf := rest } = .ok b t) :
    (messages find virtual due).step (s, received) = .next (t, received) := by
  refine (Counting.next_iff (y := (t, received))).mpr ⟨?_, rfl⟩
  show step find virtual due s received = _
  rw [line_step find due received hline hparked hreplaced hbuf, h]
  rfl

/-! ## Fields -/

/-- The line of a field is read back. -/
theorem headerLine_field (f : Field) {msg : IncomingMessage} (hmsg : s.incoming_message_ = some msg) :
    headerLine f.line s =
      .ok () (s.setFields msg (asciiLower f.name) (msg.message.headers_ ++ [f.header])) := by
  have hsplit : f.line = f.name ++ 0x3a :: (SP :: f.value) := by simp [Field.line]
  have hvalue : storedValue (SP :: f.value) = f.value := trimLWS_value f.value_front f.value_back
  rw [hsplit, headerLine_colon f.name_colon _ hmsg, hvalue]
  rfl

theorem processLine_field (find : Find) (virtual : Virtual ω) (f : Field) {msg : IncomingMessage}
    (hmsg : s.incoming_message_ = some msg) :
    processLine find virtual f.line s =
      .ok true (s.setFields msg (asciiLower f.name) (msg.message.headers_ ++ [f.header])) := by
  have hincoming : s.incoming_message_ ≠ none := by
    rw [hmsg]
    exact Option.some_ne_none msg
  obtain ⟨c, name, hname⟩ := List.exists_cons_of_ne_nil f.name_ne
  have hc : isLWS c = false := f.name_front c (by rw [hname]; rfl)
  have hline : f.line = c :: (name ++ [0x3a, SP] ++ f.value) := by
    rw [Field.line, hname]
    rfl
  have hfield := headerLine_field f hmsg
  rw [hline] at hfield ⊢
  rw [processLine_header hc hincoming, act_bind_of_ok hfield]
  rfl

/-- The message with more fields in its header, and otherwise as it was. -/
def withFields (msg : IncomingMessage) (headers : Headers) : IncomingMessage :=
  { msg with message := { msg.message with headers_ := msg.message.headers_ ++ headers } }

/-- The fields of a head, one line after the other. -/
theorem fields_reached (find : Find) (due : Nat → Option Nat) (received : Nat)
    (fields : List Field) : ∀ (s : Transport ω) (msg : IncomingMessage),
    s.incoming_message_ = some msg → s.message_headers_complete_ = false →
    virtual.replaced s.world = false →
    s.buf = (fields.map fun f => f.line ++ CRLF).flatten ++ rest →
    ∃ last_header_, Reaches (messages find virtual due) (s, received)
      ({ s with
        last_header_ := last_header_
        incoming_message_ := some (withFields msg (fields.map Field.header))
        buf := rest }, received) := by
  induction fields with
  | nil =>
      intro s msg hmsg _ _ hbuf
      have hsame : withFields msg ([].map Field.header) = msg := by
        simp [withFields]
      refine ⟨s.last_header_, ?_⟩
      obtain ⟨_, _, _, _, _, _, _⟩ := s
      cases hmsg
      cases hbuf
      exact hsame.symm ▸ Relation.ReflTransGen.refl
  | cons f fields ih =>
      intro s msg hmsg hopen hreplaced hbuf
      have hbuf' : s.buf = f.line ++ CRLF ++ ((fields.map fun f => f.line ++ CRLF).flatten ++ rest) := by
        rw [hbuf, List.map_cons, List.flatten_cons, List.append_assoc]
      have hparked : parked s = false := by
        rw [parked, hopen, Bool.and_false, Bool.false_and]
      have hfirst := line_next find due received f.line_no_LF hparked hreplaced hbuf'
        (processLine_field find virtual f (s := { s with buf := _ }) hmsg)
      obtain ⟨last_header_, hrest⟩ := ih (setFields { s with buf := _ } msg _ _) _ rfl hopen
        hreplaced rfl
      refine ⟨last_header_, .head hfirst ?_⟩
      have hfields : withFields { msg with message :=
            { msg.message with headers_ := msg.message.headers_ ++ [f.header] } }
          (fields.map Field.header) = withFields msg ((f :: fields).map Field.header) := by
        simp [withFields]
      rw [hfields] at hrest
      exact hrest

/-! ## Heads -/

/-- The message with the head that has been read. -/
def headOnly (first_line : Bytes) (fields : List Field) : IncomingMessage where
  first_line := first_line
  message := { headers_ := fields.map Field.header }

section

variable {first_line : Bytes} {fields : List Field}

/-- The consumer in front of the empty line. -/
theorem head_reached (find : Find) (due : Nat → Option Nat) (received : Nat)
    (hline : LF ∉ first_line) (hs : s.incoming_message_ = none)
    (hreplaced : virtual.replaced s.world = false)
    (hbuf : s.buf = headText first_line fields ++ rest) :
    ∃ last_header_, Reaches (messages find virtual due) (s, received)
      ({ s with
        last_header_ := last_header_
        incoming_message_ := some (headOnly first_line fields)
        message_headers_complete_ := false
        buf := CRLF ++ rest }, received) := by
  have hparked : parked s = false := by
    rw [parked, hs]
    rfl
  have hbuf' : s.buf = first_line ++ CRLF ++
      ((fields.map fun f => f.line ++ CRLF).flatten ++ (CRLF ++ rest)) := by
    rw [hbuf, headText]
    simp only [List.append_assoc]
  have hfirst := line_next find due received hline hparked hreplaced hbuf'
    (processLine_first (s := { s with buf := _ }) hs)
  obtain ⟨last_header_, hfields⟩ := fields_reached find due received fields
    { s with
      message_headers_complete_ := false
      incoming_message_ := some { first_line := first_line }
      buf := (fields.map fun f => f.line ++ CRLF).flatten ++ (CRLF ++ rest) }
    { first_line := first_line } rfl rfl hreplaced rfl
  exact ⟨last_header_, .head hfirst hfields⟩

theorem processLine_empty {msg : IncomingMessage} {length : Int} {world : ω}
    (hmsg : s.incoming_message_ = some msg)
    (hlength : getContentLength find msg.message.headers_ = .ok length)
    (hend : virtual.onEndOfMessageHeaders msg.message.headers_ s.world = .ok () world) :
    processLine find virtual [] s = handleComplete find virtual { s with
      message_headers_complete_ := true, expected_body_length_ := length, world := world } := by
  have hincoming : s.incoming_message_ ≠ none := by
    rw [hmsg]
    exact Option.some_ne_none msg
  rw [processLine_blank hincoming, act_bind_of_ok (markHeadersComplete_eq hmsg hlength hend)]

end

theorem handleComplete_true (h : isMessageComplete s = true)
    (hhandled : handleMessage find virtual s = .ok () t) :
    handleComplete find virtual s = .ok true t := by
  show (if isMessageComplete s then _ else _ : Act ω Bool) s = _
  rw [if_pos h, act_bind_of_ok hhandled]
  rfl

theorem handleComplete_error {e : Exn} (h : isMessageComplete s = true)
    (hthrows : handleMessage find virtual s = .error e t) :
    handleComplete find virtual s = .error e t := by
  show (if isMessageComplete s then _ else _ : Act ω Bool) s = _
  rw [if_pos h, act_bind_of_error hthrows]

theorem handleComplete_false (h : isMessageComplete s = false) :
    handleComplete find virtual s = .ok false s := by
  show (if isMessageComplete s then _ else _ : Act ω Bool) s = _
  rw [if_neg (by rw [h]; exact Bool.false_ne_true)]
  rfl

/-- The transport between two messages: nothing of the next one has been parsed. -/
def between (rest : Bytes) (handled : List IncomingMessage) (world : ω) : Transport ω where
  buf := rest
  handled := handled
  world := world

/-- A message without a body behind the empty line. -/
def completed (msg : IncomingMessage) (last_header_ rest : Bytes) (handled : List IncomingMessage)
    (world : ω) : Transport ω where
  incoming_message_ := some msg
  last_header_ := last_header_
  message_headers_complete_ := true
  expected_body_length_ := 0
  buf := rest
  handled := handled
  world := world

section

variable {first_line : Bytes} {fields : List Field} {world world' : ω}

/-- A head behind which no body comes: at the empty line the message is complete. -/
theorem head_blank (find : Find) (due : Nat → Option Nat) (received : Nat)
    (hline : LF ∉ first_line) (hs : s.incoming_message_ = none)
    (hreplaced : virtual.replaced s.world = false)
    (hbuf : s.buf = headText first_line fields ++ rest)
    (hlength : getContentLength find (fields.map Field.header) = .ok 0)
    (hend : virtual.onEndOfMessageHeaders (fields.map Field.header) s.world = .ok () world) :
    ∃ u last_header_, Reaches (messages find virtual due) (s, received) (u, received) ∧
      step find virtual due u received = verdict (handleComplete find virtual
        (completed (headOnly first_line fields) last_header_ rest s.handled world)) := by
  obtain ⟨last_header_, hhead⟩ := head_reached find due received hline hs hreplaced hbuf
  refine ⟨_, last_header_, hhead, Eq.trans (line_step find due received List.not_mem_nil rfl
    hreplaced rfl) ?_⟩
  exact congrArg verdict (processLine_empty rfl hlength hend)

/-- The message is handled at once. -/
theorem head_handled (due : Nat → Option Nat) (received : Nat) (hline : LF ∉ first_line)
    (hs : s.incoming_message_ = none) (hreplaced : virtual.replaced s.world = false)
    (hbuf : s.buf = headText first_line fields ++ rest)
    (hlength : getContentLength find (fields.map Field.header) = .ok 0)
    (hend : virtual.onEndOfMessageHeaders (fields.map Field.header) s.world = .ok () world)
    (hhandle : virtual.handleIncomingMessage (headOnly first_line fields) world = .ok () world')
    (hstays : virtual.replaced world' = false) :
    Reaches (messages find virtual due) (s, received)
      (between rest (s.handled ++ [headOnly first_line fields])
        (if closes find (headOnly first_line fields) then virtual.close world' else world'),
        received) := by
  obtain ⟨u, last_header_, hhead, hstep⟩ := head_blank find due received hline hs hreplaced hbuf
    hlength hend
  rw [handleComplete_true rfl (handleMessage_ok rfl hhandle hstays)] at hstep
  exact hhead.tail (Counting.next_iff.mpr ⟨hstep, rfl⟩)

/-- An exception, or another transport in this one's place: nothing is handled behind the
message. -/
theorem head_stops (due : Nat → Option Nat) (received : Nat) (hline : LF ∉ first_line)
    (hs : s.incoming_message_ = none) (hreplaced : virtual.replaced s.world = false)
    (hbuf : s.buf = headText first_line fields ++ rest)
    (hlength : getContentLength find (fields.map Field.header) = .ok 0)
    (hend : virtual.onEndOfMessageHeaders (fields.map Field.header) s.world = .ok () world)
    (hstops : ∀ w, virtual.handleIncomingMessage (headOnly first_line fields) world = .ok () w →
      virtual.replaced w = true) :
    ∃ t err, Drains (messages find virtual due) (s, received) ((t, received), err) ∧
      t.handled = s.handled ++ [headOnly first_line fields] ∧
      (err = none →
        virtual.handleIncomingMessage (headOnly first_line fields) world = .ok () t.world) := by
  obtain ⟨u, last_header_, hhead, hstep⟩ := head_blank find due received hline hs hreplaced hbuf
    hlength hend
  -- the state behind the call, whether it returns or throws
  let behind_call (w : ω) : Transport ω :=
    { completed (headOnly first_line fields) last_header_ rest s.handled w with
      handled := s.handled ++ [headOnly first_line fields] }
  cases hcall : virtual.handleIncomingMessage (headOnly first_line fields) world with
  | error e w =>
      rw [handleComplete_error rfl (handleMessage_error rfl hcall)] at hstep
      refine ⟨behind_call w, some e, (Drains.iff_of_reaches hhead).mpr (.fail ?_), rfl, nofun⟩
      exact Counting.fail_iff.mpr ⟨hstep, rfl⟩
  | ok _ w =>
      have hnew := hstops w hcall
      rw [handleComplete_true rfl (handleMessage_replaced rfl hcall hnew)] at hstep
      have hdone : Reaches (messages find virtual due) (s, received) (behind_call w, received) :=
        hhead.tail (Counting.next_iff.mpr ⟨hstep, rfl⟩)
      by_cases hrest : rest = []
      · refine ⟨behind_call w, none, (Drains.iff_of_reaches hdone).mpr (.wait ?_), rfl,
          fun _ => rfl⟩
        exact Counting.wait_iff.mpr (step_empty hrest)
      · refine ⟨behind_call w, some .useAfterDestroy, (Drains.iff_of_reaches hdone).mpr (.fail ?_),
          rfl, nofun⟩
        exact Counting.fail_iff.mpr ⟨step_replaced hrest rfl hnew, rfl⟩

/-- A message that is complete is handled, whatever becomes of it there. But for
`Connection: close`, the call of the virtual function is all that is done to the world. -/
theorem handleComplete_handled (find : Find) (virtual : Virtual ω) {msg : IncomingMessage}
    (hmsg : s.incoming_message_ = some msg) (hcomplete : isMessageComplete s = true) :
    (stateOf (handleComplete find virtual s)).handled = s.handled ++ [msg] ∧
      (closes find msg = false → (stateOf (handleComplete find virtual s)).world =
        endState (virtual.handleIncomingMessage msg s.world)) := by
  have hcall : handleComplete find virtual s =
      (handleMessage find virtual >>= fun _ => pure true : Act ω Bool) s := by
    show (if isMessageComplete s then _ else _ : Act ω Bool) s = _
    rw [if_pos hcomplete]
  rw [hcall]
  cases hhandle : virtual.handleIncomingMessage msg s.world with
  | error e world =>
      rw [act_bind_of_error (handleMessage_error hmsg hhandle)]
      exact ⟨rfl, fun _ => rfl⟩
  | ok _ world =>
      cases hreplaced : virtual.replaced world with
      | true =>
          rw [act_bind_of_ok (handleMessage_replaced hmsg hhandle hreplaced)]
          exact ⟨rfl, fun _ => rfl⟩
      | false =>
          rw [act_bind_of_ok (handleMessage_ok hmsg hhandle hreplaced)]
          refine ⟨rfl, fun hstays => ?_⟩
          show (if closes find msg then virtual.close world else world) = world
          rw [hstays, if_neg Bool.false_ne_true]

/-- A head and nothing behind it: one message is handled. -/
theorem head_drains (find : Find) (due : Nat → Option Nat) (received : Nat)
    (hline : LF ∉ first_line) (hs : s.incoming_message_ = none)
    (hreplaced : virtual.replaced s.world = false) (hbuf : s.buf = headText first_line fields)
    (hlength : getContentLength find (fields.map Field.header) = .ok 0)
    (hend : virtual.onEndOfMessageHeaders (fields.map Field.header) s.world = .ok () world) :
    ∃ t err, Drains (messages find virtual due) (s, received) ((t, received), err) ∧
      t.handled = s.handled ++ [headOnly first_line fields] ∧ t.buf = [] ∧
      (closes find (headOnly first_line fields) = false → t.world =
        endState (virtual.handleIncomingMessage (headOnly first_line fields) world)) := by
  have htext : s.buf = headText first_line fields ++ [] := by rw [hbuf, List.append_nil]
  obtain ⟨u, last_header_, hhead, hstep⟩ := head_blank find due received hline hs hreplaced htext
    hlength hend
  obtain ⟨hhandled, hworld⟩ := handleComplete_handled find virtual
    (s := completed (headOnly first_line fields) last_header_ [] s.handled world) rfl rfl
  have hempty := (handleComplete_blind find virtual).keeps_buf
    (completed (headOnly first_line fields) last_header_ [] s.handled world)
  generalize handleComplete find virtual _ = result at hstep hhandled hempty hworld
  cases result with
  | ok b t =>
      refine ⟨t, none, (Drains.iff_of_reaches (hhead.tail ?_)).mpr (.wait ?_), hhandled, hempty,
        hworld⟩
      · exact Counting.next_iff.mpr ⟨hstep, rfl⟩
      · exact Counting.wait_iff.mpr (step_empty hempty)
  | error e t =>
      refine ⟨t, some e, (Drains.iff_of_reaches hhead).mpr (.fail ?_), hhandled, hempty, hworld⟩
      exact Counting.fail_iff.mpr ⟨hstep, rfl⟩

/-- A head behind which a body comes. -/
theorem head_parked (due : Nat → Option Nat) (received : Nat) {length : Int}
    (hline : LF ∉ first_line) (hs : s.incoming_message_ = none)
    (hreplaced : virtual.replaced s.world = false)
    (hbuf : s.buf = headText first_line fields ++ rest)
    (hlength : getContentLength find (fields.map Field.header) = .ok length) (hne : length ≠ 0)
    (hend : virtual.onEndOfMessageHeaders (fields.map Field.header) s.world = .ok () world) :
    ∃ last_header_, Reaches (messages find virtual due) (s, received)
      ({ incoming_message_ := some (headOnly first_line fields)
         last_header_ := last_header_
         message_headers_complete_ := true
         expected_body_length_ := length
         buf := rest
         handled := s.handled
         world := world }, received) := by
  obtain ⟨last_header_, hhead⟩ := head_reached find due received hline hs hreplaced hbuf
  refine ⟨last_header_, hhead.tail (line_next (b := false) find due received List.not_mem_nil ?_
    hreplaced rfl ?_)⟩
  · rfl
  · refine Eq.trans (processLine_empty rfl hlength hend) ?_
    exact handleComplete_false (beq_false_of_ne hne.symm)

end

/-! ## Heads that have not all arrived -/

/-- The first octets of a line and what comes behind it: there is no line feed among them, or
all of the line. -/
theorem line_or_part {line text part : Bytes} (hline : LF ∉ line)
    (h : part <+: line ++ CRLF ++ text) :
    LF ∉ part ∨ ∃ rest, part = line ++ CRLF ++ rest ∧ rest <+: text := by
  rcases List.prefix_or_prefix_of_prefix h (List.prefix_append (line ++ CRLF) text) with
    hshort | ⟨rest, rfl⟩
  · have hsplit : line ++ CRLF = (line ++ [CR]) ++ [LF] := by simp [CRLF]
    rw [hsplit] at hshort
    rcases List.prefix_concat_iff.mp hshort with rfl | hshort
    · exact .inr ⟨[], by rw [hsplit, List.append_nil], List.nil_prefix⟩
    · refine .inl fun hmem => ?_
      rcases List.mem_append.mp (hshort.subset hmem) with hmem | hmem
      · exact hline hmem
      · exact absurd hmem (by decide)
  · exact .inr ⟨rest, rfl, (List.prefix_append_right_inj _).mp h⟩

/-- Nothing has been handled, and the rest of the world is as it was. -/
def Idles (find : Find) (virtual : Virtual ω) (due : Nat → Option Nat) (received : Nat)
    (s : Transport ω) : Prop :=
  ∃ t : Transport ω, Drains (messages find virtual due) (s, received) ((t, received), none) ∧
    t.handled = s.handled ∧ t.world = s.world

theorem Idles.wait {find : Find} (hparked : parked s = false)
    (hreplaced : virtual.replaced s.world = false) (hline : LF ∉ s.buf) :
    Idles find virtual due received s :=
  ⟨s, .wait (Counting.wait_iff.mpr (step_incomplete hparked hreplaced hline)), rfl, rfl⟩

theorem Idles.next {find : Find} (hstep : (messages find virtual due).step (s, received) =
      .next (t, received)) (hhandled : t.handled = s.handled) (hworld : t.world = s.world)
    (h : Idles find virtual due received t) : Idles find virtual due received s := by
  obtain ⟨u, hdrains, hsame, hkept⟩ := h
  exact ⟨u, .next hstep hdrains, hsame.trans hhandled, hkept.trans hworld⟩

theorem fields_idle (find : Find) (due : Nat → Option Nat) (received : Nat)
    (fields : List Field) : ∀ (s : Transport ω) (msg : IncomingMessage),
    s.incoming_message_ = some msg → s.message_headers_complete_ = false →
    virtual.replaced s.world = false →
    s.buf <+: (fields.map fun f => f.line ++ CRLF).flatten ++ CRLF →
    s.buf ≠ (fields.map fun f => f.line ++ CRLF).flatten ++ CRLF →
    Idles find virtual due received s := by
  have hclosed : ∀ s : Transport ω, s.message_headers_complete_ = false → parked s = false := by
    intro s hopen
    rw [parked, hopen, Bool.and_false, Bool.false_and]
  induction fields with
  | nil =>
      intro s msg _ hopen hreplaced hleading hne
      have hleading' : s.buf <+: [] ++ CRLF ++ [] := hleading
      rcases line_or_part List.not_mem_nil hleading' with hline | ⟨rest, hrest, hnil⟩
      · exact .wait (hclosed s hopen) hreplaced hline
      · rw [List.prefix_nil.mp hnil] at hrest
        exact absurd hrest hne
  | cons f fields ih =>
      intro s msg hmsg hopen hreplaced hleading hne
      rw [List.map_cons, List.flatten_cons, List.append_assoc] at hleading hne
      rcases line_or_part f.line_no_LF hleading with hline | ⟨rest, hrest, hbehind⟩
      · exact .wait (hclosed s hopen) hreplaced hline
      · rw [hrest] at hne
        refine .next (line_next find due received f.line_no_LF (hclosed s hopen) hreplaced hrest
          (processLine_field find virtual f (s := { s with buf := _ }) hmsg)) rfl rfl ?_
        exact ih (setFields { s with buf := _ } msg _ _) _ rfl hopen hreplaced hbehind
          fun heq => hne (congrArg _ heq)

theorem head_idle (find : Find) (due : Nat → Option Nat) (received : Nat) {first_line : Bytes}
    {fields : List Field} (hline : LF ∉ first_line) (hs : s.incoming_message_ = none)
    (hreplaced : virtual.replaced s.world = false) (hleading : s.buf <+: headText first_line fields)
    (hne : s.buf ≠ headText first_line fields) : Idles find virtual due received s := by
  have hparked : parked s = false := by
    rw [parked, hs]
    rfl
  rw [headText, List.append_assoc] at hleading hne
  rcases line_or_part hline hleading with hpart | ⟨rest, hrest, hbehind⟩
  · exact .wait hparked hreplaced hpart
  · rw [hrest] at hne
    refine .next (line_next find due received hline hparked hreplaced hrest
      (processLine_first (s := { s with buf := _ }) hs)) rfl rfl ?_
    exact fields_idle find due received fields { s with
      message_headers_complete_ := false
      incoming_message_ := some { first_line := first_line }
      buf := rest } { first_line := first_line } rfl rfl hreplaced hbehind
      fun heq => hne (congrArg _ heq)

end Shitty.Http1.Transport
