import Shitty.Http1.Transport

/-!
# What becomes of a line

Handling a line leaves the buffer alone, and does not depend on it. Afterwards the
transport has a body to read exactly when `processLine` says that there is nothing more
to be done for now. So a line can be handled on a transport with any other buffer, and
gives the same. That is what makes the turns of the loop steps of a consumer.
-/

namespace Shitty.Http1.Transport

variable {ω α β : Type} {find : Find} {virtual : Virtual ω}

/-- A result with its state changed by a function, and otherwise as it was. -/
def mapState (f : Transport ω → Transport ω) :
    EStateM.Result Exn (Transport ω) α → EStateM.Result Exn (Transport ω) α
  | .ok a s => .ok a (f s)
  | .error e s => .error e (f s)

/-- The buffer is neither read nor changed. -/
def Blind (x : Act ω α) : Prop :=
  ∀ s buf, x { s with buf := buf } = mapState (fun t => { t with buf := buf }) (x s)

/-- The state, whether there is an exception or not. -/
def stateOf : EStateM.Result Exn (Transport ω) α → Transport ω
  | .ok _ s => s
  | .error _ s => s

theorem Blind.keeps_buf {x : Act ω α} (hx : Blind x) (s : Transport ω) :
    (stateOf (x s)).buf = s.buf := by
  have hsame := hx s s.buf
  rw [show ({ s with buf := s.buf } : Transport ω) = s from rfl] at hsame
  rw [hsame]
  cases x s <;> rfl

/-- What is fed stays behind what is there. -/
theorem Blind.feed {x : Act ω α} (hx : Blind x) (s : Transport ω) (more : Bytes) :
    x (s.feed more) = mapState (·.feed more) (x s) := by
  have hsame := hx s (s.buf ++ more)
  have hbuf := hx.keeps_buf s
  rw [Transport.feed, hsame]
  cases hr : x s with
  | ok a t =>
      rw [hr] at hbuf
      show EStateM.Result.ok a { t with buf := s.buf ++ more } = .ok a { t with buf := t.buf ++ more }
      rw [show t.buf = s.buf from hbuf]
  | error e t =>
      rw [hr] at hbuf
      show EStateM.Result.error e { t with buf := s.buf ++ more } =
        .error e { t with buf := t.buf ++ more }
      rw [show t.buf = s.buf from hbuf]

theorem Blind.bind {x : Act ω α} {f : α → Act ω β} (hx : Blind x) (hf : ∀ a, Blind (f a)) :
    Blind (x >>= f) := by
  intro s buf
  show EStateM.bind x f _ = mapState _ (EStateM.bind x f s)
  unfold EStateM.bind
  rw [hx s buf]
  cases x s with
  | ok a t => exact hf a t buf
  | error e t => rfl

/-- The state may be looked at, apart from the buffer. -/
theorem Blind.get_bind {f : Transport ω → Act ω α}
    (hf : ∀ s buf, f { s with buf := buf } = f s) (hblind : ∀ s, Blind (f s)) :
    Blind (get >>= f) := by
  intro s buf
  show f { s with buf := buf } { s with buf := buf } = mapState _ (f s s)
  rw [hf s buf]
  exact hblind s s buf

theorem outside_blind (f : EStateM Exn ω Unit) : Blind (outside f) := by
  intro s buf
  unfold outside
  simp only
  cases f s.world <;> rfl

theorem message_blind : Blind (message : Act ω IncomingMessage) := by
  rintro ⟨_ | msg, _, _, _, _, _, _⟩ buf <;> rfl

theorem headerLine_blind (line : Bytes) : Blind (headerLine line : Act ω Unit) := by
  unfold headerLine
  cases line.findIdx? fun c => c == 0x3a with
  | none => exact fun s buf => rfl
  | some colon =>
      refine Blind.bind (fun s buf => rfl) fun _ => ?_
      exact Blind.bind message_blind fun msg s buf => rfl

theorem headerContinuation_blind (line : Bytes) :
    Blind (headerContinuation find line : Act ω Unit) := by
  refine Blind.get_bind (fun s buf => rfl) fun s => ?_
  by_cases hlast : s.last_header_ = []
  · simp only [if_pos hlast]
    exact fun s buf => rfl
  · simp only [if_neg hlast]
    refine Blind.bind message_blind fun msg => ?_
    cases find.find msg.message.headers_ s.last_header_ <;> exact fun s buf => rfl

theorem markHeadersComplete_blind : Blind (markHeadersComplete find virtual) := by
  refine Blind.bind (fun s buf => rfl) fun _ => Blind.bind message_blind fun msg => ?_
  cases getContentLength find msg.message.headers_ with
  | error e => exact fun s buf => rfl
  | ok length => exact Blind.bind (fun s buf => rfl) fun _ => outside_blind _

theorem handleMessage_blind : Blind (handleMessage find virtual) := by
  refine Blind.get_bind (fun s buf => rfl) fun s => ?_
  cases s.incoming_message_ with
  | none => exact fun s buf => rfl
  | some msg =>
      refine Blind.bind (fun s buf => rfl) fun _ => Blind.bind (outside_blind _) fun _ => ?_
      refine Blind.get_bind (fun s buf => rfl) fun s => ?_
      by_cases hreplaced : virtual.replaced s.world = true
      · simp only [if_pos hreplaced]
        exact fun s buf => rfl
      · simp only [if_neg hreplaced]
        refine Blind.bind (fun s buf => rfl) fun _ => ?_
        split <;> exact fun s buf => rfl

/-- Both branches of `processInput` end in this. -/
def handleComplete (find : Find) (virtual : Virtual ω) : Act ω Bool := do
  if isMessageComplete (← get) then
    handleMessage find virtual
    return true
  else return false

theorem handleComplete_blind (find : Find) (virtual : Virtual ω) :
    Blind (handleComplete find virtual) := by
  refine Blind.get_bind (fun s buf => rfl) fun s => ?_
  split
  · exact Blind.bind handleMessage_blind fun _ s buf => rfl
  · exact fun s buf => rfl

theorem processLine_blind (find : Find) (virtual : Virtual ω) (line : Bytes) :
    Blind (processLine find virtual line) := by
  refine Blind.get_bind (fun s buf => rfl) fun s => ?_
  split
  · exact fun s buf => rfl
  · split
    · exact Blind.bind markHeadersComplete_blind fun _ => handleComplete_blind find virtual
    · split
      · exact Blind.bind (headerContinuation_blind line) fun _ s buf => rfl
      · exact Blind.bind (headerLine_blind line) fun _ s buf => rfl

/-! ## The state behind a line -/

theorem message_ok {s t : Transport ω} {msg : IncomingMessage} (h : message s = .ok msg t) :
    s.incoming_message_ = some msg ∧ t = s := by
  unfold message at h
  cases hmsg : s.incoming_message_ with
  | none => rw [hmsg] at h; cases h
  | some msg' =>
      rw [hmsg] at h
      cases h
      exact ⟨rfl, rfl⟩

theorem message_of_some {s : Transport ω} {msg : IncomingMessage}
    (h : s.incoming_message_ = some msg) : message s = .ok msg s := by
  unfold message
  rw [h]

theorem outside_ok {f : EStateM Exn ω Unit} {s : Transport ω} {world : ω}
    (h : f s.world = .ok () world) : outside f s = .ok () { s with world := world } := by
  unfold outside
  rw [h]

theorem outside_error {f : EStateM Exn ω Unit} {s : Transport ω} {e : Exn} {world : ω}
    (h : f s.world = .error e world) : outside f s = .error e { s with world := world } := by
  unfold outside
  rw [h]

/-- The message that is there, with other fields. -/
def setFields (s : Transport ω) (msg : IncomingMessage) (last_header_ : Bytes)
    (headers_ : Headers) : Transport ω :=
  { s with
    last_header_ := last_header_
    incoming_message_ := some { msg with message := { msg.message with headers_ := headers_ } } }

/-- What is stored of what a line has behind its colon. -/
def storedValue (rest : Bytes) : Bytes :=
  trimLWS (if rest.head? = some SP then rest else 0x3a :: rest)

/-- The name goes up to the first colon. -/
theorem headerLine_colon {name : Bytes} (hname : 0x3a ∉ name) (rest : Bytes)
    {msg : IncomingMessage} {s : Transport ω} (hmsg : s.incoming_message_ = some msg) :
    headerLine (name ++ 0x3a :: rest) s =
      .ok () (s.setFields msg (asciiLower name)
        (msg.message.headers_.add (asciiLower name) (storedValue rest))) := by
  have hbefore : name.findIdx? (fun c => c == 0x3a) = none := by
    rw [List.findIdx?_eq_none_iff]
    intro c hc
    exact beq_false_of_ne fun heq => hname (heq ▸ hc)
  have hcolon : (name ++ 0x3a :: rest).findIdx? (fun c => c == 0x3a) = some name.length := by
    rw [List.findIdx?_append, hbefore]
    simp [List.findIdx?_cons]
  have hdrop : (name ++ 0x3a :: rest).drop name.length = 0x3a :: rest := List.drop_left
  have hbehind : (name ++ 0x3a :: rest).drop (name.length + 1) = rest := by
    rw [← List.drop_drop, hdrop]
    rfl
  have hspace : (name.length < (name ++ 0x3a :: rest).length - 1 ∧
      (name ++ 0x3a :: rest).getD (name.length + 1) 0 = SP) ↔ rest.head? = some SP := by
    rw [List.getD_append_right _ _ _ _ (by omega), Nat.add_sub_cancel_left]
    cases rest with
    | nil => simp
    | cons c rest => simp
  have hvalue : (name ++ 0x3a :: rest).drop (if name.length < (name ++ 0x3a :: rest).length - 1 ∧
      (name ++ 0x3a :: rest).getD (name.length + 1) 0 = SP then name.length + 1 else name.length) =
        if rest.head? = some SP then rest else 0x3a :: rest := by
    simp only [hspace]
    split
    · exact hbehind
    · exact hdrop
  obtain ⟨_, _, _, _, _, _, _⟩ := s
  cases hmsg
  unfold headerLine
  simp only [hcolon, hvalue, List.take_left]
  rfl

theorem headerLine_ok {line : Bytes} {s t : Transport ω} (h : headerLine line s = .ok () t) :
    ∃ msg last_header_ headers_, s.incoming_message_ = some msg ∧
      t = s.setFields msg last_header_ headers_ := by
  unfold headerLine at h
  cases hcolon : line.findIdx? fun c => c == 0x3a with
  | none => rw [hcolon] at h; cases h
  | some colon =>
      rw [hcolon] at h
      obtain ⟨_, u, hu, h⟩ := act_bind_eq_ok.mp h
      cases hu
      obtain ⟨msg, v, hmsg, h⟩ := act_bind_eq_ok.mp h
      obtain ⟨hincoming, rfl⟩ := message_ok hmsg
      cases h
      exact ⟨msg, _, _, hincoming, rfl⟩

theorem headerContinuation_ok {line : Bytes} {s t : Transport ω}
    (h : headerContinuation find line s = .ok () t) :
    ∃ msg last_header_ headers_, s.incoming_message_ = some msg ∧
      t = s.setFields msg last_header_ headers_ := by
  change (if s.last_header_ = [] then _ else _ : Act ω Unit) s = _ at h
  split at h
  · cases h
  · obtain ⟨msg, u, hmsg, h⟩ := act_bind_eq_ok.mp h
    obtain ⟨hincoming, rfl⟩ := message_ok hmsg
    cases hfind : find.find msg.message.headers_ u.last_header_ with
    | none =>
        rw [hfind] at h
        cases h
    | some i =>
        rw [hfind] at h
        cases h
        exact ⟨msg, _, _, hincoming, rfl⟩

theorem markHeadersComplete_ok {s t : Transport ω}
    (h : markHeadersComplete find virtual s = .ok () t) :
    ∃ msg length world, s.incoming_message_ = some msg ∧
      getContentLength find msg.message.headers_ = .ok length ∧
      virtual.onEndOfMessageHeaders msg.message.headers_ s.world = .ok () world ∧
      t = { s with
        message_headers_complete_ := true, expected_body_length_ := length, world := world } := by
  obtain ⟨_, u, hu, h⟩ := act_bind_eq_ok.mp h
  cases hu
  obtain ⟨msg, v, hmsg, h⟩ := act_bind_eq_ok.mp h
  obtain ⟨hincoming, rfl⟩ := message_ok hmsg
  cases hlength : getContentLength find msg.message.headers_ with
  | error e => rw [hlength] at h; cases h
  | ok length =>
      rw [hlength] at h
      obtain ⟨_, u, hu, h⟩ := act_bind_eq_ok.mp h
      cases hu
      unfold outside at h
      simp only at h
      cases hend : virtual.onEndOfMessageHeaders msg.message.headers_ s.world with
      | error e world => rw [hend] at h; cases h
      | ok _ world =>
          rw [hend] at h
          cases h
          exact ⟨msg, length, world, hincoming, hlength, hend, rfl⟩

theorem markHeadersComplete_eq {s : Transport ω} {msg : IncomingMessage} {length : Int} {world : ω}
    (hmsg : s.incoming_message_ = some msg)
    (hlength : getContentLength find msg.message.headers_ = .ok length)
    (hend : virtual.onEndOfMessageHeaders msg.message.headers_ s.world = .ok () world) :
    markHeadersComplete find virtual s = .ok () { s with
      message_headers_complete_ := true, expected_body_length_ := length, world := world } := by
  have hmessage : message { s with message_headers_complete_ := true } =
      .ok msg { s with message_headers_complete_ := true } := message_of_some hmsg
  unfold markHeadersComplete
  rw [act_modify_bind, act_bind_of_ok hmessage, hlength]
  simp only
  rw [act_modify_bind]
  exact outside_ok hend

/-- Whether the connection is to be closed behind a message. -/
def closes (find : Find) (msg : IncomingMessage) : Bool :=
  (msg.message.headers_.get find (octets "connection")).2 == octets "close"

/-- The transport behind a message: as it was constructed, apart from the buffer and
the world. -/
def behind (find : Find) (virtual : Virtual ω) (s : Transport ω) (msg : IncomingMessage)
    (world : ω) : Transport ω where
  buf := s.buf
  handled := s.handled ++ [msg]
  world := if closes find msg then virtual.close world else world

theorem handleMessage_error {s : Transport ω} {msg : IncomingMessage} {e : Exn} {world : ω}
    (hmsg : s.incoming_message_ = some msg)
    (hhandle : virtual.handleIncomingMessage msg s.world = .error e world) :
    handleMessage find virtual s =
      .error e { s with handled := s.handled ++ [msg], world := world } := by
  have hrecord : record msg s = .ok () { s with handled := s.handled ++ [msg] } := rfl
  have hhandle' : outside (virtual.handleIncomingMessage msg) { s with
      handled := s.handled ++ [msg] } = .error e { s with
        handled := s.handled ++ [msg], world := world } := outside_error hhandle
  unfold handleMessage
  rw [act_get_bind, hmsg]
  simp only
  rw [act_bind_of_ok hrecord, act_bind_of_error hhandle', hmsg]

theorem handleMessage_replaced {s : Transport ω} {msg : IncomingMessage} {world : ω}
    (hmsg : s.incoming_message_ = some msg)
    (hhandle : virtual.handleIncomingMessage msg s.world = .ok () world)
    (hreplaced : virtual.replaced world = true) :
    handleMessage find virtual s =
      .ok () { s with handled := s.handled ++ [msg], world := world } := by
  have hrecord : record msg s = .ok () { s with handled := s.handled ++ [msg] } := rfl
  have hhandle' : outside (virtual.handleIncomingMessage msg) { s with
      handled := s.handled ++ [msg] } = .ok () { s with
        handled := s.handled ++ [msg], world := world } := outside_ok hhandle
  unfold handleMessage
  rw [act_get_bind, hmsg]
  simp only
  rw [act_bind_of_ok hrecord, act_bind_of_ok hhandle', act_get_bind, if_pos hreplaced, ← hmsg]
  rfl

theorem handleMessage_ok {s : Transport ω} {msg : IncomingMessage} {world : ω}
    (hmsg : s.incoming_message_ = some msg)
    (hhandle : virtual.handleIncomingMessage msg s.world = .ok () world)
    (hreplaced : virtual.replaced world = false) :
    handleMessage find virtual s = .ok () (s.behind find virtual msg world) := by
  have hrecord : record msg s = .ok () { s with handled := s.handled ++ [msg] } := rfl
  have hhandle' : outside (virtual.handleIncomingMessage msg) { s with
      handled := s.handled ++ [msg] } = .ok () { s with
        handled := s.handled ++ [msg], world := world } := outside_ok hhandle
  have hstays : ¬ virtual.replaced world = true := by
    rw [hreplaced]
    exact Bool.false_ne_true
  unfold handleMessage
  rw [act_get_bind, hmsg]
  simp only
  rw [act_bind_of_ok hrecord, act_bind_of_ok hhandle', act_get_bind, if_neg hstays]
  unfold behind
  cases hclose : closes find msg with
  | true =>
      unfold closes at hclose
      rw [hclose]
      rfl
  | false =>
      unfold closes at hclose
      rw [hclose]
      rfl

/-! ## Lines -/

section

variable {line : Bytes} {s t : Transport ω} {b : Bool}

theorem processLine_first (h : s.incoming_message_ = none) :
    processLine find virtual line s = .ok true { s with
      message_headers_complete_ := false, incoming_message_ := some { first_line := line } } := by
  obtain ⟨_, _, _, _, _, _, _⟩ := s
  cases h
  rfl

theorem processLine_blank (h : s.incoming_message_ ≠ none) :
    processLine find virtual [] s =
      (do
        markHeadersComplete find virtual
        handleComplete find virtual) s := by
  obtain ⟨_ | msg, _, _, _, _, _, _⟩ := s
  · exact absurd rfl h
  · rfl

theorem processLine_continuation {c : Octet} (hc : isLWS c = true)
    (h : s.incoming_message_ ≠ none) :
    processLine find virtual (c :: line) s =
      (do
        headerContinuation find (c :: line)
        return true) s := by
  obtain ⟨_ | msg, _, _, _, _, _, _⟩ := s
  · exact absurd rfl h
  · simp only [processLine, List.headD_cons, hc]
    rfl

theorem processLine_header {c : Octet} (hc : isLWS c = false) (h : s.incoming_message_ ≠ none) :
    processLine find virtual (c :: line) s =
      (do
        headerLine (c :: line)
        return true) s := by
  obtain ⟨_ | msg, _, _, _, _, _, _⟩ := s
  · exact absurd rfl h
  · simp only [processLine, List.headD_cons, hc]
    rfl

theorem parked_setFields {msg : IncomingMessage} (last_header_ : Bytes) (headers_ : Headers)
    (h : s.incoming_message_ = some msg) :
    parked (s.setFields msg last_header_ headers_) = parked s := by
  obtain ⟨_, _, _, _, _, _, _⟩ := s
  cases h
  rfl

/-- A message that is complete is handled, and then there is no body to be read. -/
theorem handleComplete_parked
    (hincoming : s.incoming_message_ ≠ none) (hcomplete : s.message_headers_complete_ = true)
    (h : handleComplete find virtual s = .ok b t) : parked t = !b := by
  change (if isMessageComplete s then _ else _ : Act ω Bool) s = _ at h
  by_cases hbody : isMessageComplete s = true
  · rw [if_pos hbody] at h
    obtain ⟨_, u, hhandled, h⟩ := act_bind_eq_ok.mp h
    cases h
    cases hmsg : s.incoming_message_ with
    | none => exact absurd hmsg hincoming
    | some msg =>
        cases hhandle : virtual.handleIncomingMessage msg s.world with
        | error e world =>
            rw [handleMessage_error hmsg hhandle] at hhandled
            cases hhandled
        | ok _ world =>
            cases hreplaced : virtual.replaced world with
            | true =>
                rw [handleMessage_replaced hmsg hhandle hreplaced] at hhandled
                cases hhandled
                show (_ && !isMessageComplete s) = false
                rw [hbody, Bool.not_true, Bool.and_false]
            | false =>
                rw [handleMessage_ok hmsg hhandle hreplaced] at hhandled
                cases hhandled
                rfl
  · rw [if_neg hbody] at h
    cases h
    rw [Bool.not_eq_true] at hbody
    rw [parked, hbody, hcomplete, Option.isSome_iff_ne_none.mpr hincoming]
    rfl

/-- `processLine` returns false where a body has to be read. -/
theorem processLine_parked (hs : parked s = false)
    (h : processLine find virtual line s = .ok b t) : parked t = !b := by
  by_cases hincoming : s.incoming_message_ = none
  · rw [processLine_first hincoming] at h
    cases h
    exact Bool.and_eq_false_imp.mpr fun hfalse => absurd hfalse (by simp)
  · cases line with
    | nil =>
        rw [processLine_blank hincoming] at h
        obtain ⟨_, u, hmark, h⟩ := act_bind_eq_ok.mp h
        obtain ⟨msg, length, world, hmsg, -, -, hu⟩ := markHeadersComplete_ok hmark
        have hincoming' : u.incoming_message_ ≠ none := by
          rw [hu]
          exact hincoming
        exact handleComplete_parked hincoming' (by rw [hu]) h
    | cons c line =>
        cases hc : isLWS c with
        | true =>
            rw [processLine_continuation hc hincoming] at h
            obtain ⟨_, u, hfields, h⟩ := act_bind_eq_ok.mp h
            obtain ⟨msg, last_header_, headers_, hmsg, rfl⟩ := headerContinuation_ok hfields
            cases h
            rw [parked_setFields _ _ hmsg, hs]
            rfl
        | false =>
            rw [processLine_header hc hincoming] at h
            obtain ⟨_, u, hfields, h⟩ := act_bind_eq_ok.mp h
            obtain ⟨msg, last_header_, headers_, hmsg, rfl⟩ := headerLine_ok hfields
            cases h
            rw [parked_setFields _ _ hmsg, hs]
            rfl

end

end Shitty.Http1.Transport
