import Shitty.Http1.Logic.Arrivals
import Shitty.Lib.Returns

/-!
# Lines and bodies that raise no error

When `onInput` returns, for each of its turns read off the line, the head read so far
and the body that is there; and when a request does. The loop returns when each turn it
is given does, and the states in front of these turns are a list that can be computed.
-/

namespace Shitty.Http1

open Lib

variable {ω σ : Type}

namespace Transport

/-! ## Turns -/

section

variable (find : Find) (virtual : Virtual ω)

theorem onInput_loop_eq (turns : Nat) : onInput_loop find virtual turns =
    loop (processInput find virtual) (fun s => s.buf ≠ []) turns := by
  induction turns with
  | zero => rfl
  | succ turns ih =>
      rw [onInput_loop, loop, ih]

/-- The states in which `onInput` calls `processInput`. -/
def turns (s : Transport ω) : List (Transport ω) :=
  visited (processInput find virtual) (fun s => s.buf ≠ []) (s.buf.length + 1) s

/-! ## What a turn finds -/

variable (Handles : IncomingMessage → ω → Prop)

/-- A message that is complete is one that can be handled. -/
def Completes (s : Transport ω) : Prop :=
  isMessageComplete s = true → ∀ msg, s.incoming_message_ = some msg → Handles msg s.world

/-- A line behind the first one of a message: its end, with the length of a body; more of
a header there is; or a header. -/
def TakesLine (line : Bytes) (msg : IncomingMessage) (s : Transport ω) : Prop :=
  if line = [] then
    ∃ length, getContentLength find msg.message.headers_ = .ok length ∧
      ∀ world, virtual.onEndOfMessageHeaders msg.message.headers_ s.world = .ok () world →
        Completes Handles { s with
          message_headers_complete_ := true, expected_body_length_ := length, world := world }
  else if isLWS (line.headD 0) then
    s.last_header_ ≠ [] ∧ find.find msg.message.headers_ s.last_header_ ≠ none
  else 0x3a ∈ line

/-- All of a body is there, and it does not come in chunks. -/
def TakesBody (msg : IncomingMessage) (s : Transport ω) : Prop :=
  s.expected_body_length_ ≠ -1 ∧ s.expected_body_length_.toNat ≤ s.buf.length ∧
    Completes Handles { s with
      incoming_message_ := some (IncomingMessage.append msg s.buf), buf := [] }

/-- A turn that raises no error, on a transport that is still there. -/
def TakesTurn (s : Transport ω) : Prop :=
  virtual.replaced s.world = false ∧ ∀ msg, s.incoming_message_ = some msg → s.buf ≠ [] →
    if parked s then TakesBody Handles msg s
    else ∀ line rest, Http1.getLine s.buf = .ok (some line, rest) →
      TakesLine find virtual Handles line msg { s with buf := rest }

end

/-! ## When a turn returns -/

section

variable {find : Find} {virtual : Virtual ω} {Handles : IncomingMessage → ω → Prop}
  {s : Transport ω} {msg : IncomingMessage}

/-- What is done with a message once it has been handled raises no error. -/
theorem handleMessage_returns (hmsg : s.incoming_message_ = some msg) :
    Returns (handleMessage find virtual) s ↔
      Returns (virtual.handleIncomingMessage msg) s.world := by
  cases hhandle : virtual.handleIncomingMessage msg s.world with
  | error e world =>
      refine iff_of_false ?_ ?_
      · rintro ⟨u, t, h⟩
        rw [handleMessage_error hmsg hhandle] at h
        cases h
      · rintro ⟨u, w, h⟩
        rw [hhandle] at h
        cases h
  | ok u world =>
      refine iff_of_true ?_ ⟨u, world, hhandle⟩
      cases hreplaced : virtual.replaced world with
      | true => exact ⟨_, _, handleMessage_replaced hmsg hhandle hreplaced⟩
      | false => exact ⟨_, _, handleMessage_ok hmsg hhandle hreplaced⟩

variable (hhandles : ∀ msg w, Returns (virtual.handleIncomingMessage msg) w ↔ Handles msg w)

include hhandles in
theorem handleComplete_returns (hmsg : s.incoming_message_ = some msg) :
    Returns (handleComplete find virtual) s ↔ Completes Handles s := by
  unfold Completes
  cases hcomplete : isMessageComplete s with
  | false => exact iff_of_true ⟨_, _, handleComplete_false hcomplete⟩ nofun
  | true =>
      rw [forall_prop_of_true rfl, hmsg]
      simp only [Option.some.injEq, forall_eq']
      rw [← hhandles msg s.world, ← handleMessage_returns hmsg]
      constructor
      · rintro ⟨b, t, h⟩
        cases hhandled : handleMessage find virtual s with
        | ok u t => exact ⟨u, t, hhandled⟩
        | error e t =>
            rw [handleComplete_error hcomplete hhandled] at h
            cases h
      · rintro ⟨u, t, h⟩
        exact ⟨_, _, handleComplete_true hcomplete h⟩

theorem headerLine_returns (line : Bytes) (hmsg : s.incoming_message_ = some msg) :
    Returns (headerLine line) s ↔ 0x3a ∈ line := by
  unfold headerLine
  cases hcolon : line.findIdx? fun c => c == 0x3a with
  | none =>
      refine iff_of_false (Returns.not_throw _ _) fun hmem => ?_
      have hno := List.findIdx?_eq_none_iff.mp hcolon _ hmem
      simp at hno
  | some colon =>
      refine iff_of_true ?_ ?_
      · have hmessage : ∀ name, message { s with last_header_ := name } =
            .ok msg { s with last_header_ := name } := fun name => message_of_some hmsg
        refine Returns.modify_bind.mpr ?_
        exact (Returns.bind_of_ok (hmessage _)).mpr ⟨_, _, rfl⟩
      · obtain ⟨hlt, heq, -⟩ := List.findIdx?_eq_some_iff_getElem.mp hcolon
        exact beq_iff_eq.mp heq ▸ List.getElem_mem hlt

theorem headerContinuation_returns (line : Bytes) (hmsg : s.incoming_message_ = some msg) :
    Returns (headerContinuation find line) s ↔
      s.last_header_ ≠ [] ∧ find.find msg.message.headers_ s.last_header_ ≠ none := by
  unfold headerContinuation
  refine Returns.get_bind.trans (Returns.throw_else_iff.trans (and_congr_right fun _ => ?_))
  refine (Returns.bind_of_ok (message_of_some hmsg)).trans ?_
  cases find.find msg.message.headers_ s.last_header_ with
  | none => exact iff_of_false (Returns.not_throw _ _) fun h => h rfl
  | some i => exact iff_of_true ⟨_, _, rfl⟩ (Option.some_ne_none i)

variable (hends : ∀ headers, Always (virtual.onEndOfMessageHeaders headers))

theorem markHeadersComplete_error {e : Exn} (hmsg : s.incoming_message_ = some msg)
    (hlength : getContentLength find msg.message.headers_ = .error e) :
    ¬ Returns (markHeadersComplete find virtual) s := by
  have hmessage : message { s with message_headers_complete_ := true } =
      .ok msg { s with message_headers_complete_ := true } := message_of_some hmsg
  unfold markHeadersComplete
  rw [Returns.modify_bind, Returns.bind_of_ok hmessage, hlength]
  exact Returns.not_throw e _

section

include hhandles

theorem processBody_returns (hmsg : s.incoming_message_ = some msg) :
    Returns (processBody find virtual) s ↔ TakesBody Handles msg s := by
  unfold TakesBody
  by_cases hchunks : s.expected_body_length_ = -1
  · refine iff_of_false ?_ fun h => h.1 hchunks
    rintro ⟨b, t, h⟩
    unfold processBody readBody at h
    rw [bind_assoc, act_get_bind, if_pos hchunks] at h
    cases h
  rw [and_iff_right hchunks]
  by_cases hlen : s.expected_body_length_.toNat ≤ s.buf.length
  · rw [and_iff_right hlen]
    unfold Returns
    rw [processBody_all hmsg hchunks hlen]
    exact handleComplete_returns hhandles rfl
  · refine iff_of_false ?_ fun h => hlen h.1
    rintro ⟨b, t, h⟩
    rw [processBody_short hmsg hchunks (Nat.lt_of_not_le hlen)] at h
    cases h

end

include hhandles hends

theorem processLine_returns (line : Bytes) (hmsg : s.incoming_message_ = some msg) :
    Returns (processLine find virtual line) s ↔ TakesLine find virtual Handles line msg s := by
  have hsome : s.incoming_message_ ≠ none := by
    rw [hmsg]
    exact Option.some_ne_none msg
  unfold TakesLine
  cases line with
  | nil =>
      rw [if_pos rfl]
      cases hlength : getContentLength find msg.message.headers_ with
      | error e =>
          refine iff_of_false ?_ fun ⟨length, h, _⟩ => by cases h
          unfold Returns
          rw [processLine_blank hsome]
          exact fun h => markHeadersComplete_error hmsg hlength
            (let ⟨u, t, hmark, _⟩ := Returns.bind_iff.mp h; ⟨u, t, hmark⟩)
      | ok length =>
          -- the head is complete
          obtain ⟨u, world, hend⟩ := hends msg.message.headers_ s.world
          unfold Returns
          rw [processLine_empty hmsg hlength hend]
          have hmarked : Transport.incoming_message_ { s with
              message_headers_complete_ := true, expected_body_length_ := length,
              world := world } = some msg := hmsg
          have hcomplete : Returns (handleComplete find virtual) _ ↔ _ :=
            handleComplete_returns hhandles hmarked
          refine hcomplete.trans ?_
          constructor
          · intro h
            refine ⟨length, rfl, fun world' hend' => ?_⟩
            rw [hend] at hend'
            cases hend'
            exact h
          · rintro ⟨length', hlength', h⟩
            cases hlength'
            exact h world hend
  | cons c line =>
      rw [if_neg (List.cons_ne_nil c line), List.headD_cons]
      cases hc : isLWS c with
      | true =>
          rw [if_pos rfl, ← headerContinuation_returns (c :: line) hmsg]
          unfold Returns
          rw [processLine_continuation hc hsome]
          exact Returns.bind_always fun _ t _ => ⟨true, t, rfl⟩
      | false =>
          rw [if_neg Bool.false_ne_true, ← headerLine_returns (c :: line) hmsg]
          unfold Returns
          rw [processLine_header hc hsome]
          exact Returns.bind_always fun _ t _ => ⟨true, t, rfl⟩

/-- A first line raises no error. -/
theorem processLine_returns_iff (line : Bytes) (s : Transport ω) :
    Returns (processLine find virtual line) s ↔
      ∀ msg, s.incoming_message_ = some msg → TakesLine find virtual Handles line msg s := by
  constructor
  · exact fun h msg hmsg => (processLine_returns hhandles hends line hmsg).mp h
  · intro h
    cases hmsg : s.incoming_message_ with
    | none => exact ⟨_, _, processLine_first hmsg⟩
    | some msg => exact (processLine_returns hhandles hends line hmsg).mpr (h msg hmsg)

/-- When a turn of the loop returns, by what is in front of it. -/
theorem processInput_returns_iff (s : Transport ω) :
    Returns (processInput find virtual) s ↔ TakesTurn find virtual Handles s := by
  unfold TakesTurn
  cases hreplaced : virtual.replaced s.world with
  | true =>
      refine iff_of_false ?_ fun h => by cases h.1
      rintro ⟨b, t, h⟩
      rw [processInput_replaced hreplaced] at h
      cases h
  | false =>
      rw [and_iff_right rfl]
      by_cases hbuf : s.buf = []
      · exact iff_of_true ⟨_, _, processInput_empty hreplaced hbuf⟩ fun _ _ h => absurd hbuf h
      cases hparked : parked s with
      | true =>
          -- a body
          obtain ⟨msg, hmsg, -⟩ := parked_iff.mp hparked
          rw [hmsg]
          simp only [Option.some.injEq, forall_eq', if_true]
          rw [forall_prop_of_true hbuf, ← processBody_returns hhandles hmsg]
          unfold Returns
          rw [processInput_body hreplaced hbuf hparked]
      | false =>
          simp only [Bool.false_eq_true, if_false]
          by_cases hline : LF ∈ s.buf
          · -- a line
            obtain ⟨front, rest, hsplit, hfront⟩ := List.eq_append_cons_of_mem hline
            have hget : Http1.getLine s.buf = .ok (some (removeTrailingChar front CR), rest) := by
              rw [hsplit, getLine_some rest hfront]
            have hstep := processInput_line find hreplaced hparked hsplit hfront
            unfold Returns
            rw [hstep]
            refine (processLine_returns_iff hhandles hends _ _).trans ?_
            refine forall_congr' fun msg => forall_congr' fun _ => ?_
            rw [forall_prop_of_true hbuf]
            constructor
            · intro h line rest' h'
              rw [hget] at h'
              cases h'
              exact h
            · exact fun h => h _ _ hget
          · refine iff_of_true
              ⟨_, _, processInput_incomplete hreplaced hbuf hparked hline⟩ ?_
            intro msg _ _ line rest h
            rw [getLine_none hline] at h
            cases h

theorem onInput_returns_iff (s : Transport ω) :
    Returns (onInput find virtual) s ↔
      ∀ t ∈ turns find virtual s, TakesTurn find virtual Handles t := by
  have hloop : onInput find virtual s =
      loop (processInput find virtual) (fun s => s.buf ≠ []) (s.buf.length + 1) s :=
    congrFun (onInput_loop_eq find virtual (s.buf.length + 1)) s
  unfold Returns
  rw [hloop]
  exact loop_returns_iff (processInput_returns_iff hhandles hends) _ s

end

end Transport

/-! ## Requests -/

namespace ServerTransport

/-- A request for which the settings of an upgrade can be decoded, or the handler does not
throw: neither of its own accord nor because there is no status line for what it responds. -/
def Answers (find : Find) (server : Server σ) (request : Request) (app : σ) : Prop :=
  let upgradeHeader := request.message_.headers_.get find (octets "upgrade")
  if upgradeHeader ≠ no_header ∧ registered upgradeHeader.2 then
    ∃ h2Transport stream, server.upgrade request = .ok h2Transport ∧
      h2Transport.streams_.lookup 1 = some stream
  else ∃ responses app', server.dispatch request app = .ok (responses, app') ∧
    ∀ response ∈ responses, Sendable response

/-- A message that is a request that is answered. -/
def AnswersMessage (find : Find) (server : Server σ) (msg : IncomingMessage) (w : World σ) : Prop :=
  ∃ request_line, parseRequestLine msg.first_line = .ok request_line ∧
    Answers find server
      { method_ := request_line.method, path_ := request_line.path, message_ := msg.message } w.app

section

variable {find : Find} {server : Server σ}

theorem dispatch_returns (request : Request) (w : World σ) :
    Returns (dispatch server request) w ↔
      ∃ responses app', server.dispatch request w.app = .ok (responses, app') ∧
        ∀ response ∈ responses, Sendable response := by
  rcases dispatch_cases server request w with
    ⟨responses, app', hdispatch, hsendable, hok⟩ | ⟨e, front, herror, hnone⟩
  · exact iff_of_true ⟨_, _, hok⟩ ⟨responses, app', hdispatch, hsendable⟩
  · refine iff_of_false (fun ⟨_, _, h⟩ => ?_) fun ⟨responses, app', hdispatch, hsendable⟩ => ?_
    · rw [herror] at h
      cases h
    · obtain ⟨response, hmem, hnot⟩ := hnone responses app' hdispatch
      exact hnot (hsendable response hmem)

/-- The upgrade returns exactly when the new transport has a stream 1, on which the request is
answered. -/
theorem upgrade_returns (h2Transport : Http2.Impl) (request : Request) (w : World σ) :
    Returns (upgrade h2Transport request) w ↔
      ∃ stream, h2Transport.streams_.lookup 1 = some stream := by
  have hfind : Http2.ServerTransport.find 1 h2Transport =
      .ok (h2Transport.streams_.lookup 1) h2Transport := rfl
  unfold Returns upgrade Http2.ServerTransport.getStream
  cases hlookup : h2Transport.streams_.lookup 1 with
  | none =>
      rw [hlookup] at hfind
      simp only [bind_assoc, act_bind_of_ok hfind]
      exact iff_of_false (fun ⟨_, _, h⟩ => by cases h) fun ⟨_, h⟩ => by cases h
  | some stream =>
      rw [hlookup] at hfind
      simp only [bind_assoc, act_bind_of_ok hfind]
      exact iff_of_true ⟨_, _, rfl⟩ ⟨stream, rfl⟩

theorem onRequest_returns (request : Request) (w : World σ) :
    Returns (onRequest find server request) w ↔ Answers find server request w.app := by
  unfold Answers
  dsimp only
  by_cases hupgrade : request.message_.headers_.get find (octets "upgrade") = no_header
  · rw [if_neg fun h => h.1 hupgrade, ← dispatch_returns]
    unfold Returns
    rw [onRequest_none hupgrade]
  by_cases htoken :
      registered (request.message_.headers_.get find (octets "upgrade")).2 = true
  · rw [if_pos ⟨hupgrade, htoken⟩]
    -- the switch is confirmed before the settings are decoded
    obtain ⟨_, -, hconfirm⟩ := confirmUpgrade_writes
      (request.message_.headers_.get find (octets "upgrade")).2 w
    generalize w.write _ = w' at hconfirm
    have htry : Returns (tryUpgrade find server request) w ↔
        ∃ h2Transport stream, server.upgrade request = .ok h2Transport ∧
          h2Transport.streams_.lookup 1 = some stream := by
      unfold tryUpgrade
      dsimp only
      rw [if_neg hupgrade, if_neg (not_not.mpr htoken), Returns.bind_of_ok hconfirm]
      cases server.upgrade request with
      | error e => exact iff_of_false (Returns.not_throw e w') fun ⟨_, _, h, _⟩ => by cases h
      | ok h2Transport =>
          refine (Returns.bind_always fun _ t _ => ⟨true, t, rfl⟩).trans
            ((upgrade_returns _ _ w').trans ?_)
          simp
    rw [← htry]
    -- a request that has been taken over is not dispatched
    have htaken : ∀ b t, tryUpgrade find server request w = .ok b t → b = true := by
      intro b t h
      unfold tryUpgrade at h
      dsimp only at h
      rw [if_neg hupgrade, if_neg (not_not.mpr htoken), act_bind_of_ok hconfirm] at h
      cases hupgraded : server.upgrade request with
      | error e =>
          rw [hupgraded] at h
          cases h
      | ok h2Transport =>
          rw [hupgraded] at h
          obtain ⟨_, _, -, hpure⟩ := act_bind_eq_ok.mp h
          cases hpure
          rfl
    refine Returns.bind_always fun b t h => ?_
    rw [htaken b t h, if_pos rfl]
    exact Returns.of_pure _ t
  · rw [if_neg fun h => htoken h.2, ← dispatch_returns]
    have htry : tryUpgrade find server request w = .ok false w := by
      unfold tryUpgrade
      dsimp only
      rw [if_neg hupgrade, if_pos htoken]
      rfl
    unfold onRequest
    rw [Returns.bind_of_ok htry, if_neg Bool.false_ne_true]

theorem handleIncomingMessage_returns (msg : IncomingMessage) (w : World σ) :
    Returns (handleIncomingMessage find server msg) w ↔ AnswersMessage find server msg w := by
  unfold handleIncomingMessage AnswersMessage
  cases parseRequestLine msg.first_line with
  | error e => exact iff_of_false (Returns.not_throw _ _) fun ⟨_, h, _⟩ => by cases h
  | ok request_line => simpa using onRequest_returns _ w

end

end ServerTransport

end Shitty.Http1
