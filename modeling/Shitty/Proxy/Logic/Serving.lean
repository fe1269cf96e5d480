import Shitty.Proxy.System

/-!
# What comes of a message of a client

One lemma says all that the virtual functions of a server transport do with a message,
whatever the server does with requests. A message comes to an upgrade or to a dispatch,
or to an exception. For each of these it is known what has been written and which
responses are final.
-/

namespace Shitty.Proxy

open Http1 Http1.Transport Http1.ServerTransport

variable {σ : Type}

/-- The message asks for a protocol in the registry. -/
def Asks (find : Find) (msg : IncomingMessage) : Prop :=
  msg.message.headers_.get find (octets "upgrade") ≠ no_header ∧
    registered (msg.message.headers_.get find (octets "upgrade")).2 = true

/-- The message is that of a request. -/
def IsRequest (msg : IncomingMessage) (request : Request) : Prop :=
  ∃ request_line, parseRequestLine msg.first_line = .ok request_line ∧
    request =
      { method_ := request_line.method, path_ := request_line.path, message_ := msg.message }

/-- The message asks for an upgrade, and the new transport can be made. -/
def Upgrades (find : Find) (upgrade : Request → Except Exn Http2.Impl) (msg : IncomingMessage) :
    Prop :=
  Asks find msg ∧ ∃ request h2Transport, IsRequest msg request ∧ upgrade request = .ok h2Transport

/-- The message has an expectation other than `100-continue`. -/
def Refused (find : Find) (msg : IncomingMessage) : Prop :=
  msg.message.headers_.get find (octets "expect") ≠ no_header ∧
    (msg.message.headers_.get find (octets "expect")).2 ≠ octets "100-continue"

instance (find : Find) (msg : IncomingMessage) : Decidable (Asks find msg) :=
  inferInstanceAs (Decidable (_ ∧ _))

instance (find : Find) (msg : IncomingMessage) : Decidable (Refused find msg) :=
  inferInstanceAs (Decidable (_ ∧ _))

/-- What has been written is written still, and nothing is written to a connection that
is closed. -/
structure Writes (w w' : World σ) : Prop where
  isOpen : w'.isOpen = true → w.isOpen = true
  sent : ∃ more, w'.sent = w.sent ++ more ∧ (w.isOpen = false → more = [])

/-- Nothing final among what is written. -/
def Interim (w w' : World σ) : Prop := w'.sent.filter isFinal = w.sent.filter isFinal

theorem write_writes (w : World σ) (responses : List Response) : Writes w (w.write responses) := by
  refine ⟨fun h => (w.write_isOpen responses).symm.trans h, ?_⟩
  unfold World.write
  by_cases hopen : w.isOpen = true
  · rw [if_pos hopen]
    exact ⟨responses, rfl, fun hclosed => by rw [hopen] at hclosed; cases hclosed⟩
  · rw [if_neg hopen]
    exact ⟨[], (List.append_nil _).symm, fun _ => rfl⟩

theorem write_interim (w : World σ) {responses : List Response}
    (h : ∀ response ∈ responses, isFinal response = false) : Interim w (w.write responses) := by
  have hnone : responses.filter isFinal = [] := by
    rw [List.filter_eq_nil_iff]
    intro response hmem
    rw [h response hmem]
    exact Bool.false_ne_true
  unfold Interim World.write
  by_cases hopen : w.isOpen = true
  · simp only [if_pos hopen, List.filter_append, hnone, List.append_nil]
  · rw [if_neg hopen]

theorem Writes.trans {w w₁ w₂ : World σ} (h : Writes w w₁) (h' : Writes w₁ w₂) : Writes w w₂ := by
  refine ⟨fun hopen => h.isOpen (h'.isOpen hopen), ?_⟩
  obtain ⟨more, hmore, hnone⟩ := h.sent
  obtain ⟨more', hmore', hnone'⟩ := h'.sent
  refine ⟨more ++ more', by rw [hmore', hmore, List.append_assoc], fun hclosed => ?_⟩
  have hclosed' : w₁.isOpen = false := by
    rw [← Bool.not_eq_true] at hclosed ⊢
    exact fun hopen => hclosed (h.isOpen hopen)
  rw [hnone hclosed, hnone' hclosed', List.append_nil]

/-- The part before the body: an Expect field may be answered. -/
theorem onEndOfMessageHeaders_writes (find : Find) (msg : IncomingMessage) (w : World σ) :
    ∃ responses, onEndOfMessageHeaders find msg.message.headers_ w = .ok () (w.write responses) ∧
      (¬ Refused find msg → ∀ response ∈ responses, isFinal response = false) := by
  unfold onEndOfMessageHeaders
  by_cases hnone : msg.message.headers_.get find (octets "expect") = no_header
  · refine ⟨[], ?_, by simp⟩
    rw [if_neg (not_not_intro hnone)]
    unfold World.write
    by_cases hopen : w.isOpen = true
    · rw [if_pos hopen, List.append_nil]
      rfl
    · rw [if_neg hopen]
      rfl
  · rw [if_pos hnone]
    unfold handleExpect
    by_cases hvalue : (msg.message.headers_.get find (octets "expect")).2 ≠ octets "100-continue"
    · rw [if_pos hvalue]
      exact ⟨_, sendResponse_ok (by decide +kernel) w, fun hnot => absurd ⟨hnone, hvalue⟩ hnot⟩
    · rw [if_neg hvalue]
      refine ⟨_, sendResponse_ok (by decide) w, fun _ response hmem => ?_⟩
      rw [List.mem_singleton.mp hmem]
      rfl

/-- What `tryUpgrade` does: it returns that the transport stays, or has it replaced. -/
inductive TriesUpgrade (find : Find) (server : Server σ) (request : Request) (w : World σ) :
    Bool → World σ → Prop
  | stays (h : ¬ (request.message_.headers_.get find (octets "upgrade") ≠ no_header ∧
      registered (request.message_.headers_.get find (octets "upgrade")).2 = true)) :
      TriesUpgrade find server request w false w
  | leaves {w' : World σ} {h2Transport : Http2.Impl}
      (hasks : request.message_.headers_.get find (octets "upgrade") ≠ no_header ∧
        registered (request.message_.headers_.get find (octets "upgrade")).2 = true)
      (hupgrade : server.upgrade request = .ok h2Transport) (hreplaced : w'.replacedBy.isSome = true)
      (happ : w'.app = w.app) (hwrites : Writes w w') (hinterim : Interim w w') :
      TriesUpgrade find server request w true w'

/-- "101 Switching Protocols" is not final. -/
theorem confirmUpgrade_ok {token : Bytes} {w w' : World σ} {u : Unit}
    (h : confirmUpgrade token w = .ok u w') :
    ∃ responses, w' = w.write responses ∧ ∀ response ∈ responses, isFinal response = false := by
  obtain ⟨response, hcode, hwrites⟩ := confirmUpgrade_writes token w
  rw [hwrites] at h
  cases h
  refine ⟨_, rfl, fun response' hmem => ?_⟩
  rw [List.mem_singleton.mp hmem, isFinal, hcode]
  rfl

theorem upgrade_ok {newTransport : Http2.Impl} {request : Request} {w w' : World σ}
    (h : upgrade newTransport request w = .ok () w') :
    ∃ h2Transport, w' = { w with replacedBy := some h2Transport } := by
  unfold upgrade at h
  simp only at h
  split at h
  · cases h
    exact ⟨_, rfl⟩
  · cases h

theorem tryUpgrade_cases {find : Find} {server : Server σ} {request : Request} {w w' : World σ}
    {b : Bool} (h : tryUpgrade find server request w = .ok b w') :
    TriesUpgrade find server request w b w' := by
  unfold tryUpgrade at h
  by_cases hnone : request.message_.headers_.get find (octets "upgrade") = no_header
  · simp only [if_pos hnone] at h
    cases h
    exact .stays fun hasks => hasks.1 hnone
  · simp only [if_neg hnone] at h
    by_cases hregistered : registered (request.message_.headers_.get find (octets "upgrade")).2 = true
    · rw [if_neg (not_not_intro hregistered)] at h
      cases hupgrade : server.upgrade request with
      | error e =>
          rw [hupgrade] at h
          cases h
      | ok transport =>
          rw [hupgrade] at h
          obtain ⟨_, w₁, hconfirm, h⟩ := act_bind_eq_ok.mp h
          obtain ⟨responses, rfl, hinterim⟩ := confirmUpgrade_ok hconfirm
          obtain ⟨_, w₂, hupgraded, h⟩ := act_bind_eq_ok.mp h
          obtain ⟨h2Transport, rfl⟩ := upgrade_ok hupgraded
          cases h
          have hwrites := write_writes w responses
          exact .leaves ⟨hnone, hregistered⟩ hupgrade rfl (w.write_app _)
            ⟨hwrites.isOpen, hwrites.sent⟩ (write_interim w hinterim)
    · rw [if_pos hregistered] at h
      cases h
      exact .stays fun hasks => hregistered hasks.2

/-- What a message comes to: an upgrade, by which the transport is replaced, or a request
dispatched. -/
inductive Served (find : Find) (server : Server σ) (msg : IncomingMessage) (w w' : World σ) : Prop
  | upgraded (hupgrades : Upgrades find server.upgrade msg) (hreplaced : w'.replacedBy.isSome = true)
      (happ : w'.app = w.app) (hwrites : Writes w w')
      (hinterim : ¬ Refused find msg → Interim w w')
  | dispatched (request : Request) (responses : List Response) (hrequest : IsRequest msg request)
      (hasks : ¬ Asks find msg) (hdispatch : server.dispatch request w.app = .ok (responses, w'.app))
      (hreplaced : w'.replacedBy = w.replacedBy) (hwrites : Writes w w')
      (hinterim : ¬ Refused find msg → (∀ response ∈ responses, isFinal response = false) →
        Interim w w')

theorem handleIncomingMessage_served {find : Find} {server : Server σ} {msg : IncomingMessage}
    {w w' : World σ} (h : handleIncomingMessage find server msg w = .ok () w') :
    Served find server msg w w' := by
  unfold handleIncomingMessage at h
  cases hline : parseRequestLine msg.first_line with
  | error e =>
      rw [hline] at h
      cases h
  | ok request_line =>
      rw [hline] at h
      have hrequest : IsRequest msg
          { method_ := request_line.method, path_ := request_line.path, message_ := msg.message } :=
        ⟨request_line, hline, rfl⟩
      obtain ⟨b, w₁, htry, h⟩ := act_bind_eq_ok.mp h
      cases tryUpgrade_cases htry with
      | leaves hasks hupgrade hreplaced happ hwrites hinterim =>
          cases h
          exact .upgraded ⟨hasks, _, _, hrequest, hupgrade⟩ hreplaced happ hwrites
            fun _ => hinterim
      | stays hnot =>
          have hdispatch : dispatch server
              { method_ := request_line.method, path_ := request_line.path,
                message_ := msg.message } w = .ok () w' := h
          rcases dispatch_cases server _ w with
            ⟨responses, app, heq, -, hok⟩ | ⟨e, front, herror, -⟩
          · rw [hok] at hdispatch
            cases hdispatch
            have hwrites := write_writes w responses
            exact .dispatched _ responses hrequest hnot heq (w.write_replacedBy responses)
              ⟨hwrites.isOpen, hwrites.sent⟩ fun _ hnone => write_interim w hnone
          · rw [herror] at hdispatch
            cases hdispatch

theorem serve_served {find : Find} {server : Server σ} {msg : IncomingMessage} {w w' : World σ}
    {u : Unit} (h : serve find (virtual find server) msg w = .ok u w') :
    Served find server msg w w' := by
  obtain ⟨responses, hend, hnotfinal⟩ := onEndOfMessageHeaders_writes find msg w
  obtain ⟨_, w₁, hend', h⟩ := act_bind_eq_ok.mp h
  obtain rfl : w.write responses = w₁ := by
    have := hend.symm.trans hend'
    cases this
    rfl
  obtain ⟨_, w₂, hhandle, h⟩ := act_bind_eq_ok.mp h
  have hserved := handleIncomingMessage_served hhandle
  have hfirst := write_writes w responses
  -- closing the connection at the end writes nothing
  have hlast : w'.replacedBy = w₂.replacedBy ∧ w'.app = w₂.app ∧ w'.sent = w₂.sent ∧
      Writes w₂ w' := by
    obtain ⟨_, w₃, hget, h⟩ := act_bind_eq_ok.mp h
    cases hget
    split at h
    · cases h
      exact ⟨rfl, rfl, rfl, fun hopen => hopen, [], (List.append_nil _).symm, fun _ => rfl⟩
    · split at h
      · cases h
        refine ⟨rfl, rfl, rfl, ?_, [], (List.append_nil _).symm, fun _ => rfl⟩
        intro hopen
        cases hopen
      · cases h
        exact ⟨rfl, rfl, rfl, fun hopen => hopen, [], (List.append_nil _).symm, fun _ => rfl⟩
  obtain ⟨hreplaced', happ', hsent', hwrites'⟩ := hlast
  have hinterims : ¬ Refused find msg → Interim (w.write responses) w₂ → Interim w w' := by
    intro hrefused hinterim
    rw [Interim, hsent', hinterim]
    exact write_interim w (hnotfinal hrefused)
  cases hserved with
  | upgraded hupgrades hreplaced happ hwrites hinterim =>
      refine .upgraded hupgrades (hreplaced' ▸ hreplaced) ?_ (hfirst.trans (hwrites.trans hwrites'))
        fun hrefused => hinterims hrefused (hinterim hrefused)
      rw [happ', happ, w.write_app]
  | dispatched request responses' hrequest hasks hdispatch hreplaced hwrites hinterim =>
      refine .dispatched request responses' hrequest hasks ?_ ?_ (hfirst.trans (hwrites.trans hwrites'))
        fun hrefused hnone => hinterims hrefused (hinterim hrefused hnone)
      · rw [happ', ← w.write_app responses]
        exact hdispatch
      · rw [hreplaced', hreplaced, w.write_replacedBy]

/-! ## Messages that are served -/

/-- A message is served when its request is. -/
theorem serve_ok {find : Find} {server : Server σ} {msg : IncomingMessage} {w : World σ} {app : σ}
    (h : ∀ responses, ∃ w', handleIncomingMessage find server msg (w.write responses) = .ok () w' ∧
      w'.app = app) :
    ∃ w', serve find (virtual find server) msg w = .ok () w' ∧ w'.app = app := by
  obtain ⟨responses, hend, -⟩ := onEndOfMessageHeaders_writes find msg w
  obtain ⟨w₂, hhandle, happ⟩ := h responses
  have hserve : serve find (virtual find server) msg w =
      (if w₂.replacedBy.isSome then .ok () w₂
        else if closes find msg then .ok () { w₂ with isOpen := false } else .ok () w₂) := by
    have hend' : (virtual find server).onEndOfMessageHeaders msg.message.headers_ w =
        .ok () (w.write responses) := hend
    have hhandle' : (virtual find server).handleIncomingMessage msg (w.write responses) =
        .ok () w₂ := hhandle
    unfold serve
    simp only [bind, EStateM.bind, hend', hhandle']
    show (if w₂.replacedBy.isSome = true then _ else _ : EStateM Exn (World σ) Unit) w₂ = _
    split
    · rfl
    · split <;> rfl
  rw [hserve]
  split
  · exact ⟨w₂, rfl, happ⟩
  · split
    · exact ⟨_, rfl, happ⟩
    · exact ⟨w₂, rfl, happ⟩

/-- A request that asks for nothing in the registry is dispatched. -/
theorem serve_dispatches {find : Find} {server : Server σ} {msg : IncomingMessage} {w : World σ}
    {request : Request} {responses : List Response} {app : σ} (hrequest : IsRequest msg request)
    (hasks : ¬ Asks find msg) (hdispatch : server.dispatch request w.app = .ok (responses, app))
    (hsendable : ∀ response ∈ responses, Sendable response) :
    ∃ w', serve find (virtual find server) msg w = .ok () w' ∧ w'.app = app := by
  refine serve_ok fun written => ?_
  obtain ⟨request_line, hline, rfl⟩ := hrequest
  have hnot : tryUpgrade find server
      { method_ := request_line.method, path_ := request_line.path, message_ := msg.message }
      (w.write written) = .ok false (w.write written) := by
    unfold tryUpgrade
    by_cases hnone : msg.message.headers_.get find (octets "upgrade") = no_header
    · simp only [if_pos hnone]
      rfl
    · simp only [if_neg hnone]
      rw [if_pos fun hregistered => hasks ⟨hnone, hregistered⟩]
      rfl
  have hgiven : dispatch server
      { method_ := request_line.method, path_ := request_line.path, message_ := msg.message }
      (w.write written) = .ok () { (w.write written).write responses with app := app } :=
    dispatch_ok (by rw [w.write_app]; exact hdispatch) hsendable
  refine ⟨{ (w.write written).write responses with app := app }, ?_, rfl⟩
  unfold handleIncomingMessage
  rw [hline]
  simp only [onRequest, bind, EStateM.bind, hnot]
  exact hgiven

/-- A request that asks for a protocol the new transport can be made for is taken over
by it. -/
theorem serve_upgrades {find : Find} {server : Server σ} {msg : IncomingMessage} {w : World σ}
    {fb64 : Http2.Fb64} (hserver : server.upgrade = HTTP2Upgrader.upgrade fb64 find)
    (h : Upgrades find server.upgrade msg) :
    ∃ w', serve find (virtual find server) msg w = .ok () w' := by
  have happ : ∃ w', serve find (virtual find server) msg w = .ok () w' ∧ w'.app = w.app := by
    refine serve_ok fun written => ?_
    obtain ⟨⟨hnone, hregistered⟩, _, h2Transport, ⟨request_line, hline, rfl⟩, hupgrade⟩ := h
    have hconstruct := hupgrade
    rw [hserver] at hconstruct
    obtain ⟨peerSettings_, -, hnew⟩ := bind_eq_ok.mp hconstruct
    cases hnew
    unfold handleIncomingMessage
    rw [hline]
    simp only [onRequest, bind, EStateM.bind, tryUpgrade, if_neg hnone, hregistered, hupgrade]
    exact ⟨_, rfl, (w.write written).write_app _ |>.trans (w.write_app written)⟩
  obtain ⟨w', hserve, -⟩ := happ
  exact ⟨w', hserve⟩

end Shitty.Proxy
