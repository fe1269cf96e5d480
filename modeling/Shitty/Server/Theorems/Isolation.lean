import Shitty.Http1.Logic.Exceptions
import Shitty.Http2.Logic.Exceptions
import Shitty.Server.Logic.Isolation
import Shitty.Server.Theorems.LifeCycle
import Shitty.Server.Transports

/-!
# One client and the others

What is read from one client leaves all other connections open and registered exactly when
the transports take all of it: nothing catches an exception between them and the loop, so
that the first line, body, frame or message which is not taken ends the server.
-/

namespace Shitty.Server

open Lib

/-! ## What the transports take -/

namespace Client

open Http1.ServerTransport (World virtual AnswersMessage)

section

variable {σ : Type} (find : Find) (server : Http1.Server σ)

/-- Every turn of the transport takes the line or the body it finds, and every message that
is complete is answered. -/
def Takes1 (t : Http1.Transport (World σ)) : Prop :=
  ∀ u ∈ Http1.Transport.turns find (virtual find server) t,
    Http1.Transport.TakesTurn find (virtual find server) (AnswersMessage find server) u

/-- The preface is what it should be, and every turn of the transport takes the frame it
finds. -/
def Takes2 (t : Http2.Impl) : Prop :=
  Http2.ServerTransport.PrefaceFits t ∧
    ∀ u ∈ Http2.ServerTransport.inputTurns t, Http2.ServerTransport.TakesFrame u

/-- The transport there is, or the one that is put in its place, takes what is read. -/
def TakesInput (c : Client σ) (more : Bytes) (app : σ) : Prop :=
  match c.transport_ with
  | .switch incoming_ =>
      match SwitchTransport.protocol (incoming_ ++ more) with
      | none => True
      | some .http1 => Takes1 find server ((Http1.ServerTransport.new app).feed (incoming_ ++ more))
      | some .http2 => Takes2 ((Http2.Impl.new {}).feed (incoming_ ++ more))
  | .http1 t => Takes1 find server (withApp (t.feed more) app)
  | .http2 t => Takes2 (t.feed more)

end

section

variable {σ : Type} {find : Find} {server : Http1.Server σ}

theorem onInput1_thrown (c : Client σ) (t : Http1.Transport (World σ)) :
    (onInput1 find server c t).2.2 = none ↔ Takes1 find server t := by
  have hends : ∀ headers, Always ((virtual find server).onEndOfMessageHeaders headers) := by
    intro headers w
    obtain ⟨w', hw', -⟩ := Http1.head_returns find headers w
    exact ⟨(), w', hw'⟩
  have hhandles : ∀ msg w, Returns ((virtual find server).handleIncomingMessage msg) w ↔
      AnswersMessage find server msg w := Http1.ServerTransport.handleIncomingMessage_returns
  have hreturns : Returns (Http1.Transport.onInput find (virtual find server)) t ↔ _ :=
    Http1.Transport.onInput_returns_iff hhandles hends t
  unfold Takes1
  rw [← hreturns]
  unfold onInput1 Returns
  cases Http1.Transport.onInput find (virtual find server) t with
  | error e t => simp
  | ok _ t =>
      simp only
      cases t.world.replacedBy <;> simp

theorem onInput2_thrown (c : Client σ) (t : Http2.Impl) (app : σ) :
    (onInput2 c t app).2.2 = none ↔ Takes2 t := by
  unfold Takes2
  rw [← Http2.ServerTransport.onInput_returns_iff]
  unfold onInput2 Returns
  cases Http2.ServerTransport.onInput t <;> simp

/-- No exception leaves `onInput` when what is read is taken. -/
theorem onInput_thrown (c : Client σ) (more : Bytes) (app : σ) :
    (onInput find server c more app).2.2 = none ↔ TakesInput find server c more app := by
  unfold onInput TakesInput
  cases c.transport_ with
  | switch incoming_ =>
      simp only
      unfold onInputSwitch
      rcases SwitchTransport.protocol (incoming_ ++ more) with _ | _ | _
      · simp
      · exact onInput1_thrown _ _
      · exact onInput2_thrown _ _ app
  | http1 t => exact onInput1_thrown c _
  | http2 t => exact onInput2_thrown c _ app

variable (render : Rendering) (instants : Nat → Http1.Moment) (a : Addr)

/-- Each response that is sent has a status line, so that all of them are written. -/
theorem commands1_ok (t : Http1.Transport (World σ)) :
    ∃ commands, commands1 find server render instants a t = .ok commands := by
  obtain ⟨more, hmore, hsendable⟩ := (Http1.ServerTransport.onInput_behind find server t).sent
  obtain ⟨texts, htexts⟩ := render.texts_ok instants hsendable t.world.sent.length
  unfold commands1
  simp only
  rw [← hmore, List.drop_left, htexts]
  exact ⟨_, rfl⟩

/-- Whatever is read, there are commands for it. -/
theorem commands_ok (c : Client σ) (more : Bytes) (app : σ) :
    ∃ commands, c.commands find server render instants a more app = .ok commands := by
  unfold commands
  cases c.transport_ with
  | switch incoming_ =>
      simp only
      rcases SwitchTransport.protocol (incoming_ ++ more) with _ | _ | _
      · exact ⟨_, rfl⟩
      · exact commands1_ok render instants a _
      · exact ⟨_, rfl⟩
  | http1 t => exact commands1_ok render instants a _
  | http2 t => exact ⟨_, rfl⟩

theorem sends_own (payloads : List Bytes) :
    ∀ command ∈ payloads.map (Command.send a), command.IsFor a := by
  intro command hmem
  obtain ⟨payload, -, rfl⟩ := List.mem_map.mp hmem
  rfl

theorem commands1_own {t : Http1.Transport (World σ)} {commands : List Command}
    (h : commands1 find server render instants a t = .ok commands) :
    ∀ command ∈ commands, command.IsFor a := by
  obtain ⟨texts, -, hcommands⟩ := bind_eq_ok.mp h
  cases hcommands
  intro command hmem
  rcases List.mem_append.mp hmem with hmem | hmem
  · rcases List.mem_append.mp hmem with hmem | hmem
    · exact sends_own a _ command hmem
    · split at hmem
      · cases hmem
      · rw [List.mem_singleton.mp hmem]
        rfl
  · exact sends_own a _ command hmem

theorem commands_own {c : Client σ} {more : Bytes} {app : σ} {commands : List Command}
    (h : c.commands find server render instants a more app = .ok commands) :
    ∀ command ∈ commands, command.IsFor a := by
  unfold Client.commands at h
  cases hc : c.transport_ with
  | switch incoming_ =>
      simp only [hc] at h
      rcases hprotocol : SwitchTransport.protocol (incoming_ ++ more) with _ | _ | _
      · rw [hprotocol] at h
        cases h
        exact nofun
      · rw [hprotocol] at h
        exact commands1_own render instants a h
      · rw [hprotocol] at h
        cases h
        exact sends_own a _
  | http1 t =>
      rw [hc] at h
      exact commands1_own render instants a h
  | http2 t =>
      rw [hc] at h
      cases h
      exact sends_own a _

end

end Client

/-- The client takes what is read. -/
def Backend.Takes {σ : Type} (find : Find) (server : Http1.Server σ) (a : Addr) (piece : Bytes)
    (backend : Backend σ) : Prop :=
  (backend.clients a).TakesInput find server piece backend.app

theorem transports_serves {σ : Type} (find : Find) (server : Http1.Server σ)
    (render : Rendering) (clock : Addr → Nat → Http1.Moment) :
    (transports find server render clock).Serves (Backend.Takes find server) := by
  constructor
  · intro a piece next backend result hinput
    unfold transports at hinput
    simp only at hinput
    split at hinput
    · cases hinput
    · obtain ⟨commands, hcommands, hresult⟩ := bind_eq_ok.mp hinput
      cases hresult
      exact Client.commands_own render (clock a) a hcommands
  · intro a piece next backend
    unfold Backend.Takes transports
    rw [← Client.onInput_thrown]
    dsimp only
    rcases Client.onInput find server (backend.clients a) piece backend.app with
      ⟨client, app, _ | e⟩
    · obtain ⟨commands, hcommands⟩ := Client.commands_ok render (clock a) a (backend.clients a)
        piece backend.app
      rw [hcommands]
      exact iff_of_true ⟨_, rfl⟩ rfl
    · exact iff_of_false (fun ⟨_, h⟩ => by cases h) nofun

namespace Impl

section

variable {σ : Type} {t : Transports σ} {kernel : Addr → Nat → Net.Reply}

/-! ## Open connections are registered -/

/-- What is open is in service. -/
def Subscribed (s : Impl σ) : Prop := ∀ b, s.isOpen b = true → s.InService b

theorem Spares.subscribed {a : Addr} {s s' : Impl σ} (h : Spares a s s') (hs : Subscribed s) :
    Subscribed s' := fun b hb => h.inService b hb (hs b (h.wasOpen hb))

theorem subscribed_new (signalfd listenfd_ : Fd) (opens : List Fd) (world : σ) :
    Subscribed (Impl.new signalfd listenfd_ opens world) := fun b hb => by cases hb

theorem accepted_view (s : Impl σ) (client : Accept) :
    (accepted t s client).view = Function.update s.view s.next
      (some { fd := client.descriptor.fd s.opens, manager_ := true, isOpen := true }) :=
  s.view_update s.next _

/-- A connection is registered by its constructor. -/
theorem accepted_subscribed {s : Impl σ} (hs : Subscribed s) (client : Accept) :
    Subscribed (accepted t s client) := by
  intro b hb
  by_cases hsame : b = s.next
  · subst hsame
    refine ⟨_, by rw [accepted_view, Function.update_self], rfl, ?_⟩
    exact List.mem_append_right _ (List.mem_singleton.mpr rfl)
  · rw [isOpen_iff, accepted_view, Function.update_of_ne hsame, ← isOpen_iff] at hb
    obtain ⟨v, hv, hopen, hmem⟩ := hs b hb
    refine ⟨v, ?_, hopen, List.mem_append_left _ hmem⟩
    rw [accepted_view, Function.update_of_ne hsame, hv]

section

variable {Takes : Addr → Bytes → σ → Prop} (hserves : t.Serves Takes)

theorem dispatch_out_returns {a : Addr} {s : Impl σ} (ha : s.isOpen a = true) (out : Bool) :
    ∃ s₁, dispatch_out kernel a out s = .ok s₁ := by
  obtain ⟨v, hv, hopen⟩ := isOpen_iff.mp ha
  cases out with
  | false => exact ⟨s, rfl⟩
  | true =>
      refine call_returns (by rw [hv]; simp) fun c hc => Net.onPollOut_returns (.inl ?_)
      rw [view, hc] at hv
      cases hv
      exact hopen

theorem dispatch_out_spares {a : Addr} {s s₁ : Impl σ} {out : Bool} (h : Inv s)
    (hout : dispatch_out kernel a out s = .ok s₁) : Changes s s₁ ∧ Spares a s s₁ := by
  cases out with
  | false =>
      cases hout
      exact ⟨.refl, .refl⟩
  | true =>
      have hcall : s.call a (Net.onPollOut (kernel a)) = .ok s₁ := hout
      have hf : ∀ c c', Net.onPollOut (kernel a) c = .ok c' → c'.isOpen = true → c.isOpen = true :=
        fun c c' => Net.onPollOut_isOpen
      exact ⟨.single (call_change hf hcall), call_spares hf h hcall⟩

include hserves

/-- An event of a connection touches no other one. -/
theorem dispatch_connection_spares {a : Addr} {out : Bool} {input : Option Input} {s s' : Impl σ}
    (h : Inv s) (hdispatch : dispatch t kernel s (.connection a out input) = .ok s') :
    Spares a s s' := by
  simp only [dispatch] at hdispatch
  split at hdispatch
  · cases hdispatch
  · rename_i hthere
    obtain ⟨s₁, hout, hin⟩ := bind_eq_ok.mp hdispatch
    obtain ⟨hchanges, hspares⟩ := dispatch_out_spares h hout
    have ha : s.view a ≠ none := connections_ne_none.mp fun hnone => hthere (by rw [hnone]; rfl)
    cases input with
    | none =>
        cases hin
        exact hspares
    | some input =>
        have hpoll : onPollIn t kernel a input.last input.pieces s₁ = .ok s' := hin
        have hinv := h.changes hchanges
        exact hspares.trans
          ((onPollIn_spares hserves input.pieces hinv (hchanges.stays.1 a ha)).2 s' hpoll)

/-- The dispatch of an event raises no error when all that is read is taken. -/
theorem dispatch_connection_returns {a : Addr} {s : Impl σ} (h : Inv s) (ha : s.isOpen a = true)
    (out : Bool) (input : Input) :
    (∃ s', dispatch t kernel s (.connection a out (some input)) = .ok s') ↔
      ∀ s₁, dispatch_out kernel a out s = .ok s₁ →
        TakesReads t kernel Takes a input.pieces s₁ := by
  obtain ⟨s₁, hout⟩ := @dispatch_out_returns _ kernel _ _ ha out
  obtain ⟨hchanges, -⟩ := dispatch_out_spares h hout
  have hthere : s.view a ≠ none := by
    obtain ⟨v, hv, -⟩ := isOpen_iff.mp ha
    rw [hv]
    simp
  have hnone : ¬ (s.connections a).isNone = true := by
    rw [Option.isNone_iff_eq_none]
    exact connections_ne_none.mpr hthere
  simp only [dispatch]
  rw [if_neg hnone, hout]
  simp only [Except.ok.injEq, forall_eq']
  exact (onPollIn_spares hserves input.pieces (h.changes hchanges)
    (hchanges.stays.1 a hthere)).1

theorem accept_spares {s : Impl σ} (h : Inv s) (client : Accept) :
    ((∃ s', accept t kernel s client = .ok s') ↔
      TakesReads t kernel Takes s.next client.input.pieces (accepted t s client)) ∧
      ∀ s', accept t kernel s client = .ok s' → Spares s.next (accepted t s client) s' := by
  have hthere : (accepted t s client).view s.next ≠ none := by
    rw [accepted_view, Function.update_self]
    simp
  rw [accept_eq h]
  exact onPollIn_spares hserves _ (h.change (accepted_change s client)) hthere

theorem accept_subscribed {s s' : Impl σ} (h : Inv s) (hs : Subscribed s) {client : Accept}
    (haccept : accept t kernel s client = .ok s') : Subscribed s' :=
  ((accept_spares hserves h client).2 s' haccept).subscribed (accepted_subscribed hs client)

theorem dispatch_subscribed {s s' : Impl σ} (h : Inv s) (hs : Subscribed s) {event : Event}
    (hdispatch : dispatch t kernel s event = .ok s') : Subscribed s' := by
  rcases event with _ | accepts | ⟨a, out, input⟩
  · cases hdispatch
    exact hs
  · have hrun : Run.run (accept t kernel) s accepts = .ok s' := hdispatch
    refine (Run.invariant (P := fun s => Inv s ∧ Subscribed s) ⟨h, hs⟩ ?_ accepts s' hrun).2
    intro s₁ client s₂ hbefore haccept
    exact ⟨hbefore.1.changes (accept_changes hbefore.1 haccept),
      accept_subscribed hserves hbefore.1 hbefore.2 haccept⟩
  · exact (dispatch_connection_spares hserves h hdispatch).subscribed hs

theorem batch_subscribed {s s' : Impl σ} (h : Inv s) (hs : Subscribed s) {batch : List Event}
    (hrun : Run.run (dispatch t kernel) s batch = .ok s') : Subscribed s' := by
  refine (Run.invariant (P := fun s => Inv s ∧ Subscribed s) ⟨h, hs⟩ ?_ batch s' hrun).2
  intro s₁ event s₂ hbefore hdispatch
  exact ⟨hbefore.1.changes (dispatch_changes hbefore.1 hdispatch),
    dispatch_subscribed hserves hbefore.1 hbefore.2 hdispatch⟩

end

/-- The connections that are destroyed have been closed, and no other one has the descriptor
of a client. -/
theorem remove_dead_clients_loop_inService (turns : Nat) (b : Addr) : ∀ {s : Impl σ}, Inv s →
    (s.InService b → (remove_dead_clients_loop t turns s).InService b) ∧
      ((remove_dead_clients_loop t turns s).isOpen b = true → s.isOpen b = true) := by
  induction turns with
  | zero => exact fun _ => ⟨id, id⟩
  | succ turns ih =>
      intro s h
      unfold remove_dead_clients_loop
      cases hqueue : s.remove_clients_ with
      | nil => exact ⟨id, id⟩
      | cons fd rest =>
          obtain ⟨a, v, hv, rfl, hmanager, hclosed, hremoves⟩ :=
            remove_dead_client_removes (t := t) h hqueue
          obtain ⟨hlater, hback⟩ := ih (h.removes hv hmanager hclosed hqueue hremoves)
          refine ⟨fun hb => hlater ?_, fun hb => ?_⟩
          · obtain ⟨w, hw, hopen, hmem⟩ := hb
            have hne : b ≠ a := by
              rintro rfl
              rw [hv] at hw
              cases hw
              rw [hclosed] at hopen
              cases hopen
            have hfd : w.fd ≠ v.fd := h.other hv hw (.inl hmanager) (.inr hopen) hne
            refine ⟨w, ?_, hopen, ?_⟩
            · rw [hremoves.view, Function.update_of_ne hne, hw]
            · rw [hremoves.registered, List.mem_filter]
              exact ⟨hmem, by simpa using hfd⟩
          · have hstill := hback hb
            rw [isOpen_iff, hremoves.view] at hstill
            obtain ⟨w, hw, hopen⟩ := hstill
            rcases update_eq_some hw with ⟨-, heq⟩ | ⟨-, hw⟩
            · cases heq
            · exact isOpen_iff.mpr ⟨w, hw, hopen⟩

theorem Reachable.subscribed {Takes : Addr → Bytes → σ → Prop} (hserves : t.Serves Takes)
    {s : Impl σ} (h : Reachable t kernel s) : Subscribed s := by
  induction h with
  | setup signalfd listenfd_ opens world => exact subscribed_new signalfd listenfd_ opens world
  | turn hbefore _ _ hturn ih =>
      obtain ⟨s₁, hrun, hremove⟩ := bind_eq_ok.mp hturn
      cases hremove
      have hinv := hbefore.inv.1
      have hafter := hinv.changes (batch_changes hinv hrun)
      intro b hb
      obtain ⟨hkeeps, hback⟩ := remove_dead_clients_loop_inService _ b hafter
      exact hkeeps (batch_subscribed hserves hinv ih hrun b (hback hb))

/-! ## Input of one client -/

/-- No exception leaves the loop, and all other connections are open and registered, at once
and when the batch is over. -/
def Isolates (t : Transports σ) (a : Addr) (s : Impl σ) (result : Except Stop (Impl σ)) : Prop :=
  ∃ s', result = .ok s' ∧ ∀ b, b ≠ a → s.isOpen b = true →
    s'.InService b ∧ (s'.remove_dead_clients t).InService b

/-- What is in service in between is in service behind what touches one connection only. -/
theorem isolates_iff {a : Addr} {s s₀ : Impl σ} {result : Except Stop (Impl σ)} {Fine : Prop}
    (hreturns : (∃ s', result = .ok s') ↔ Fine)
    (hbefore : ∀ b, b ≠ a → s.isOpen b = true → s₀.isOpen b = true) (hs₀ : Subscribed s₀)
    (hafter : ∀ s', result = .ok s' → Inv s' ∧ Spares a s₀ s') :
    Isolates t a s result ↔ Fine := by
  rw [← hreturns]
  constructor
  · rintro ⟨s', hs', -⟩
    exact ⟨s', hs'⟩
  · rintro ⟨s', hs'⟩
    obtain ⟨hinv, hspares⟩ := hafter s' hs'
    refine ⟨s', hs', fun b hb hopen => ?_⟩
    have hopen' : s'.isOpen b = true := by
      rw [isOpen_iff, hspares.others b hb, ← isOpen_iff]
      exact hbefore b hb hopen
    have hin := hspares.subscribed hs₀ b hopen'
    exact ⟨hin, (remove_dead_clients_loop_inService _ b hinv).1 hin⟩

end

/-- In any state of the loop, within a batch as well: the event of a client that is open, and
a client that is accepted, read at once. -/
theorem others_in_service_iff {σ : Type} (find : Find) (server : Http1.Server σ)
    (render : Rendering) (clock : Addr → Nat → Http1.Moment) (kernel : Addr → Nat → Net.Reply)
    {s₀ s : Impl (Backend σ)}
    (hreachable : Reachable (transports find server render clock) kernel s₀) {front : List Event}
    (hfront : Run.run (dispatch (transports find server render clock) kernel) s₀ front = .ok s) :
    (∀ a out input, s.isOpen a = true →
      (Isolates (transports find server render clock) a s
          (dispatch (transports find server render clock) kernel s
            (.connection a out (some input))) ↔
        ∀ s₁, dispatch_out kernel a out s = .ok s₁ →
          TakesReads (transports find server render clock) kernel (Backend.Takes find server) a
            input.pieces s₁)) ∧
    ∀ client,
      (Isolates (transports find server render clock) s.next s
          (accept (transports find server render clock) kernel s client) ↔
        TakesReads (transports find server render clock) kernel (Backend.Takes find server) s.next
          client.input.pieces (accepted (transports find server render clock) s client)) := by
  have hserves := transports_serves find server render clock
  have hinv₀ := hreachable.inv.1
  have hinv := hinv₀.changes (batch_changes hinv₀ hfront)
  have hsubscribed := batch_subscribed hserves hinv₀ (hreachable.subscribed hserves) hfront
  refine ⟨fun a out input ha => ?_, fun client => ?_⟩
  · refine isolates_iff (dispatch_connection_returns hserves hinv ha out input)
      (fun _ _ hopen => hopen) hsubscribed fun s' hs' => ?_
    exact ⟨hinv.changes (dispatch_changes hinv hs'), dispatch_connection_spares hserves hinv hs'⟩
  · obtain ⟨hreturns, hspares⟩ := @accept_spares _ _ kernel _ hserves _ hinv client
    refine isolates_iff hreturns (fun b hb hopen => ?_) (accepted_subscribed hsubscribed client)
      fun s' hs' => ⟨hinv.changes (accept_changes hinv hs'), hspares s' hs'⟩
    rw [isOpen_iff, accepted_view, Function.update_of_ne hb, ← isOpen_iff]
    exact hopen

/-! ## Two clients -/

/-- Every request is answered, and none is upgraded. -/
def plainServer : Http1.Server Unit where
  dispatch _ _ := .ok ([{}], ())
  upgrade _ := .error (.runtime_error "internal error: new transport failed")

/-- As `sendResponse` writes it, with the fields in the order of their arrival. -/
def written : Rendering := .sendResponse Find.first Http1.Order.asIs

/-- Everything happens at the same moment. -/
def atNoon : Addr → Nat → Http1.Moment := fun _ _ => Http1.noon

def plainTransports : Transports (Backend Unit) :=
  transports Find.first plainServer written atNoon

/-- All that is sent stays in the queues. -/
def busyKernel : Addr → Nat → Net.Reply := fun _ _ => .again

/-- A server after `setup`, which has no clients yet. -/
def noClients : Impl (Backend Unit) := Impl.new 3 4 [] { app := () }

theorem noClients_reachable : Reachable plainTransports busyKernel noClients :=
  .setup 3 4 [] ({ app := () } : Backend Unit)

/-- A connection with nothing to read at once. -/
def quiet : Accept := ⟨nextDescriptor, ⟨[], .again⟩⟩

/-- A server with two clients, which have been accepted in one batch. -/
def twoClients : Impl (Backend Unit) :=
  accepted plainTransports (accepted plainTransports noClients quiet) quiet

theorem run_twoClients : Run.run (dispatch plainTransports busyKernel) noClients
    [.listener [quiet, quiet]] = .ok twoClients := rfl

/-- The first of them sends some octets. -/
def sends (text : Bytes) : Event := .connection 0 false (some ⟨[text], .again⟩)

/-- `GET /` with a header, and the beginning of another request. -/
def getAndMore : Bytes :=
  octets "GET / HTTP/1.1" ++ Http1.CRLF ++ octets "Host: here" ++ Http1.CRLF ++ Http1.CRLF ++
    octets "GET /a"

/-- A request is taken, and answered while the other connection stays. -/
theorem others_in_service_request : twoClients.isOpen 1 = true ∧
    Isolates plainTransports 0 twoClients
      (dispatch plainTransports busyKernel twoClients (sends getAndMore)) := by
  have hiff := (others_in_service_iff Find.first plainServer written atNoon busyKernel
    noClients_reachable run_twoClients).1 0 false ⟨[getAndMore], .again⟩ rfl
  refine ⟨rfl, hiff.mpr fun s₁ hout => ?_⟩
  cases hout
  refine fun _ => ⟨(Client.onInput_thrown {} getAndMore ()).mp ?_, fun s' _ => trivial⟩
  decide +kernel

/-- `GET /`, and a header without a colon. -/
def noColon : Bytes := octets "GET / HTTP/1.1" ++ Http1.CRLF ++ octets "x" ++ Http1.CRLF

def stopOf {α : Type} : Except Stop α → Option Stop
  | .ok _ => none
  | .error stop => some stop

/-- A header without a colon ends the server. -/
theorem others_lost : Reachable plainTransports busyKernel noClients ∧
    Run.run (dispatch plainTransports busyKernel) noClients [.listener [quiet, quiet]] =
      .ok twoClients ∧ twoClients.isOpen 0 = true ∧ twoClients.isOpen 1 = true ∧
    dispatch plainTransports busyKernel twoClients (sends noColon) =
      .error (.thrown (.runtime_error "Malformed header: no colon")) ∧
    ¬ Isolates plainTransports 0 twoClients
      (dispatch plainTransports busyKernel twoClients (sends noColon)) := by
  have hstop : stopOf (dispatch plainTransports busyKernel twoClients (sends noColon)) =
      some (.thrown (.runtime_error "Malformed header: no colon")) := by
    decide +kernel
  refine ⟨noClients_reachable, run_twoClients, rfl, rfl, ?_⟩
  cases hdispatch : dispatch plainTransports busyKernel twoClients (sends noColon) with
  | ok s' =>
      rw [hdispatch] at hstop
      cases hstop
  | error stop =>
      rw [hdispatch] at hstop
      cases hstop
      exact ⟨rfl, fun ⟨_, hs', _⟩ => by cases hs'⟩

end Impl

end Shitty.Server
