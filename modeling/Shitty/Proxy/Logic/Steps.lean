import Shitty.Http1.Logic.Pool
import Shitty.Proxy.Logic.Serving

/-!
# The steps of the proxy

Each handler waits for the response on a backend transport of its own. With that, one
lemma for each step says all that it can do. The invariant says where each handler
stands, and that it is the one its backend transport will call; it is kept by every
step, and so it holds in every state of a run.
-/

namespace Shitty.Proxy

open Lib Http1 Http1.ServerTransport Http1.ClientTransportSource

/-! ## The life of a handler -/

/-- A transport that has been given a handler and a request. -/
def asked (transport : ClientTransport Nat) (handler : Nat) (request : Request) :
    ClientTransport Nat where
  handler_ := some handler
  isOpen := transport.isOpen
  unanswered :=
    if transport.isOpen then transport.unanswered ++ [(handler, request)]
    else transport.unanswered

/-- A handler has been made for a request, and waits on a transport nobody else has. -/
structure Constructs (p : State) (responder : Nat) (request : Request) (t : Nat) (p' : State) :
    Prop where
  free : t ∉ p.source.in_use_connections_
  handlers : p'.handlers = Function.update p.handlers p.next
    (some { responder_ := responder, backendTransport_ := some t })
  next : p'.next = p.next + 1
  dispatched : p'.dispatched = p.dispatched ++ [(p.next, responder)]
  spare : p'.source.spare_connections_ = p.source.spare_connections_.tail
  transports : p'.source.transports = Function.update p.source.transports t
    (asked (p.source.transports t) p.next request)
  pooled : Pooled p'.source

theorem construct_constructs {p : State} (h : Pooled p.source) (responder : Nat)
    (request : Request) :
    ∃ t p', State.construct responder request p = .ok () p' ∧
      Constructs p responder request t p' := by
  have hgets := getTransport_gets h p.next
  generalize hget : p.source.getTransport p.next = got at hgets
  obtain ⟨t, source⟩ := got
  have hself : source.transports t =
      { p.source.transports t with handler_ := some p.next } := by
    rw [hgets.transports, Function.update_self]
  have hhandler : (source.transports t).handler_ = some p.next := by rw [hself]
  unfold State.construct State.sendBackendRequest
  simp only [hget, sendRequest, hhandler]
  refine ⟨t, _, rfl, hgets.free, rfl, rfl, rfl, hgets.spare, ?_, ?_⟩
  · rw [modify_transports, hgets.transports, Function.update_idem, Function.update_self]
    congr 1
    unfold asked
    split <;> simp_all
  · refine hgets.pooled.modify hgets.known fun hnot => ?_
    rw [hgets.in_use] at hnot
    exact absurd List.mem_cons_self hnot

/-- A request is routed to a new handler, or to nothing. -/
theorem dispatch_eq {fb64 : Http2.Fb64} {find : Find} {responder : Nat} {request : Request}
    {p : State} : (server fb64 find responder).dispatch request p =
      if (octets "/").isPrefixOf request.path_ then MakeProxyHandler responder request p
      else .ok ([], p) := by
  show (routes responder).dispatch request p = _
  unfold Routes.dispatch routes Routes.addHandler
  simp only [List.nil_append, List.find?_singleton]
  by_cases hfits : (octets "/").isPrefixOf request.path_ = true
  · rw [if_pos hfits, if_pos hfits]
  · rw [if_neg hfits, if_neg hfits]

theorem MakeProxyHandler_ok {responder : Nat} {request : Request} {p p' : State}
    {responses : List Response} :
    MakeProxyHandler responder request p = .ok (responses, p') ↔
      responses = [] ∧ State.construct responder request p = .ok () p' := by
  unfold MakeProxyHandler
  cases State.construct responder request p <;> simp [eq_comm]

theorem dispatch_cases {fb64 : Http2.Fb64} {find : Find} {responder : Nat} {request : Request}
    {p p' : State} {responses : List Response}
    (h : (server fb64 find responder).dispatch request p = .ok (responses, p')) :
    responses = [] ∧ (p' = p ∨ State.construct responder request p = .ok () p') := by
  rw [dispatch_eq] at h
  split at h
  · obtain ⟨hnone, hconstruct⟩ := MakeProxyHandler_ok.mp h
    exact ⟨hnone, .inr hconstruct⟩
  · cases h
    exact ⟨rfl, .inl rfl⟩

theorem releaseBackendTransport_releases {p : State} (h : Pooled p.source)
    {handler responder t : Nat}
    (hhandler : p.handlers handler =
      some { responder_ := responder, backendTransport_ := some t })
    (ht : t ∈ p.source.in_use_connections_) :
    ∃ source, State.releaseBackendTransport handler p = .ok ()
        { p with
          source := source
          handlers := Function.update p.handlers handler (some { responder_ := responder }) } ∧
      Pooled source ∧ source.next = p.source.next ∧
      source.spare_connections_ = t :: p.source.spare_connections_ ∧
      source.transports = Function.update p.source.transports t
        { p.source.transports t with handler_ := none } := by
  obtain ⟨source, hput, hpooled, hnext, hspare, htransports⟩ := putTransport_puts h ht
  refine ⟨source, ?_, hpooled, hnext, hspare, htransports⟩
  unfold State.releaseBackendTransport
  rw [hhandler]
  simp only [hput]

/-! ## The system -/

/-- Handlers and the transports in use belong together, one to one. -/
structure Inv (s : System) : Prop where
  pooled : Pooled s.proxy.source
  waits : ∀ h perRequest, s.proxy.handlers h = some perRequest →
    ∃ t, perRequest.backendTransport_ = some t ∧
      (s.proxy.source.transports t).handler_ = some h
  waited : ∀ t h, (s.proxy.source.transports t).handler_ = some h →
    ∃ perRequest, s.proxy.handlers h = some perRequest ∧ perRequest.backendTransport_ = some t
  fresh : ∀ h, s.proxy.next ≤ h → s.proxy.handlers h = none

theorem inv_new : Inv {} where
  pooled := pooled_new
  waits h perRequest hh := by cases hh
  waited t h ht := by cases ht
  fresh h _ := rfl

theorem Inv.in_use {s : System} (h : Inv s) {t handler : Nat}
    (ht : (s.proxy.source.transports t).handler_ = some handler) :
    t ∈ s.proxy.source.in_use_connections_ := by
  by_contra hnot
  rw [h.pooled.idle t hnot] at ht
  cases ht

/-- The proxy behind a new handler. -/
theorem Inv.constructs {s s' : System} (h : Inv s) {responder t : Nat} {request : Request}
    (hconstructs : Constructs s.proxy responder request t s'.proxy) : Inv s' := by
  have hfree : (s.proxy.source.transports t).handler_ = none := h.pooled.idle t hconstructs.free
  have hnone : s.proxy.handlers s.proxy.next = none := h.fresh _ (Nat.le_refl _)
  refine ⟨hconstructs.pooled, ?_, ?_, ?_⟩
  · intro handler perRequest hhandler
    rw [hconstructs.handlers] at hhandler
    rw [hconstructs.transports]
    by_cases hsame : handler = s.proxy.next
    · subst hsame
      rw [Function.update_self] at hhandler
      cases hhandler
      exact ⟨t, rfl, by rw [Function.update_self]; rfl⟩
    · rw [Function.update_of_ne hsame] at hhandler
      obtain ⟨u, hu, hwaits⟩ := h.waits handler perRequest hhandler
      have hne : u ≠ t := by
        rintro rfl
        rw [hfree] at hwaits
        cases hwaits
      exact ⟨u, hu, by rw [Function.update_of_ne hne]; exact hwaits⟩
  · intro u handler hu
    rw [hconstructs.transports] at hu
    rw [hconstructs.handlers]
    by_cases hsame : u = t
    · subst hsame
      rw [Function.update_self] at hu
      cases hu
      exact ⟨_, Function.update_self .., rfl⟩
    · rw [Function.update_of_ne hsame] at hu
      obtain ⟨perRequest, hhandler, hbackend⟩ := h.waited u handler hu
      have hne : handler ≠ s.proxy.next := by
        rintro rfl
        rw [hnone] at hhandler
        cases hhandler
      exact ⟨perRequest, by rw [Function.update_of_ne hne]; exact hhandler, hbackend⟩
  · intro handler hhandler
    rw [hconstructs.next] at hhandler
    have hlt : s.proxy.next < handler := hhandler
    rw [hconstructs.handlers, Function.update_of_ne (Nat.ne_of_gt hlt)]
    exact h.fresh handler (Nat.le_of_lt hlt)

/-! ## Requests -/

/-- What a message of a client does. -/
inductive Requests (fb64 : Http2.Fb64) (find : Find) (client : Nat) (msg : IncomingMessage)
    (s s' : System) : Prop
  /-- There is no transport that reads it. -/
  | unread (hread : ∀ w, s.clients client = some w → w.replacedBy.isSome = true) (hsame : s' = s)
  | upgraded (w w' : World Unit) (hclient : s.clients client = some w)
      (hcurrent : w.replacedBy = none)
      (hclients : s'.clients = Function.update s.clients client (some w'))
      (hupgrades : Upgrades find (HTTP2Upgrader.upgrade fb64 find) msg)
      (hreplaced : w'.replacedBy.isSome = true) (hwrites : Writes w w')
      (hinterim : ¬ Refused find msg → Interim w w') (hproxy : s'.proxy = s.proxy)
      (hnext : s'.next = s.next) (hreplies : s'.replies = s.replies)
  | routed (w w' : World Unit) (hclient : s.clients client = some w)
      (hcurrent : w.replacedBy = none)
      (hclients : s'.clients = Function.update s.clients client (some w')) (hasks : ¬ Asks find msg)
      (hstays : w'.replacedBy = none) (hwrites : Writes w w')
      (hinterim : ¬ Refused find msg → Interim w w')
      (hproxy : s'.proxy = s.proxy ∨
        ∃ request t, Constructs s.proxy client request t s'.proxy)
      (hnext : s'.next = s.next) (hreplies : s'.replies = s.replies)

theorem request_requests {fb64 : Http2.Fb64} {find : Find} {client : Nat} {msg : IncomingMessage}
    {s s' : System} (h : Inv s) (hrequest : System.request fb64 find client msg s = .ok s') :
    Requests fb64 find client msg s s' := by
  unfold System.request at hrequest
  cases hclient : s.clients client with
  | none =>
      rw [hclient] at hrequest
      cases hrequest
      refine .unread (fun w hw => ?_) rfl
      rw [hclient] at hw
      cases hw
  | some w =>
      rw [hclient] at hrequest
      simp only at hrequest
      by_cases hreplaced : w.replacedBy.isSome = true
      · rw [if_pos hreplaced] at hrequest
        cases hrequest
        refine .unread (fun w' hw' => ?_) rfl
        rw [hclient] at hw'
        cases hw'
        exact hreplaced
      · rw [if_neg hreplaced] at hrequest
        have hcurrent : w.replacedBy = none := by simpa using hreplaced
        split at hrequest
        · cases hrequest
        · rename_i w' hserve
          cases hrequest
          -- the world of the client, without the proxy
          have hforget : Writes (withApp w s.proxy) w' → Writes w (withApp w' ()) :=
            fun hwrites => ⟨hwrites.isOpen, hwrites.sent⟩
          cases serve_served hserve with
          | upgraded hupgrades hreplaced' happ hwrites hinterim =>
              exact .upgraded w (withApp w' ()) hclient hcurrent rfl hupgrades hreplaced'
                (hforget hwrites) hinterim happ rfl rfl
          | dispatched request responses _ hasks hdispatch hstays hwrites hinterim =>
              obtain ⟨rfl, hproxy⟩ := dispatch_cases hdispatch
              refine .routed w (withApp w' ()) hclient hcurrent rfl hasks (hstays.trans hcurrent)
                (hforget hwrites) (fun hrefused => hinterim hrefused (by simp)) ?_ rfl rfl
              rcases hproxy with hsame | hconstruct
              · exact .inl hsame
              · obtain ⟨t, p', hconstruct', hconstructs⟩ :=
                  construct_constructs h.pooled client request
                have hsame : p' = w'.app := by
                  have := hconstruct'.symm.trans hconstruct
                  cases this
                  rfl
                exact .inr ⟨request, t, hsame ▸ hconstructs⟩

/-- A request for something in the registry, when the new transport can be made. -/
theorem request_upgrades {fb64 : Http2.Fb64} {find : Find} {client : Nat} {msg : IncomingMessage}
    {s : System} {w : World Unit} (hclient : s.clients client = some w)
    (hcurrent : w.replacedBy = none)
    (hupgrades : Upgrades find (HTTP2Upgrader.upgrade fb64 find) msg) :
    ∃ s', System.request fb64 find client msg s = .ok s' := by
  have hserved : ∃ w', serve find (virtual find (server fb64 find client)) msg
      (withApp w s.proxy) = .ok () w' := serve_upgrades rfl hupgrades
  obtain ⟨w', hserve⟩ := hserved
  unfold System.request
  rw [hclient]
  simp only [hcurrent, Option.isSome_none, Bool.false_eq_true, if_false, hserve]
  exact ⟨_, rfl⟩

/-- A request that is routed has a new handler. -/
theorem request_routes (fb64 : Http2.Fb64) {find : Find} {client : Nat} {msg : IncomingMessage}
    {s : System} (h : Inv s) {w : World Unit} (hclient : s.clients client = some w)
    (hcurrent : w.replacedBy = none) {request : Request} (hrequest : IsRequest msg request)
    (hasks : ¬ Asks find msg) (hpath : (octets "/").isPrefixOf request.path_ = true) :
    ∃ s' w' t, System.request fb64 find client msg s = .ok s' ∧
      s'.clients = Function.update s.clients client (some w') ∧ w'.replacedBy = none ∧
      Constructs s.proxy client request t s'.proxy := by
  obtain ⟨t, p', hconstruct, hconstructs⟩ := construct_constructs h.pooled client request
  have hdispatch : (server fb64 find client).dispatch request (withApp w s.proxy).app =
      .ok ([], p') := by
    rw [dispatch_eq, if_pos hpath]
    exact MakeProxyHandler_ok.mpr ⟨rfl, hconstruct⟩
  obtain ⟨w', hserve, happ⟩ := serve_dispatches hrequest hasks hdispatch nofun
  have hstep : System.request fb64 find client msg s = .ok { s with
      clients := Function.update s.clients client (some (withApp w' ()))
      proxy := w'.app } := by
    unfold System.request
    rw [hclient]
    simp only [hcurrent, Option.isSome_none, Bool.false_eq_true, if_false, hserve]
  have hstays : w'.replacedBy = none := by
    cases serve_served hserve with
    | upgraded hupgrades => exact absurd hupgrades.1 hasks
    | dispatched _ _ _ _ _ hreplaced => exact hreplaced.trans hcurrent
  exact ⟨_, _, t, hstep, rfl, hstays, happ ▸ hconstructs⟩

/-! ## Replies -/

section answer

variable {backend handler : Nat} {response : Response} {s : System}

@[simp] theorem answer_clients : (s.answer backend handler response).clients = s.clients := by
  unfold System.answer
  split <;> rfl

@[simp] theorem answer_next : (s.answer backend handler response).next = s.next := by
  unfold System.answer
  split <;> rfl

@[simp] theorem answer_handlers :
    (s.answer backend handler response).proxy.handlers = s.proxy.handlers := by
  unfold System.answer
  split <;> rfl

@[simp] theorem answer_proxy_next :
    (s.answer backend handler response).proxy.next = s.proxy.next := by
  unfold System.answer
  split <;> rfl

@[simp] theorem answer_spare :
    (s.answer backend handler response).proxy.source.spare_connections_ =
      s.proxy.source.spare_connections_ := by
  unfold System.answer
  split <;> rfl

@[simp] theorem answer_dispatched :
    (s.answer backend handler response).proxy.dispatched = s.proxy.dispatched := by
  unfold System.answer
  split <;> rfl

theorem answer_replies : (s.answer backend handler response).replies =
    if isFinal response = true then s.replies ++ [(handler, response)] else s.replies := by
  unfold System.answer
  split <;> rfl

/-- Nothing about a transport but its list is changed. -/
theorem answer_transports (t : Nat) :
    (s.answer backend handler response).proxy.source.transports t =
      { s.proxy.source.transports t with
        unanswered :=
          if isFinal response = true ∧ t = backend then
            (s.proxy.source.transports t).unanswered.tail
          else (s.proxy.source.transports t).unanswered } := by
  unfold System.answer
  by_cases hfinal : isFinal response = true
  · rw [if_pos hfinal]
    show Function.update _ _ _ t = _
    by_cases ht : t = backend
    · subst ht
      rw [Function.update_self, if_pos ⟨hfinal, rfl⟩]
    · rw [Function.update_of_ne ht, if_neg fun h => ht h.2]
  · rw [if_neg hfinal, if_neg fun h => hfinal h.1]

theorem answer_inv (h : Inv s) (hasked : (s.proxy.source.transports backend).unanswered ≠ []) :
    Inv (s.answer backend handler response) := by
  have hknown : backend < s.proxy.source.next := by
    by_contra hnot
    exact hasked (by rw [h.pooled.fresh backend (Nat.not_lt.mp hnot)])
  exact
    { pooled := by
        unfold System.answer
        split
        · have hmodified : Pooled (s.proxy.source.modify backend fun transport =>
              { transport with unanswered := transport.unanswered.tail }) :=
            h.pooled.modify hknown fun hnot => h.pooled.idle backend hnot
          exact hmodified
        · exact h.pooled
      waits := by
        intro handler' perRequest hhandler
        rw [answer_handlers] at hhandler
        obtain ⟨t, ht, hwaits⟩ := h.waits handler' perRequest hhandler
        exact ⟨t, ht, by rw [answer_transports]; exact hwaits⟩
      waited := by
        intro t handler' ht
        rw [answer_transports] at ht
        rw [answer_handlers]
        exact h.waited t handler' ht
      fresh := by
        rw [answer_proxy_next, answer_handlers]
        exact h.fresh }

end answer

/-- What a transport of the proxy does with a response that is delivered to a client. -/
structure Handles (find : Find) (backend : Nat) (response : Response) (s : System)
    (handler responder : Nat) (s' : System) : Prop where
  sendable : Sendable response
  transport : (s.proxy.source.transports backend).handler_ = some handler
  perRequest : ∃ perRequest, s.proxy.handlers handler = some perRequest ∧
    perRequest.responder_ = responder
  clients : ∃ w, s.clients responder = some w ∧ w.replacedBy = none ∧
    s'.clients = Function.update s.clients responder (some (w.write [response]))
  next : s'.next = s.next
  handlers : s'.proxy.handlers = Function.update s.proxy.handlers handler none
  proxy_next : s'.proxy.next = s.proxy.next
  dispatched : s'.proxy.dispatched = s.proxy.dispatched
  spare : s'.proxy.source.spare_connections_ = backend :: s.proxy.source.spare_connections_
  transports : s'.proxy.source.transports = Function.update s.proxy.source.transports backend
    { s.proxy.source.transports backend with
      handler_ := none
      isOpen := (s.proxy.source.transports backend).isOpen && !closing find response }
  pooled : Pooled s'.proxy.source
  replies : s'.replies = s.replies

/-- The server transport is gone, or not its connection's any more. -/
def Gone (s : System) (responder : Nat) : Prop :=
  ∀ w, s.clients responder = some w → w.replacedBy.isSome = true

/-- Where there is a transport for a response still, it is the one of its connection. -/
theorem present_of_not_gone {s : System} {responder : Nat} (h : ¬ Gone s responder) :
    ∃ w, s.clients responder = some w ∧ w.replacedBy = none := by
  unfold Gone at h
  push Not at h
  obtain ⟨w, hclient, hnot⟩ := h
  exact ⟨w, hclient, by simpa using hnot⟩

/-- What a handler does with the response of its backend: the backend's transport is put back
into the pool, and the response goes to a transport that is gone, or has a code that there is
no status line for, or is written. -/
theorem onBackendResponse_cases {s : System} {handler responder t : Nat} {response : Response}
    {proxy : State} (hhandler : s.proxy.handlers handler =
      some { responder_ := responder, backendTransport_ := some t })
    (hrelease : State.releaseBackendTransport handler s.proxy = .ok () proxy) :
    (Gone s responder ∧ s.onBackendResponse handler response = .error .useAfterDestroy) ∨
      (¬ Sendable response ∧
        s.onBackendResponse handler response = .error (.runtime_error "invalid status code")) ∨
      ∃ w, s.clients responder = some w ∧ w.replacedBy = none ∧ Sendable response ∧
        s.onBackendResponse handler response = .ok { s with
          clients := Function.update s.clients responder (some (w.write [response]))
          proxy := { proxy with handlers := Function.update proxy.handlers handler none } } := by
  unfold System.onBackendResponse
  rw [hhandler]
  simp only [hrelease]
  by_cases hlost : Gone s responder
  · refine .inl ⟨hlost, ?_⟩
    cases hclient : s.clients responder with
    | none => rfl
    | some w => exact if_pos (hlost w hclient)
  · obtain ⟨w, hclient, hcurrent⟩ := present_of_not_gone hlost
    right
    by_cases hsendable : Sendable response
    · refine .inr ⟨w, hclient, hcurrent, hsendable, ?_⟩
      simp only [hclient, hcurrent, sendResponse_ok hsendable]
      rfl
    · refine .inl ⟨hsendable, ?_⟩
      simp only [hclient, hcurrent, sendResponse_error hsendable]
      rfl

/-- A response has nowhere to go, or goes to a transport that is gone, or has a code that there
is no status line for, or is delivered. -/
theorem handleResponse_cases (find : Find) (backend : Nat) (response : Response) {s : System}
    (h : Inv s) :
    (s.handleResponse find backend response = .error .bad_function_call ∧
        (s.proxy.source.transports backend).handler_ = none) ∨
      (∃ handler perRequest, s.handleResponse find backend response = .error .useAfterDestroy ∧
        (s.proxy.source.transports backend).handler_ = some handler ∧
        s.proxy.handlers handler = some perRequest ∧ Gone s perRequest.responder_) ∨
      (s.handleResponse find backend response = .error (.runtime_error "invalid status code") ∧
        ¬ Sendable response) ∨
      ∃ handler responder s', s.handleResponse find backend response = .ok s' ∧
        Handles find backend response s handler responder s' := by
  unfold System.handleResponse
  cases htransport : (s.proxy.source.transports backend).handler_ with
  | none => exact .inl ⟨rfl, rfl⟩
  | some handler =>
      right
      simp only
      obtain ⟨⟨responder, t⟩, hhandler, hbackend⟩ := h.waited backend handler htransport
      cases hbackend
      obtain ⟨source, hrelease, hpooled, hnext, hspare, htransports⟩ :=
        releaseBackendTransport_releases h.pooled hhandler (h.in_use htransport)
      rcases @onBackendResponse_cases _ _ _ _ response _ hhandler hrelease with
        ⟨hlost, hgone⟩ | ⟨hnot, hthrown⟩ | ⟨w, hclient, hcurrent, hsendable, hgiven⟩
      · exact .inl ⟨handler, _, by rw [hgone]; rfl, rfl, hhandler, hlost⟩
      · exact .inr (.inl ⟨by rw [hthrown]; rfl, hnot⟩)
      · -- the response has been passed on, whatever becomes of the connection
        right
        right
        rw [hgiven]
        refine ⟨handler, responder, ?_⟩
        have hknown : backend < source.next := by
          rw [hnext]
          exact (h.pooled.known backend).mpr (.inr (h.in_use htransport))
        have hreset : (source.transports backend).handler_ = none := by
          rw [htransports, Function.update_self]
        have hclosed : Pooled (source.modify backend fun transport =>
            { transport with isOpen := false }) := hpooled.modify hknown fun _ => hreset
        by_cases hclosing : closing find response = true
        · refine ⟨_, if_pos hclosing, hsendable, htransport, ⟨_, hhandler, rfl⟩,
            ⟨w, hclient, hcurrent, rfl⟩, rfl, Function.update_idem _ _ _, rfl, rfl, hspare, ?_,
            hclosed, rfl⟩
          rw [modify_transports]
          simp only [htransports, Function.update_self, Function.update_idem, hclosing,
            Bool.not_true, Bool.and_false]
        · refine ⟨_, if_neg hclosing, hsendable, htransport, ⟨_, hhandler, rfl⟩,
            ⟨w, hclient, hcurrent, rfl⟩, rfl, Function.update_idem _ _ _, rfl, rfl, hspare, ?_,
            hpooled, rfl⟩
          rw [Bool.not_eq_true] at hclosing
          simp only [htransports, hclosing, Bool.not_false, Bool.and_true]

/-- The invariant holds behind the response that a handler has been given by its backend. -/
theorem Inv.handles {find : Find} {backend : Nat} {response : Response} {s s' : System} (h : Inv s)
    {handler responder : Nat}
    (hhandles : Handles find backend response s handler responder s') : Inv s' := by
  have hself : (s'.proxy.source.transports backend).handler_ = none := by
    rw [hhandles.transports, Function.update_self]
  have hother : ∀ t, t ≠ backend →
      s'.proxy.source.transports t = s.proxy.source.transports t := fun t ht => by
    rw [hhandles.transports, Function.update_of_ne ht]
  refine ⟨hhandles.pooled, ?_, ?_, ?_⟩
  · intro handler' perRequest hhandler'
    rw [hhandles.handlers] at hhandler'
    have hne : handler' ≠ handler := by
      rintro rfl
      rw [Function.update_self] at hhandler'
      cases hhandler'
    rw [Function.update_of_ne hne] at hhandler'
    obtain ⟨t, ht, hwaits⟩ := h.waits handler' perRequest hhandler'
    have hbackend : t ≠ backend := by
      rintro rfl
      rw [hhandles.transport] at hwaits
      cases hwaits
      exact hne rfl
    exact ⟨t, ht, by rw [hother t hbackend]; exact hwaits⟩
  · intro t handler' ht
    have hbackend : t ≠ backend := by
      rintro rfl
      rw [hself] at ht
      cases ht
    rw [hother t hbackend] at ht
    obtain ⟨perRequest, hhandler', hwaits⟩ := h.waited t handler' ht
    have hne : handler' ≠ handler := by
      rintro rfl
      obtain ⟨t', ht', hback⟩ := h.waits handler' perRequest hhandler'
      rw [hwaits] at ht'
      cases ht'
      -- the handler waits on one transport only
      obtain ⟨perRequest', hperRequest', hback'⟩ := h.waited backend handler' hhandles.transport
      rw [hhandler'] at hperRequest'
      cases hperRequest'
      rw [hwaits] at hback'
      cases hback'
      exact hbackend rfl
    refine ⟨perRequest, ?_, hwaits⟩
    rw [hhandles.handlers, Function.update_of_ne hne]
    exact hhandler'
  · intro handler' hhandler'
    rw [hhandles.proxy_next] at hhandler'
    rw [hhandles.handlers]
    by_cases hne : handler' = handler
    · rw [hne, Function.update_self]
    · rw [Function.update_of_ne hne]
      exact h.fresh handler' hhandler'

/-- The backend's answer to the first request it has not given a final answer to. -/
structure Replies (find : Find) (backend : Nat) (response : Response) (s : System)
    (handler responder : Nat) (s' : System) : Prop where
  isOpen : (s.proxy.source.transports backend).isOpen = true
  answers : ∃ first request rest,
    (s.proxy.source.transports backend).unanswered = (first, request) :: rest ∧
      Handles find backend response (s.answer backend first response) handler responder s'

/-- Nothing is read, or a reply is delivered. -/
theorem reply_cases {find : Find} {backend : Nat} {response : Response} {s s' : System} (h : Inv s)
    (hreply : s.reply find backend response = .ok s') :
    s' = s ∨ ∃ handler responder, Replies find backend response s handler responder s' := by
  unfold System.reply at hreply
  simp only at hreply
  cases hlist : (s.proxy.source.transports backend).unanswered with
  | nil =>
      rw [hlist] at hreply
      cases hreply
      exact .inl rfl
  | cons entry rest =>
      obtain ⟨first, request⟩ := entry
      rw [hlist] at hreply
      simp only at hreply
      by_cases hopen : (s.proxy.source.transports backend).isOpen = true
      · rw [if_pos hopen] at hreply
        have hinv : Inv (s.answer backend first response) := answer_inv h (by rw [hlist]; simp)
        rcases handleResponse_cases find backend response hinv
          with ⟨herror, -⟩ | ⟨_, _, herror, -⟩ | ⟨herror, -⟩ |
            ⟨handler, responder, s₁, hok, hhandles⟩
        · rw [herror] at hreply
          cases hreply
        · rw [herror] at hreply
          cases hreply
        · rw [herror] at hreply
          cases hreply
        · rw [hok] at hreply
          cases hreply
          exact .inr ⟨handler, responder, hopen, first, request, rest, hlist, hhandles⟩
      · rw [if_neg hopen] at hreply
        cases hreply
        exact .inl rfl

/-- A server transport that is gone is only used for a handler that refers to it. -/
theorem reply_useAfterDestroy {find : Find} {backend : Nat} {response : Response} {s : System}
    (h : Inv s) (hreply : s.reply find backend response = .error .useAfterDestroy) :
    ∃ handler perRequest, s.proxy.handlers handler = some perRequest ∧
      Gone s perRequest.responder_ := by
  unfold System.reply at hreply
  simp only at hreply
  cases hlist : (s.proxy.source.transports backend).unanswered with
  | nil =>
      rw [hlist] at hreply
      cases hreply
  | cons entry rest =>
      obtain ⟨first, request⟩ := entry
      rw [hlist] at hreply
      simp only at hreply
      split at hreply
      · have hinv : Inv (s.answer backend first response) := answer_inv h (by rw [hlist]; simp)
        rcases handleResponse_cases find backend response hinv
          with ⟨herror, -⟩ | ⟨handler, perRequest, -, -, hhandler, hgone⟩ | ⟨herror, -⟩ |
            ⟨_, _, _, hok, -⟩
        · rw [herror] at hreply
          cases hreply
        · refine ⟨handler, perRequest, ?_, fun w hw => hgone w ?_⟩
          · rwa [answer_handlers] at hhandler
          · rwa [answer_clients]
        · rw [herror] at hreply
          cases hreply
        · rw [hok] at hreply
          cases hreply
      · cases hreply

theorem Inv.replies {find : Find} {backend : Nat} {response : Response} {s s' : System} (h : Inv s)
    {handler responder : Nat} (hreplies : Replies find backend response s handler responder s') :
    Inv s' := by
  obtain ⟨first, request, rest, hlist, hhandles⟩ := hreplies.answers
  exact (answer_inv h (by rw [hlist]; simp)).handles hhandles

/-! ## All steps -/

theorem Inv.step {fb64 : Http2.Fb64} {find : Find} {s s' : System} {e : Event} (h : Inv s)
    (hstep : System.step fb64 find s e = .ok s') : Inv s' := by
  cases e with
  | connect =>
      cases hstep
      exact ⟨h.pooled, h.waits, h.waited, h.fresh⟩
  | request client msg =>
      cases request_requests h hstep with
      | unread _ hsame => exact hsame ▸ h
      | upgraded _ _ _ _ _ _ _ _ _ hproxy =>
          exact ⟨hproxy ▸ h.pooled, hproxy ▸ h.waits, hproxy ▸ h.waited, hproxy ▸ h.fresh⟩
      | routed _ _ _ _ _ _ _ _ _ hproxy =>
          rcases hproxy with hproxy | ⟨request, t, hconstructs⟩
          · exact ⟨hproxy ▸ h.pooled, hproxy ▸ h.waits, hproxy ▸ h.waited, hproxy ▸ h.fresh⟩
          · exact h.constructs hconstructs
  | reply backend response =>
      rcases reply_cases h hstep with rfl | ⟨handler, responder, hreplies⟩
      · exact h
      · exact h.replies hreplies
  | clientClose client =>
      cases hstep
      exact ⟨h.pooled, h.waits, h.waited, h.fresh⟩
  | backendClose backend =>
      simp only [System.step] at hstep
      split at hstep
      · rename_i hknown
        cases hstep
        have hsame : ∀ t, ((s.proxy.source.modify backend fun transport =>
            { transport with isOpen := false }).transports t).handler_ =
              (s.proxy.source.transports t).handler_ := by
          intro t
          by_cases ht : t = backend
          · subst ht
            rw [modify_self]
          · rw [modify_of_ne _ ht]
        have hclosed : Pooled (s.proxy.source.modify backend fun transport =>
            { transport with isOpen := false }) :=
          h.pooled.modify hknown fun hnot => h.pooled.idle backend hnot
        refine ⟨hclosed, ?_, ?_, h.fresh⟩
        · intro handler perRequest hhandler
          obtain ⟨t, ht, hwaits⟩ := h.waits handler perRequest hhandler
          exact ⟨t, ht, (hsame t).trans hwaits⟩
        · intro t handler ht
          exact h.waited t handler ((hsame t).symm.trans ht)
      · cases hstep
        exact h
  | remove_dead_clients =>
      cases hstep
      exact ⟨h.pooled, h.waits, h.waited, h.fresh⟩

theorem run_inv {fb64 : Http2.Fb64} {find : Find} (events : List Event) :
    ∀ s, System.run fb64 find events = .ok s → Inv s :=
  Run.invariant inv_new (fun _ _ _ h hstep => h.step hstep) events

/-! ## A request for the root -/

/-- The message `GET /` without any fields, as it has been read. -/
def getRoot : IncomingMessage where
  first_line := octets "GET" ++ SP :: octets "/" ++ SP :: octets "HTTP/1.1"

/-- A decoder of `HTTP2-Settings` that finds nothing. -/
def noFb64 : Http2.Fb64 where
  decoded_size_nopad _ := 0
  decode _ := (0, fun _ => 0)

end Shitty.Proxy
