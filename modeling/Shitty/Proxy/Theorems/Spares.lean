import Shitty.Proxy.Logic.Steps

/-!
# Spare connections that are closed

A transport is put back before its connection is closed for `Connection: close`, and a
spare connection may be closed by its peer. In neither case does the pool get to know.
So the pool hands out open connections only, in all states of a run, exactly when no
step of the run is one of these.
-/

namespace Shitty.Proxy

open Lib Http1 Http1.ClientTransportSource

/-! ## What the pool hands out -/

/-- Some calls of `getTransport` one after the other, and the transports they return. -/
def getTransports (handlers : List Nat) (source : ClientTransportSource Nat) :
    ClientTransportSource Nat :=
  handlers.foldl (fun source resp_handler => (source.getTransport resp_handler).2) source

/-- However many transports are taken out, those that were spare are open. -/
def HandsOutOpen (source : ClientTransportSource Nat) : Prop :=
  ∀ handlers resp_handler, (getTransports handlers source).spare_connections_ ≠ [] →
    let got := (getTransports handlers source).getTransport resp_handler
    (got.2.transports got.1).isOpen = true

/-- Only the handler of a transport is changed. -/
theorem getTransport_isOpen {source : ClientTransportSource Nat} (h : Pooled source)
    (resp_handler t : Nat) :
    ((source.getTransport resp_handler).2.transports t).isOpen = (source.transports t).isOpen := by
  rw [(getTransport_gets h resp_handler).transports]
  by_cases hsame : t = (source.getTransport resp_handler).1
  · rw [← hsame, Function.update_self]
  · rw [Function.update_of_ne hsame]

theorem getTransport_top {source : ClientTransportSource Nat} {top : Nat} {rest : List Nat}
    (h : source.spare_connections_ = top :: rest) (resp_handler : Nat) :
    (source.getTransport resp_handler).1 = top := by
  unfold getTransport
  rw [h]
  rfl

/-- The spare transports are taken from the front. -/
theorem getTransports_spare {source : ClientTransportSource Nat} (h : Pooled source)
    (handlers : List Nat) :
    Pooled (getTransports handlers source) ∧
      (getTransports handlers source).spare_connections_ =
        source.spare_connections_.drop handlers.length ∧
      ∀ t, ((getTransports handlers source).transports t).isOpen =
        (source.transports t).isOpen := by
  induction handlers generalizing source with
  | nil => exact ⟨h, rfl, fun _ => rfl⟩
  | cons resp_handler handlers ih =>
      have hgets := getTransport_gets h resp_handler
      obtain ⟨hpooled, hspare, hopen⟩ := ih hgets.pooled
      refine ⟨hpooled, ?_, fun t => (hopen t).trans (getTransport_isOpen h resp_handler t)⟩
      exact hspare.trans (by rw [hgets.spare, List.drop_tail, List.length_cons])

theorem handsOutOpen_iff {source : ClientTransportSource Nat} (h : Pooled source) :
    HandsOutOpen source ↔
      ∀ t ∈ source.spare_connections_, (source.transports t).isOpen = true := by
  constructor
  · intro hhands t ht
    obtain ⟨front, back, hsplit⟩ := List.append_of_mem ht
    obtain ⟨hpooled, hspare, hopen⟩ := getTransports_spare h front
    rw [hsplit, List.drop_left] at hspare
    have hgot := hhands front 0 (by rw [hspare]; exact List.cons_ne_nil t back)
    dsimp only at hgot
    rw [getTransport_top hspare, getTransport_isOpen hpooled] at hgot
    rw [← hopen t]
    exact hgot
  · intro hall handlers resp_handler hne
    obtain ⟨hpooled, hspare, hopen⟩ := getTransports_spare h handlers
    obtain ⟨top, rest, hcons⟩ := List.exists_cons_of_ne_nil hne
    dsimp only
    rw [getTransport_top hcons, getTransport_isOpen hpooled, hopen]
    apply hall
    apply List.mem_of_mem_drop (i := handlers.length)
    rw [← hspare, hcons]
    exact List.mem_cons_self

/-! ## Steps -/

/-- A reply of the backend is read, and given to a client. There is a status line for it. -/
def Delivers (s : System) (backend : Nat) (response : Response) : Prop :=
  Sendable response ∧ (s.proxy.source.transports backend).isOpen = true ∧
    (s.proxy.source.transports backend).unanswered ≠ [] ∧
      ∃ handler perRequest, (s.proxy.source.transports backend).handler_ = some handler ∧
        s.proxy.handlers handler = some perRequest ∧ ¬ Gone s perRequest.responder_

/-- When a step leaves the spare connections open: no reply with `Connection: close` is
delivered, and no connection is closed while it is spare. -/
def KeepsSpares (find : Find) (s : System) : Event → Prop
  | .reply backend response => closing find response = true → ¬ Delivers s backend response
  | .backendClose backend => backend ∉ s.proxy.source.spare_connections_
  | _ => True

/-- In each state of the run, no closed connection would be handed out. -/
def AlwaysHandsOutOpen (fb64 : Http2.Fb64) (find : Find) (events : List Event) : Prop :=
  ∀ front, front <+: events → ∀ s, System.run fb64 find front = .ok s →
    HandsOutOpen s.proxy.source

variable {fb64 : Http2.Fb64} {find : Find} {s s' : System}

def SparesOpen (s : System) : Prop :=
  ∀ t ∈ s.proxy.source.spare_connections_, (s.proxy.source.transports t).isOpen = true

theorem SparesOpen.of_proxy (h : SparesOpen s) (hproxy : s'.proxy = s.proxy) : SparesOpen s' := by
  rw [SparesOpen, hproxy]
  exact h

theorem Replies.delivers {backend handler responder : Nat} {response : Response}
    (h : Replies find backend response s handler responder s') : Delivers s backend response := by
  obtain ⟨first, request, rest, hlist, hhandles⟩ := h.answers
  obtain ⟨perRequest, hperRequest, hresponder⟩ := hhandles.perRequest
  obtain ⟨w, hw, hcurrent, -⟩ := hhandles.clients
  have htransport := hhandles.transport
  rw [answer_transports] at htransport
  rw [answer_handlers] at hperRequest
  rw [answer_clients] at hw
  refine ⟨hhandles.sendable, h.isOpen, ?_, handler, perRequest, htransport, hperRequest,
    fun hgone => ?_⟩
  · rw [hlist]
    exact List.cons_ne_nil _ _
  have hreplaced := hgone w (hresponder ▸ hw)
  rw [hcurrent] at hreplaced
  cases hreplaced

/-- A response that can be delivered is delivered, and given to the handler that waits for it. -/
theorem Delivers.replies {backend : Nat} {response : Response} (h : Delivers s backend response)
    (hinv : Inv s) : ∃ s' handler responder, s.reply find backend response = .ok s' ∧
      Replies find backend response s handler responder s' := by
  obtain ⟨hsendable, hopen, hasked, handler, perRequest, htransport, hhandler, hclient⟩ := h
  obtain ⟨⟨first, request⟩, rest, hlist⟩ := List.exists_cons_of_ne_nil hasked
  have hreply : s.reply find backend response =
      (s.answer backend first response).handleResponse find backend response := by
    unfold System.reply
    simp only [hlist, hopen, if_true]
  have hanswer : Inv (s.answer backend first response) := answer_inv hinv hasked
  rcases handleResponse_cases find backend response hanswer
    with ⟨-, hnone⟩ | ⟨_, _, -, hsame, hhandler', hgone⟩ | ⟨-, hnot⟩ |
      ⟨handler', responder, s', hok, hhandles⟩
  · rw [answer_transports, htransport] at hnone
    cases hnone
  · rw [answer_transports, htransport] at hsame
    cases hsame
    rw [answer_handlers, hhandler] at hhandler'
    cases hhandler'
    refine absurd (fun w hw => hgone w ?_) hclient
    rw [answer_clients]
    exact hw
  · exact absurd hsendable hnot
  · exact ⟨s', handler', responder, hreply.trans hok, hopen, first, request, rest, hlist, hhandles⟩

/-- The connection is spare behind the reply, and open if it is to stay open. -/
theorem Replies.spare {backend handler responder : Nat} {response : Response}
    (h : Replies find backend response s handler responder s') :
    s'.proxy.source.spare_connections_ = backend :: s.proxy.source.spare_connections_ ∧
      ∀ t, (s'.proxy.source.transports t).isOpen =
        if t = backend then !closing find response else (s.proxy.source.transports t).isOpen := by
  obtain ⟨first, request, rest, hlist, hhandles⟩ := h.answers
  refine ⟨by rw [hhandles.spare, answer_spare], fun t => ?_⟩
  rw [hhandles.transports]
  by_cases hsame : t = backend
  · rw [if_pos hsame, hsame, Function.update_self, answer_transports, h.isOpen, Bool.true_and]
  · rw [if_neg hsame, Function.update_of_ne hsame, answer_transports]

theorem SparesOpen.step (h : SparesOpen s) (hinv : Inv s) {e : Event}
    (hkeeps : KeepsSpares find s e) (hstep : System.step fb64 find s e = .ok s') :
    SparesOpen s' := by
  cases e with
  | connect =>
      cases hstep
      exact h
  | request client msg =>
      cases request_requests hinv hstep with
      | unread _ hsame => exact hsame ▸ h
      | upgraded _ _ _ _ _ _ _ _ _ hproxy => exact h.of_proxy hproxy
      | routed _ _ _ _ _ _ _ _ _ hproxy =>
          rcases hproxy with hproxy | ⟨request, t, hconstructs⟩
          · exact h.of_proxy hproxy
          · -- one of the spare transports is taken, or none
            intro u hu
            rw [hconstructs.spare] at hu
            have hopen := h u (List.mem_of_mem_tail hu)
            rw [hconstructs.transports]
            by_cases hsame : u = t
            · subst hsame
              rw [Function.update_self]
              exact hopen
            · rw [Function.update_of_ne hsame]
              exact hopen
  | reply backend response =>
      rcases reply_cases hinv hstep with rfl | ⟨handler, responder, hreplies⟩
      · exact h
      · have hclosing : closing find response = false := by
          rw [← Bool.not_eq_true]
          exact fun hclosing => hkeeps hclosing hreplies.delivers
        obtain ⟨hspare, hopen⟩ := hreplies.spare
        -- the transport that is put back is open still, and the others were before
        intro t ht
        rw [hopen]
        split
        · rw [hclosing]
          rfl
        · rename_i hne
          rw [hspare] at ht
          exact h t ((List.mem_cons.mp ht).resolve_left hne)
  | clientClose client =>
      cases hstep
      exact h
  | backendClose backend =>
      simp only [System.step] at hstep
      split at hstep
      · cases hstep
        intro t ht
        have hne : t ≠ backend := by
          rintro rfl
          exact hkeeps ht
        have hsame : ((s.proxy.source.modify backend fun transport =>
            { transport with isOpen := false }).transports t).isOpen =
              (s.proxy.source.transports t).isOpen := by
          rw [modify_of_ne _ hne]
        exact hsame.trans (h t ht)
      · cases hstep
        exact h
  | remove_dead_clients =>
      cases hstep
      exact h

/-- A step behind which all spare connections are open has closed none of them. -/
theorem SparesOpen.keeps (hinv : Inv s) {e : Event}
    (hafter : ∀ s', System.step fb64 find s e = .ok s' → SparesOpen s') :
    KeepsSpares find s e := by
  cases e with
  | reply backend response =>
      -- the connection would be spare, and closed
      intro hclosing hdelivers
      obtain ⟨s', handler, responder, hreply, hreplies⟩ := hdelivers.replies hinv
      obtain ⟨hspare, hopen⟩ := hreplies.spare
      have hback := hafter s' hreply backend (by rw [hspare]; exact List.mem_cons_self)
      rw [hopen, if_pos rfl, hclosing] at hback
      cases hback
  | backendClose backend =>
      intro hspare
      have hknown := (hinv.pooled.known backend).mpr (.inl hspare)
      have hback : ((s.proxy.source.modify backend fun transport =>
          { transport with isOpen := false }).transports backend).isOpen = true :=
        hafter _ (if_pos hknown) backend hspare
      rw [modify_self] at hback
      cases hback
  | connect => trivial
  | request client msg => trivial
  | clientClose client => trivial
  | remove_dead_clients => trivial

/-- No closed connection is handed out in any state of a run exactly when no reply with
`Connection: close` is delivered and no spare connection is closed. -/
theorem spares_open_iff (fb64 : Http2.Fb64) (find : Find) (events : List Event) :
    AlwaysHandsOutOpen fb64 find events ↔
      ∀ front e, front ++ [e] <+: events → ∀ s, System.run fb64 find front = .ok s →
        KeepsSpares find s e := by
  refine Run.always_iff ?_ ?_
  · intro s hs
    cases hs
    exact (handsOutOpen_iff pooled_new).mpr fun t ht => by cases ht
  · intro front e _ hbefore
    have hfront := hbefore front List.prefix_rfl
    have hopen : ∀ s, System.run fb64 find front = .ok s → SparesOpen s := fun s hs =>
      (handsOutOpen_iff (run_inv front s hs).pooled).mp (hfront s hs)
    constructor
    · intro hafter s hs
      have hopen' : ∀ s', System.step fb64 find s e = .ok s' → SparesOpen s' := by
        intro s' hstep
        have hs' := Run.run_snoc_of_ok hs hstep
        exact (handsOutOpen_iff (run_inv _ s' hs').pooled).mp (hafter s' hs')
      exact SparesOpen.keeps (run_inv front s hs) hopen'
    · intro hkeeps s' hs'
      obtain ⟨s, hs, hstep⟩ := Run.run_snoc_ok hs'
      have hinv := run_inv front s hs
      exact (handsOutOpen_iff (hinv.step hstep).pooled).mpr
        ((hopen s hs).step hinv (hkeeps s hs) hstep)

/-! ## A backend that closes -/

/-- A response with `Connection: close`, behind which its connection is closed. -/
def lastResponse : Response where
  message := { headers_ := [(octets "connection", octets "close")] }

/-- The transport is put back, and then its connection is closed. -/
theorem spares_not_open :
    ¬ ∀ (fb64 : Http2.Fb64) (find : Find) (events : List Event),
      AlwaysHandsOutOpen fb64 find events := by
  intro hall
  have hran : (System.run noFb64 .first
      [.connect, .request 0 getRoot, .reply 0 lastResponse]).toOption.map
      (fun s => (s.proxy.source.spare_connections_, (s.proxy.source.transports 0).isOpen)) =
        some ([0], false) := by decide +kernel
  cases hrun : System.run noFb64 .first
      [.connect, .request 0 getRoot, .reply 0 lastResponse] with
  | error e =>
      rw [hrun] at hran
      cases hran
  | ok s =>
      rw [hrun] at hran
      simp only [Except.toOption, Option.map_some, Option.some.injEq, Prod.mk.injEq] at hran
      obtain ⟨hspare, hclosed⟩ := hran
      have hhands := hall _ _ _ _ List.prefix_rfl s hrun
      have hopen := (handsOutOpen_iff (run_inv _ s hrun).pooled).mp hhands 0
        (by rw [hspare]; exact List.mem_singleton_self 0)
      rw [hclosed] at hopen
      cases hopen

end Shitty.Proxy
