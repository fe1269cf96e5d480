import Shitty.Proxy.Logic.Steps

/-!
# The transports that responders refer to

A `Responder` refers to a server transport, which is destroyed with its connection or
when it is replaced. Nothing tells the handlers of requests that are still outstanding.
So a reply is given to a transport that is still there exactly in those runs in which no
dead client is removed, and no transport replaced, while a request of its own is
outstanding.
-/

namespace Shitty.Proxy

open Lib Http1 Http1.ServerTransport

/-- Each outstanding handler refers to a server transport that is its connection's
still. -/
def Alive (s : System) : Prop :=
  ∀ handler perRequest, s.proxy.handlers handler = some perRequest →
    ∃ w, s.clients perRequest.responder_ = some w ∧ w.replacedBy = none

/-- When a step destroys no transport that an outstanding handler refers to: dead clients
have no outstanding requests when they are removed, nor has a client whose transport is
replaced. -/
def Keeps (fb64 : Http2.Fb64) (find : Find) (s : System) : Event → Prop
  | .request client msg => Upgrades find (HTTP2Upgrader.upgrade fb64 find) msg →
      ∀ handler perRequest, s.proxy.handlers handler = some perRequest →
        perRequest.responder_ ≠ client
  | .remove_dead_clients => ∀ handler perRequest, s.proxy.handlers handler = some perRequest →
      ∀ w, s.clients perRequest.responder_ = some w → w.isOpen = true
  | _ => True

/-- Nothing is destroyed too early, and no response, whatever it is and wherever it comes
from, is given to a transport that has been destroyed. -/
def AlwaysAlive (fb64 : Http2.Fb64) (find : Find) (events : List Event) : Prop :=
  ∀ front, front <+: events → ∀ s, System.run fb64 find front = .ok s →
    Alive s ∧ ∀ backend response, s.reply find backend response ≠ .error .useAfterDestroy

variable {fb64 : Http2.Fb64} {find : Find} {s s' : System}

/-- A handler that refers to a transport that is there has somewhere to respond to. -/
theorem Alive.not_useAfterDestroy (h : Alive s) (hinv : Inv s) (backend : Nat)
    (response : Response) : s.reply find backend response ≠ .error .useAfterDestroy := by
  intro hreply
  obtain ⟨handler, perRequest, hhandler, hgone⟩ := reply_useAfterDestroy hinv hreply
  obtain ⟨w, hclient, hcurrent⟩ := h handler perRequest hhandler
  have hreplaced := hgone w hclient
  rw [hcurrent] at hreplaced
  cases hreplaced

/-! ## What a step does to the clients -/

/-- The handlers that are there were there before, and so are their clients. -/
theorem Alive.mono (h : Alive s)
    (hhandlers : ∀ handler perRequest, s'.proxy.handlers handler = some perRequest →
      s.proxy.handlers handler = some perRequest)
    (hclients : ∀ client w, s.clients client = some w → w.replacedBy = none →
      (∃ handler perRequest, s.proxy.handlers handler = some perRequest ∧
        perRequest.responder_ = client) →
      ∃ w', s'.clients client = some w' ∧ w'.replacedBy = none) : Alive s' := by
  intro handler perRequest hhandler
  have hbefore := hhandlers handler perRequest hhandler
  obtain ⟨w, hclient, hcurrent⟩ := h handler perRequest hbefore
  exact hclients _ w hclient hcurrent ⟨handler, perRequest, hbefore, rfl⟩

/-- A client whose world is changed is still there. -/
theorem update_client {clients : Nat → Option (World Unit)} {client : Nat} {w' : World Unit}
    (hcurrent' : w'.replacedBy = none) {other : Nat} {w : World Unit}
    (hw : clients other = some w) (hcurrent : w.replacedBy = none) :
    ∃ w₁, Function.update clients client (some w') other = some w₁ ∧ w₁.replacedBy = none := by
  by_cases hsame : other = client
  · subst hsame
    exact ⟨w', Function.update_self .., hcurrent'⟩
  · rw [Function.update_of_ne hsame]
    exact ⟨w, hw, hcurrent⟩

theorem Alive.constructs (h : Alive s) {client t : Nat} {request : Request} {w' : World Unit}
    (hconstructs : Constructs s.proxy client request t s'.proxy)
    (hclients : s'.clients = Function.update s.clients client (some w'))
    (hstays : w'.replacedBy = none) : Alive s' := by
  intro handler perRequest hhandler
  rw [hconstructs.handlers] at hhandler
  rw [hclients]
  by_cases hsame : handler = s.proxy.next
  · subst hsame
    rw [Function.update_self] at hhandler
    cases hhandler
    exact ⟨w', Function.update_self .., hstays⟩
  · rw [Function.update_of_ne hsame] at hhandler
    obtain ⟨w, hclient, hcurrent⟩ := h handler perRequest hhandler
    exact update_client hstays hclient hcurrent

theorem Alive.step (h : Alive s) (hinv : Inv s) {e : Event} (hkeeps : Keeps fb64 find s e)
    (hstep : System.step fb64 find s e = .ok s') : Alive s' := by
  cases e with
  | connect =>
      cases hstep
      exact h.mono (fun _ _ hh => hh) fun client w hw hcurrent _ => update_client rfl hw hcurrent
  | request client msg =>
      cases request_requests hinv hstep with
      | unread _ hsame => exact hsame ▸ h
      | upgraded w w' hclient hcurrent hclients hupgrades _ _ _ hproxy =>
          refine h.mono (fun _ _ hh => hproxy ▸ hh) ?_
          rintro other w₁ hw₁ hcurrent₁ ⟨handler, perRequest, hhandler, rfl⟩
          -- only this client has a new world
          have hne := hkeeps hupgrades handler perRequest hhandler
          rw [hclients, Function.update_of_ne hne]
          exact ⟨w₁, hw₁, hcurrent₁⟩
      | routed w w' hclient hcurrent hclients _ hstays _ _ hproxy =>
          rcases hproxy with hproxy | ⟨request, t, hconstructs⟩
          · refine h.mono (fun _ _ hh => hproxy ▸ hh) fun other w₁ hw₁ hcurrent₁ _ => ?_
            rw [hclients]
            exact update_client hstays hw₁ hcurrent₁
          · exact h.constructs hconstructs hclients hstays
  | reply backend response =>
      rcases reply_cases hinv hstep with rfl | ⟨handler, responder, hreplies⟩
      · exact h
      · obtain ⟨first, request, rest, hlist, hhandles⟩ := hreplies.answers
        obtain ⟨w, hclient, hcurrent, hclients⟩ := hhandles.clients
        refine h.mono ?_ ?_
        · intro handler' perRequest hhandler
          rw [hhandles.handlers, answer_handlers] at hhandler
          by_cases hsame : handler' = handler
          · rw [hsame, Function.update_self] at hhandler
            cases hhandler
          · rwa [Function.update_of_ne hsame] at hhandler
        · intro other w₁ hw₁ hcurrent₁ _
          rw [hclients, answer_clients]
          exact update_client ((w.write_replacedBy _).trans hcurrent) hw₁ hcurrent₁
  | clientClose client =>
      cases hstep
      refine h.mono (fun _ _ hh => hh) fun other w hw hcurrent _ => ?_
      by_cases hsame : other = client
      · subst hsame
        exact ⟨{ w with isOpen := false }, by simp [hw], hcurrent⟩
      · exact ⟨w, by simp [hsame, hw], hcurrent⟩
  | backendClose backend =>
      simp only [System.step] at hstep
      split at hstep
      · cases hstep
        exact h
      · cases hstep
        exact h
  | remove_dead_clients =>
      cases hstep
      refine h.mono (fun _ _ hh => hh) ?_
      rintro other w hw hcurrent ⟨handler, perRequest, hhandler, rfl⟩
      have hopen := hkeeps handler perRequest hhandler w hw
      exact ⟨w, by simp [hw, hopen], hcurrent⟩

/-- A step behind which all transports are there has destroyed none of them. -/
theorem Alive.keeps (h : Alive s) (hinv : Inv s) {e : Event}
    (hafter : ∀ s', System.step fb64 find s e = .ok s' → Alive s') : Keeps fb64 find s e := by
  cases e with
  | request client msg =>
      intro hupgrades handler perRequest hhandler heq
      obtain ⟨w, hclient, hcurrent⟩ := h handler perRequest hhandler
      rw [heq] at hclient
      obtain ⟨s', hstep⟩ := request_upgrades hclient hcurrent hupgrades
      have halive := hafter s' hstep
      cases request_requests hinv hstep with
      | unread hread =>
          have hreplaced := hread w hclient
          rw [hcurrent] at hreplaced
          cases hreplaced
      | upgraded w₀ w' _ _ hclients _ hreplaced _ _ hproxy =>
          -- the handler is there still, and its transport is not
          rw [← hproxy] at hhandler
          obtain ⟨w₁, hclient₁, hcurrent₁⟩ := halive handler perRequest hhandler
          rw [hclients, heq, Function.update_self] at hclient₁
          cases hclient₁
          rw [hcurrent₁] at hreplaced
          cases hreplaced
      | routed _ _ _ _ _ hasks => exact hasks hupgrades.1
  | remove_dead_clients =>
      intro handler perRequest hhandler w hw
      obtain ⟨w', hw', -⟩ := hafter _ rfl handler perRequest hhandler
      simp only [hw] at hw'
      obtain ⟨hsame, hopen⟩ := Option.filter_eq_some_iff.mp hw'
      cases hsame
      exact hopen
  | connect => trivial
  | reply backend response => trivial
  | clientClose client => trivial
  | backendClose backend => trivial

/-- No response reaches a transport that has been destroyed, and each outstanding handler
refers to one that has not, all along a run exactly when no dead client with an
outstanding request is removed and no transport with one is replaced. -/
theorem responders_alive_iff (fb64 : Http2.Fb64) (find : Find) (events : List Event) :
    AlwaysAlive fb64 find events ↔
      ∀ front e, front ++ [e] <+: events → ∀ s, System.run fb64 find front = .ok s →
        Keeps fb64 find s e := by
  refine Run.always_iff ?_ ?_
  · intro s hs
    cases hs
    have halive : Alive {} := fun _ _ hh => by cases hh
    exact ⟨halive, halive.not_useAfterDestroy inv_new⟩
  · intro front e _ hbefore
    have hfront := hbefore front List.prefix_rfl
    constructor
    · intro hafter s hs
      refine (hfront s hs).1.keeps (run_inv front s hs) fun s' hstep => ?_
      exact (hafter s' (Run.run_snoc_of_ok hs hstep)).1
    · intro hkeeps s' hs'
      obtain ⟨s, hs, hstep⟩ := Run.run_snoc_ok hs'
      have hinv := run_inv front s hs
      have halive := (hfront s hs).1.step hinv (hkeeps s hs) hstep
      exact ⟨halive, halive.not_useAfterDestroy (hinv.step hstep)⟩

/-! ## A client that does not wait -/

/-- The client closes its connection behind the request, and is removed before its
backend replies. -/
theorem responders_not_alive :
    ¬ ∀ (fb64 : Http2.Fb64) (find : Find) (events : List Event), AlwaysAlive fb64 find events := by
  intro hall
  have hran : (System.run noFb64 .first
      [.connect, .request 0 getRoot, .clientClose 0, .remove_dead_clients]).toOption.map
      (fun s => ((s.proxy.handlers 0).map (·.responder_), (s.clients 0).isNone)) =
        some (some 0, true) := by decide +kernel
  cases hrun : System.run noFb64 .first
      [.connect, .request 0 getRoot, .clientClose 0, .remove_dead_clients] with
  | error e =>
      rw [hrun] at hran
      cases hran
  | ok s =>
      rw [hrun] at hran
      simp only [Except.toOption, Option.map_some, Option.some.injEq, Prod.mk.injEq,
        Option.map_eq_some_iff, Option.isNone_iff_eq_none] at hran
      obtain ⟨⟨perRequest, hhandler, hresponder⟩, hgone⟩ := hran
      obtain ⟨halive, -⟩ := hall _ _ _ _ List.prefix_rfl s hrun
      obtain ⟨w, hw, -⟩ := halive 0 perRequest hhandler
      rw [hresponder, hgone] at hw
      cases hw

end Shitty.Proxy
