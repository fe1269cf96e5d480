import Shitty.Proxy.Logic.Steps

/-!
# Pipelined requests

What the transport of a client makes of a stream of requests without a body, however it
is cut, is what the steps of the system make of the requests one after the other. So a
run of the system, in which requests come one by one, speaks of the octets that are read
from a client.
-/

namespace Shitty.Proxy

open Lib Http1 Http1.Transport Http1.ServerTransport

variable {find : Find} {client : Nat} {s : System} {w : World Unit}

theorem serve_serves {virtual : Virtual (World State)} {r : WireRequest} {v v' : World State}
    (h : serve find virtual r.message v = .ok () v') (hstays : virtual.replaced v' = false) :
    Serves find virtual r v v' := by
  obtain ⟨_, v₁, hend, h⟩ := act_bind_eq_ok.mp h
  obtain ⟨_, v₂, hhandle, h⟩ := act_bind_eq_ok.mp h
  obtain ⟨_, v₃, hget, h⟩ := act_bind_eq_ok.mp h
  cases hget
  by_cases hreplaced : virtual.replaced v₂ = true
  · rw [if_pos hreplaced] at h
    cases h
    rw [hreplaced] at hstays
    cases hstays
  · rw [if_neg hreplaced] at h
    rw [Bool.not_eq_true] at hreplaced
    refine ⟨⟨v₁, v₂, hend, hhandle, hreplaced, ?_⟩, hstays⟩
    split at h
    · rename_i hcloses
      cases h
      rw [if_pos hcloses]
    · rename_i hcloses
      cases h
      rw [if_neg hcloses]

/-- One request of a stream is one step of the proxy, and the client's transport serves it so. -/
theorem request_serves (fb64 : Http2.Fb64) (h : Inv s) (hclient : s.clients client = some w)
    (hcurrent : w.replacedBy = none) {r : WireRequest} (hasks : ¬ Asks find r.message)
    (hpath : (octets "/").isPrefixOf r.path = true) :
    ∃ s' w', System.step fb64 find s (.request client r.message) = .ok s' ∧ Inv s' ∧
      s'.clients client = some w' ∧ w'.replacedBy = none ∧
      Serves find (virtual find (server fb64 find client)) r (withApp w s.proxy)
        (withApp w' s'.proxy) := by
  have hrequest : IsRequest r.message
      { method_ := r.method, path_ := r.path, message_ := r.message.message } :=
    ⟨_, r.parseRequestLine_first_line, rfl⟩
  obtain ⟨s', w', t, hstep, hclients, hstays, hconstructs⟩ :=
    request_routes fb64 h hclient hcurrent hrequest hasks hpath
  have hclient' : s'.clients client = some w' := by rw [hclients, Function.update_self]
  refine ⟨s', w', hstep, h.constructs hconstructs, hclient', hstays, ?_⟩
  unfold System.request at hstep
  rw [hclient] at hstep
  simp only [hcurrent, Option.isSome_none, Bool.false_eq_true, if_false] at hstep
  split at hstep
  · cases hstep
  · rename_i v hserve
    cases hstep
    have hsame : withApp v () = w' := by
      have hsome : Function.update s.clients client (some (withApp v ())) client = some w' := hclient'
      rw [Function.update_self] at hsome
      exact Option.some.inj hsome
    subst hsame
    refine serve_serves hserve ?_
    show v.replacedBy.isSome = false
    rw [show v.replacedBy = none from hstays]
    rfl

theorem requests_serve (fb64 : Http2.Fb64) {requests : List WireRequest}
    (hroutes : ∀ r ∈ requests, ¬ Asks find r.message ∧ (octets "/").isPrefixOf r.path = true) :
    ∀ (s : System) (w : World Unit), Inv s → s.clients client = some w → w.replacedBy = none →
      ∃ s' w', Run.run (System.step fb64 find) s
          (requests.map fun r => .request client r.message) = .ok s' ∧
        s'.clients client = some w' ∧
        ServesAll find (virtual find (server fb64 find client)) requests (withApp w s.proxy)
          (withApp w' s'.proxy) := by
  induction requests with
  | nil => exact fun s w _ hclient _ => ⟨s, w, rfl, hclient, .nil⟩
  | cons r requests ih =>
      intro s w h hclient hcurrent
      obtain ⟨hasks, hpath⟩ := hroutes r List.mem_cons_self
      obtain ⟨s₁, w₁, hstep, h₁, hclient₁, hcurrent₁, hserves⟩ :=
        request_serves fb64 h hclient hcurrent hasks hpath
      obtain ⟨s', w', hrun, hclient', hall⟩ :=
        ih (fun q hq => hroutes q (List.mem_cons_of_mem _ hq)) s₁ w₁ h₁ hclient₁ hcurrent₁
      refine ⟨s', w', ?_, hclient', .cons hserves hall⟩
      rw [List.map_cons, Run.run_cons, hstep]
      exact hrun

/-- However a stream of requests is cut, what comes of it is what comes of the requests. -/
theorem run_pipelined (fb64 : Http2.Fb64) (h : Inv s) (hclient : s.clients client = some w)
    (hcurrent : w.replacedBy = none) {requests : List WireRequest}
    (hroutes : ∀ r ∈ requests, ¬ Asks find r.message ∧ (octets "/").isPrefixOf r.path = true)
    (hbodies : ∀ r ∈ requests, r.body = []) {pieces : List Bytes}
    (hne : ∀ piece ∈ pieces, piece ≠ []) (hcut : pieces.flatten = stream requests) :
    ∃ s' w', Run.run (System.step fb64 find) s
        (requests.map fun r => .request client r.message) = .ok s' ∧
      s'.clients client = some w' ∧
      ∃ t : Transport (World State),
        run find (virtual find (server fb64 find client)) pieces
            { world := withApp w s.proxy } = (t, none) ∧
          t.buf = [] ∧ t.world = withApp w' s'.proxy := by
  obtain ⟨s', w', hrun, hclient', hall⟩ := requests_serve fb64 hroutes s w h hclient hcurrent
  have hserves : ServesAll find (virtual find (server fb64 find client)) requests
      ({ world := withApp w s.proxy } : Transport (World State)).world (withApp w' s'.proxy) := hall
  have hstays : (virtual find (server fb64 find client)).replaced
      ({ world := withApp w s.proxy } : Transport (World State)).world = false := by
    show w.replacedBy.isSome = false
    rw [hcurrent]
    rfl
  exact ⟨s', w', hrun, hclient', _, run_bodyless hserves hbodies hstays hne hcut [], rfl, rfl⟩

end Shitty.Proxy
