import Shitty.Http1.Logic.Heads

/-!
# Requests without a body

However a stream of such requests is cut, the virtual functions are called for one
request after the other: what they make of the world is a fold over the requests. A
request whose handler throws is the last one, and its exception ends the run. A part of
a request behind the others is kept, and nothing is done with it.
-/

namespace Shitty.Http1.Transport

open Lib.Resumable

variable {ω : Type} {find : Find} {virtual : Virtual ω}

/-- What the virtual functions make of the world for one request, without an exception
and without replacing the transport. -/
structure Serves (find : Find) (virtual : Virtual ω) (r : WireRequest) (w w' : ω) : Prop where
  calls : ∃ w₁ w₂, virtual.onEndOfMessageHeaders (r.fields.map Field.header) w = .ok () w₁ ∧
    virtual.handleIncomingMessage r.message w₁ = .ok () w₂ ∧ virtual.replaced w₂ = false ∧
    w' = if closes find r.message then virtual.close w₂ else w₂
  stays : virtual.replaced w' = false

/-- What the virtual functions make of the world for requests one behind the other. -/
inductive ServesAll (find : Find) (virtual : Virtual ω) : List WireRequest → ω → ω → Prop
  | nil {w} : ServesAll find virtual [] w w
  | cons {r requests w w' w''} : Serves find virtual r w w' →
      ServesAll find virtual requests w' w'' → ServesAll find virtual (r :: requests) w w''

theorem ServesAll.append {requests others : List WireRequest} {w w' w'' : ω}
    (h : ServesAll find virtual requests w w') (h' : ServesAll find virtual others w' w'') :
    ServesAll find virtual (requests ++ others) w w'' := by
  induction h with
  | nil => exact h'
  | cons hr _ ih => exact .cons hr (ih h')

theorem ServesAll.stays {requests : List WireRequest} {w w' : ω}
    (h : ServesAll find virtual requests w w') (hw : virtual.replaced w = false) :
    virtual.replaced w' = false := by
  induction h with
  | nil => exact hw
  | cons hr _ ih => exact ih hr.stays

theorem Serves.unique {r : WireRequest} {w w₁ w₂ : ω} (h : Serves find virtual r w w₁)
    (h' : Serves find virtual r w w₂) : w₁ = w₂ := by
  obtain ⟨u, v, hhead, hhandle, -, rfl⟩ := h.calls
  obtain ⟨u', v', hhead', hhandle', -, rfl⟩ := h'.calls
  rw [hhead] at hhead'
  cases hhead'
  rw [hhandle] at hhandle'
  cases hhandle'
  rfl

/-- The requests in front are served too. -/
theorem ServesAll.of_append {requests others : List WireRequest} {w w' : ω}
    (h : ServesAll find virtual (requests ++ others) w w') :
    ∃ u, ServesAll find virtual requests w u ∧ ServesAll find virtual others u w' := by
  induction requests generalizing w with
  | nil => exact ⟨w, .nil, h⟩
  | cons r requests ih =>
      cases h with
      | cons hr hrest =>
          obtain ⟨u, hfront, hback⟩ := ih hrest
          exact ⟨u, .cons hr hfront, hback⟩

theorem ServesAll.unique {requests : List WireRequest} {w w₁ w₂ : ω}
    (h : ServesAll find virtual requests w w₁) (h' : ServesAll find virtual requests w w₂) :
    w₁ = w₂ := by
  induction h with
  | nil =>
      cases h'
      rfl
  | cons hr _ ih =>
      cases h' with
      | cons hr' hrest' =>
          cases hr.unique hr'
          exact ih hrest'

/-- All requests are served, or there is a first that is not. -/
theorem serves_or_stops (find : Find) (virtual : Virtual ω) (requests : List WireRequest) :
    ∀ w, (∃ w', ServesAll find virtual requests w w') ∨
      ∃ front r w₁, front ++ [r] <+: requests ∧ ServesAll find virtual front w w₁ ∧
        ∀ w', ¬ Serves find virtual r w₁ w' := by
  induction requests with
  | nil => exact fun w => .inl ⟨w, .nil⟩
  | cons r requests ih =>
      intro w
      by_cases hr : ∃ w', Serves find virtual r w w'
      · obtain ⟨w', hr⟩ := hr
        rcases ih w' with ⟨w'', hall⟩ | ⟨front, q, w₁, hleading, hfront, hstop⟩
        · exact .inl ⟨w'', .cons hr hall⟩
        · exact .inr ⟨r :: front, q, w₁, List.cons_prefix_cons.mpr ⟨rfl, hleading⟩, .cons hr hfront,
            hstop⟩
      · exact .inr ⟨[], r, w, List.cons_prefix_cons.mpr ⟨rfl, List.nil_prefix⟩, .nil,
          fun w' hw' => hr ⟨w', hw'⟩⟩

/-! ## The consumer's way through the requests -/

section

variable {r : WireRequest} (due : Nat → Option Nat) (received : Nat)

theorem bodyless_text (hbody : r.body = []) : r.text = headText r.first_line r.fields := by
  rw [WireRequest.text, hbody, List.append_nil]
  rfl

theorem bodyless_message (hbody : r.body = []) : r.message = headOnly r.first_line r.fields := by
  rw [WireRequest.message, hbody]
  rfl

theorem bodyless_length (find : Find) (hbody : r.body = []) :
    getContentLength find (r.fields.map Field.header) = .ok 0 := by
  have hlength := r.getContentLength_eq find
  rw [hbody] at hlength
  exact hlength

theorem bodyless_reaches {requests : List WireRequest} {w w' : ω}
    (h : ServesAll find virtual requests w w') (hbodies : ∀ r ∈ requests, r.body = [])
    (rest : Bytes) : ∀ handled : List IncomingMessage, virtual.replaced w = false →
      Reaches (messages find virtual due)
        (between (stream requests ++ rest) handled w, received)
        (between rest (handled ++ requests.map WireRequest.message) w', received) := by
  induction h with
  | nil =>
      intro handled _
      rw [List.map_nil, List.append_nil]
      exact .refl
  | @cons r requests w₀ w₁ w₂ hr _ ih =>
      intro handled hreplaced
      obtain ⟨v, v', hend, hhandle, hstays, hw⟩ := hr.calls
      have hbody : r.body = [] := hbodies r List.mem_cons_self
      have hbuf : (between (stream (r :: requests) ++ rest) handled w₀).buf =
          headText r.first_line r.fields ++ (stream requests ++ rest) := by
        show stream (r :: requests) ++ rest = _
        rw [stream_cons, bodyless_text hbody, List.append_assoc]
      rw [bodyless_message hbody] at hhandle
      have hfirst := head_handled due received r.first_line_no_LF
        (s := between (stream (r :: requests) ++ rest) handled w₀) rfl hreplaced hbuf
        (bodyless_length find hbody) hend hhandle hstays
      rw [← bodyless_message hbody, ← hw] at hfirst
      have hothers := ih (fun q hq => hbodies q (List.mem_cons_of_mem _ hq))
        (handled ++ [r.message]) hr.stays
      rw [List.append_assoc] at hothers
      exact hfirst.trans hothers

/-- The first request that is not served is the last that is handled. -/
theorem bodyless_stops (hhead : ∀ headers w, ∃ w', virtual.onEndOfMessageHeaders headers w =
      .ok () w' ∧ virtual.replaced w' = virtual.replaced w)
    (hclose : ∀ w, virtual.replaced (virtual.close w) = virtual.replaced w)
    {w : ω} (hstop : ∀ w', ¬ Serves find virtual r w w') (hbody : r.body = []) (rest : Bytes)
    (handled : List IncomingMessage) (hreplaced : virtual.replaced w = false) :
    ∃ t err, Drains (messages find virtual due) (between (r.text ++ rest) handled w, received)
        ((t, received), err) ∧ t.handled = handled ++ [r.message] ∧
      (err = none → ∃ v, virtual.onEndOfMessageHeaders (r.fields.map Field.header) w = .ok () v ∧
        virtual.handleIncomingMessage r.message v = .ok () t.world) := by
  obtain ⟨v, hend, hv⟩ := hhead (r.fields.map Field.header) w
  rw [bodyless_text hbody, bodyless_message hbody]
  have hstops : ∀ w', virtual.handleIncomingMessage (headOnly r.first_line r.fields) v = .ok () w' →
      virtual.replaced w' = true := by
    intro w' hhandle
    by_contra hstays
    rw [Bool.not_eq_true] at hstays
    rw [← bodyless_message hbody] at hhandle
    refine hstop _ ⟨⟨v, w', hend, hhandle, hstays, rfl⟩, ?_⟩
    split
    · rw [hclose, hstays]
    · exact hstays
  obtain ⟨t, err, hdrains, hhandled, hcall⟩ := head_stops due received r.first_line_no_LF
    (s := between (headText r.first_line r.fields ++ rest) handled w) rfl hreplaced rfl
    (bodyless_length find hbody) hend hstops
  exact ⟨t, err, hdrains, hhandled, fun herr => ⟨v, hend, hcall herr⟩⟩

/-- Octets that are no whole request. -/
theorem part_idles (hbody : r.body = []) {part : Bytes} (hpart : part <+: r.text)
    (hne : part ≠ r.text) (handled : List IncomingMessage) {w : ω}
    (hreplaced : virtual.replaced w = false) :
    Idles find virtual due received (between part handled w) := by
  rw [bodyless_text hbody] at hpart hne
  exact head_idle find due received r.first_line_no_LF rfl hreplaced hpart hne

end

theorem bodyless_drains (due : Nat → Option Nat) (received : Nat) {requests : List WireRequest}
    {w w' : ω} (h : ServesAll find virtual requests w w')
    (hbodies : ∀ r ∈ requests, r.body = []) (hreplaced : virtual.replaced w = false)
    (handled : List IncomingMessage) :
    Drains (messages find virtual due) (between (stream requests) handled w, received)
      ((between [] (handled ++ requests.map WireRequest.message) w', received), none) := by
  have hreached := bodyless_reaches due received h hbodies [] handled hreplaced
  rw [List.append_nil] at hreached
  exact (Drains.iff_of_reaches hreached).mpr (.wait (waits_empty find virtual due received rfl))

/-- The reads of a stream from a fresh transport on. -/
theorem run_fresh (find : Find) {pieces : List Bytes} (hne : ∀ piece ∈ pieces, piece ≠ [])
    (handled : List IncomingMessage) (w : ω) {o : Transport ω × Option Exn}
    (h : Drains (messages find virtual (secondEnd pieces))
      (between pieces.flatten handled w, pieces.flatten.length) ((o.1, pieces.flatten.length), o.2)) :
    run find virtual pieces (between [] handled w) = o := by
  have hdrains := run_drains find virtual hne (s := between [] handled w) rfl rfl
  have hsame := hdrains.unique h
  simp only [Prod.mk.injEq] at hsame
  exact Prod.ext hsame.1.1 hsame.2

/-- Any cutting of requests without a body. -/
theorem run_bodyless {requests : List WireRequest} {w w' : ω}
    (h : ServesAll find virtual requests w w') (hbodies : ∀ r ∈ requests, r.body = [])
    (hreplaced : virtual.replaced w = false) {pieces : List Bytes}
    (hne : ∀ piece ∈ pieces, piece ≠ []) (hcut : pieces.flatten = stream requests)
    (handled : List IncomingMessage) :
    run find virtual pieces (between [] handled w) =
      (between [] (handled ++ requests.map WireRequest.message) w', none) := by
  refine run_fresh find hne handled w ?_
  rw [hcut]
  exact bodyless_drains _ _ h hbodies hreplaced handled

end Shitty.Http1.Transport
