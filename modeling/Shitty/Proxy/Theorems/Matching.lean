import Shitty.Proxy.Theorems.Order

/-!
# Which reply goes where

Whatever the order in which the backends reply: every client gets the replies to its own
requests, each once, in the order of the replies, and no request is lost on the way. The
invariant counts the replies to each request and knows the client of each handler. It is
kept by every step, and what the clients have got is read off it.
-/

namespace Shitty.Proxy

open Lib Http1 Http1.ServerTransport Http1.ClientTransportSource

/-- What backends have replied to the requests of a client. -/
def repliesTo (s : System) (client : Nat) : List Response :=
  (s.replies.filter fun entry => (entry.1, client) ∈ s.proxy.dispatched).map Prod.snd

/-- No reply is lost, given twice or given to another client. -/
structure Relayed (s : System) : Prop where
  once : (s.replies.map Prod.fst).Nodup
  /-- A request has been replied to, or a handler waits for the reply on a transport. -/
  kept : ∀ entry ∈ s.proxy.dispatched, entry.1 ∈ s.replies.map Prod.fst ∨
    ∃ t, (s.proxy.source.transports t).handler_ = some entry.1
  /-- Nothing is written to a connection that has been closed. -/
  own : ∀ client w, s.clients client = some w → finals w <+: repliesTo s client ∧
    (w.isOpen = true → finals w = repliesTo s client)

/-- The backend's answer is final, and the server gives no final response itself. -/
def Relays (find : Find) : Event → Prop
  | .request _ msg => ¬ Refused find msg
  | .reply _ response => isFinal response = true
  | _ => True

/-! ## The invariant -/

structure Matched (s : System) : Prop extends Inv s where
  /-- A backend has no request but that of the handler. -/
  single : ∀ t, (s.proxy.source.transports t).unanswered.map Prod.fst <+:
    (s.proxy.source.transports t).handler_.toList
  numbered : s.proxy.dispatched.map Prod.fst = List.range s.proxy.next
  owners : ∀ entry ∈ s.proxy.dispatched, entry.2 < s.next
  there : ∀ client w, s.clients client = some w → client < s.next
  outstanding : ∀ handler perRequest, s.proxy.handlers handler = some perRequest →
    (handler, perRequest.responder_) ∈ s.proxy.dispatched
  once : (s.replies.map Prod.fst).Nodup
  settled : ∀ handler, handler ∈ s.replies.map Prod.fst ↔
    handler < s.proxy.next ∧ s.proxy.handlers handler = none
  own : ∀ client w, s.clients client = some w → finals w <+: repliesTo s client ∧
    (w.isOpen = true → finals w = repliesTo s client)

theorem matched_new : Matched {} where
  toInv := inv_new
  single _ := List.nil_prefix
  numbered := rfl
  owners _ h := by cases h
  there _ _ h := by cases h
  outstanding _ _ h := by cases h
  once := .nil
  settled _ := ⟨fun h => (by cases h), fun h => absurd h.1 (Nat.not_lt_zero _)⟩
  own _ _ h := by cases h

section

variable {s s' : System}

theorem Matched.mem_dispatched (h : Matched s) {entry : Nat × Nat}
    (hentry : entry ∈ s.proxy.dispatched) : entry.1 < s.proxy.next := by
  rw [← List.mem_range, ← h.numbered]
  exact List.mem_map_of_mem hentry

/-- A request is one client's: a handler has been made for one client only. -/
theorem Matched.owner_unique (h : Matched s) {handler a b : Nat}
    (ha : (handler, a) ∈ s.proxy.dispatched) (hb : (handler, b) ∈ s.proxy.dispatched) : a = b := by
  have hnodup : (s.proxy.dispatched.map Prod.fst).Nodup := h.numbered ▸ List.nodup_range
  exact congrArg Prod.snd (List.inj_on_of_nodup_map hnodup ha hb rfl)

theorem Matched.relayed (h : Matched s) : Relayed s where
  once := h.once
  own := h.own
  kept := by
    intro entry hentry
    rw [h.settled]
    cases hhandler : s.proxy.handlers entry.1 with
    | none => exact .inl ⟨h.mem_dispatched hentry, rfl⟩
    | some perRequest =>
        obtain ⟨t, -, ht⟩ := h.waits entry.1 perRequest hhandler
        exact .inr ⟨t, ht⟩

/-! ## Steps that reply to nothing -/

/-- Clients that are the same, or closed, still have what was replied to them. -/
theorem Matched.own_same (h : Matched s) (hclients : Same s.clients s'.clients)
    (hreplies : ∀ client, repliesTo s' client = repliesTo s client) :
    ∀ client w', s'.clients client = some w' → finals w' <+: repliesTo s' client ∧
      (w'.isOpen = true → finals w' = repliesTo s' client) := by
  intro client w' hw'
  obtain ⟨w, hw, hfinals, hback⟩ := hclients client w' hw'
  obtain ⟨hpart, hall⟩ := h.own client w hw
  rw [hreplies, hfinals]
  exact ⟨hpart, fun hopen => hall (hback hopen)⟩

/-- No handler is made and none is destroyed. -/
theorem Matched.same (h : Matched s) (hinv : Inv s') (hclients : Same s.clients s'.clients)
    (hnext : s'.next = s.next) (hhandlers : s'.proxy.handlers = s.proxy.handlers)
    (hproxy : s'.proxy.next = s.proxy.next) (hdispatched : s'.proxy.dispatched = s.proxy.dispatched)
    (htransports : ∀ t, (s'.proxy.source.transports t).unanswered =
        (s.proxy.source.transports t).unanswered ∧
      (s'.proxy.source.transports t).handler_ = (s.proxy.source.transports t).handler_)
    (hreplies : s'.replies = s.replies) : Matched s' where
  toInv := hinv
  single t := by
    rw [(htransports t).1, (htransports t).2]
    exact h.single t
  numbered := by
    rw [hdispatched, hproxy]
    exact h.numbered
  owners := by
    rw [hdispatched, hnext]
    exact h.owners
  there client w' hw' := by
    obtain ⟨w, hw, -⟩ := hclients client w' hw'
    rw [hnext]
    exact h.there client w hw
  outstanding := by
    rw [hhandlers, hdispatched]
    exact h.outstanding
  once := by
    rw [hreplies]
    exact h.once
  settled := by
    rw [hreplies, hhandlers, hproxy]
    exact h.settled
  own := h.own_same hclients fun client => by rw [repliesTo, hreplies, hdispatched, repliesTo]

/-- Nothing has been dispatched for a client that is new. -/
theorem Matched.connect (h : Matched s) (fb64 : Http2.Fb64) (find : Find)
    (hstep : System.step fb64 find s .connect = .ok s') : Matched s' := by
  have hinv := h.toInv.step hstep
  cases hstep
  have hnone : repliesTo s s.next = [] := by
    rw [repliesTo, List.map_eq_nil_iff, List.filter_eq_nil_iff]
    intro entry _ hentry
    exact Nat.lt_irrefl _ (h.owners _ (of_decide_eq_true hentry))
  exact
    { h with
      toInv := hinv
      owners := fun entry hentry => Nat.lt_succ_of_lt (h.owners entry hentry)
      there := by
        intro client w hw
        by_cases hsame : client = s.next
        · rw [hsame]
          exact Nat.lt_succ_self _
        · simp only [Function.update_of_ne hsame] at hw
          exact Nat.lt_succ_of_lt (h.there client w hw)
      own := by
        intro client w hw
        by_cases hsame : client = s.next
        · subst hsame
          simp only [Function.update_self] at hw
          cases hw
          exact ⟨List.nil_prefix, fun _ => hnone.symm⟩
        · simp only [Function.update_of_ne hsame] at hw
          exact h.own client w hw }

/-! ## Requests -/

/-- Nothing has been replied to a request that is new. -/
theorem Constructs.repliesTo_eq (h : Matched s) {client t : Nat} {request : Request}
    (hreplies : s'.replies = s.replies)
    (hconstructs : Constructs s.proxy client request t s'.proxy) (other : Nat) :
    repliesTo s' other = repliesTo s other := by
  unfold repliesTo
  rw [hreplies]
  congr 1
  refine List.filter_congr fun entry hentry => ?_
  have hlt := ((h.settled entry.1).mp (List.mem_map_of_mem hentry)).1
  rw [hconstructs.dispatched]
  simp [Nat.ne_of_lt hlt]

/-- The transport was idle, so it is asked for nothing else. -/
theorem Matched.asked_single (h : Matched s) {client t : Nat} {request : Request}
    (hconstructs : Constructs s.proxy client request t s'.proxy) (u : Nat) :
    (s'.proxy.source.transports u).unanswered.map Prod.fst <+:
      (s'.proxy.source.transports u).handler_.toList := by
  rw [hconstructs.transports]
  by_cases hu : u = t
  · subst hu
    have hidle := h.single u
    rw [h.pooled.idle u hconstructs.free, Option.toList_none, List.prefix_nil,
      List.map_eq_nil_iff] at hidle
    rw [Function.update_self]
    unfold asked
    rw [hidle]
    split
    · exact List.prefix_rfl
    · exact List.nil_prefix
  · rw [Function.update_of_ne hu]
    exact h.single u

theorem Matched.constructs (h : Matched s) {client t : Nat} {request : Request}
    {w w' : World Unit} (hw : s.clients client = some w)
    (hclients : s'.clients = Function.update s.clients client (some w'))
    (hfinals : finals w' = finals w) (hopen : w'.isOpen = true → w.isOpen = true)
    (hnext : s'.next = s.next) (hreplies : s'.replies = s.replies)
    (hconstructs : Constructs s.proxy client request t s'.proxy) : Matched s' := by
  have hsame : Same s.clients s'.clients := hclients ▸ same_update hw hfinals hopen
  exact
    { toInv := h.toInv.constructs hconstructs
      single := h.asked_single hconstructs
      numbered := by
        rw [hconstructs.dispatched, hconstructs.next, List.map_append, h.numbered,
          List.range_succ]
        rfl
      owners := by
        rw [hconstructs.dispatched, hnext]
        intro entry hentry
        rcases List.mem_append.mp hentry with hentry | hentry
        · exact h.owners entry hentry
        · rw [List.mem_singleton.mp hentry]
          exact h.there client w hw
      there := by
        intro other w₁ hw₁
        obtain ⟨w₀, hw₀, -⟩ := hsame other w₁ hw₁
        rw [hnext]
        exact h.there other w₀ hw₀
      outstanding := by
        intro handler perRequest hhandler
        rw [hconstructs.dispatched, List.mem_append, List.mem_singleton]
        rw [hconstructs.handlers] at hhandler
        by_cases hnew : handler = s.proxy.next
        · subst hnew
          rw [Function.update_self] at hhandler
          cases hhandler
          exact .inr rfl
        · rw [Function.update_of_ne hnew] at hhandler
          exact .inl (h.outstanding handler perRequest hhandler)
      once := by
        rw [hreplies]
        exact h.once
      settled := by
        intro handler
        rw [hreplies, hconstructs.next, hconstructs.handlers, h.settled]
        by_cases hnew : handler = s.proxy.next
        · subst hnew
          rw [Function.update_self]
          exact ⟨fun hold => absurd hold.1 (Nat.lt_irrefl _), fun hold => by cases hold.2⟩
        · rw [Function.update_of_ne hnew]
          have hlt : handler < s.proxy.next + 1 ↔ handler < s.proxy.next := by omega
          rw [hlt]
      own := h.own_same hsame (hconstructs.repliesTo_eq h hreplies) }

/-! ## Replies -/

/-- A backend is asked for one thing at a time, so the reply is to the request of the
handler that is set. -/
theorem Matched.answers (h : Matched s) {find : Find} {backend : Nat} {response : Response}
    {handler responder : Nat} (hreplies : Replies find backend response s handler responder s') :
    ∃ request, (s.proxy.source.transports backend).unanswered = [(handler, request)] ∧
      Handles find backend response (s.answer backend handler response) handler responder s' := by
  obtain ⟨first, request, rest, hlist, hhandles⟩ := hreplies.answers
  have htransport := hhandles.transport
  rw [answer_transports] at htransport
  have hsingle := h.single backend
  rw [show (s.proxy.source.transports backend).handler_ = some handler from htransport, hlist,
    Option.toList_some, List.map_cons, List.cons_prefix_cons, List.prefix_nil,
    List.map_eq_nil_iff] at hsingle
  obtain ⟨rfl, rfl⟩ := hsingle
  exact ⟨request, hlist, hhandles⟩

/-- The reply is one more to the client whose request it answers. -/
theorem repliesTo_snoc {handler : Nat} {response : Response} {client : Nat}
    (hreplies : s'.replies = s.replies ++ [(handler, response)])
    (hdispatched : s'.proxy.dispatched = s.proxy.dispatched) :
    repliesTo s' client = repliesTo s client ++
      if (handler, client) ∈ s.proxy.dispatched then [response] else [] := by
  unfold repliesTo
  rw [hreplies, hdispatched, List.filter_append, List.map_append]
  congr 1
  by_cases hown : (handler, client) ∈ s.proxy.dispatched <;> simp [hown]

theorem Matched.replies (h : Matched s) {find : Find} {backend : Nat} {response : Response}
    {handler responder : Nat} (hfinal : isFinal response = true)
    (hreplies : Replies find backend response s handler responder s') : Matched s' := by
  obtain ⟨request, hlist, hhandles⟩ := h.answers hreplies
  obtain ⟨perRequest, hhandler, rfl⟩ := hhandles.perRequest
  obtain ⟨w, hw, -, hclients⟩ := hhandles.clients
  have hdispatched := hhandles.dispatched
  have hlog := hhandles.replies
  have hhandlers := hhandles.handlers
  rw [answer_handlers] at hhandler hhandlers
  rw [answer_clients] at hw hclients
  rw [answer_dispatched] at hdispatched
  rw [answer_replies, if_pos hfinal] at hlog
  have hmine := h.outstanding handler perRequest hhandler
  have hnew : handler ∉ s.replies.map Prod.fst := by
    rw [h.settled, hhandler]
    exact fun hgone => by cases hgone.2
  exact
    { toInv := h.toInv.replies hreplies
      single := by
        intro t
        rw [hhandles.transports]
        by_cases ht : t = backend
        · subst ht
          rw [Function.update_self]
          simp only [answer_transports, hfinal, hlist, and_self, if_true, List.tail_cons,
            List.map_nil]
          exact List.nil_prefix
        · rw [Function.update_of_ne ht, answer_transports]
          simp only [ht, and_false, if_false]
          exact h.single t
      numbered := by
        rw [hdispatched, hhandles.proxy_next, answer_proxy_next]
        exact h.numbered
      owners := by
        rw [hdispatched, hhandles.next, answer_next]
        exact h.owners
      there := by
        intro client w' hw'
        rw [hhandles.next, answer_next]
        rw [hclients] at hw'
        by_cases hsame : client = perRequest.responder_
        · rw [hsame]
          exact h.there _ w hw
        · rw [Function.update_of_ne hsame] at hw'
          exact h.there client w' hw'
      outstanding := by
        intro other perRequest' hother
        rw [hdispatched]
        rw [hhandlers] at hother
        by_cases hsame : other = handler
        · rw [hsame, Function.update_self] at hother
          cases hother
        · rw [Function.update_of_ne hsame] at hother
          exact h.outstanding other perRequest' hother
      once := by
        rw [hlog, List.map_append, List.map_singleton, List.nodup_append]
        refine ⟨h.once, List.nodup_singleton _, ?_⟩
        intro other hother _ hlast
        rw [List.mem_singleton.mp hlast]
        rintro rfl
        exact hnew hother
      settled := by
        intro other
        rw [hlog, List.map_append, List.mem_append, List.map_singleton, List.mem_singleton,
          h.settled, hhandlers, hhandles.proxy_next, answer_proxy_next]
        by_cases hsame : other = handler
        · subst hsame
          rw [Function.update_self]
          exact ⟨fun _ => ⟨h.mem_dispatched hmine, rfl⟩, fun _ => .inr rfl⟩
        · rw [Function.update_of_ne hsame]
          exact ⟨fun hgone => hgone.resolve_right hsame, .inl⟩
      own := by
        intro client w' hw'
        rw [repliesTo_snoc hlog hdispatched]
        rw [hclients] at hw'
        by_cases hsame : client = perRequest.responder_
        · subst hsame
          rw [Function.update_self] at hw'
          cases hw'
          obtain ⟨hpart, hall⟩ := h.own _ w hw
          rw [if_pos hmine, finals_write hfinal, World.write_isOpen]
          by_cases hopen : w.isOpen = true
          · rw [if_pos hopen, hall hopen]
            exact ⟨List.prefix_rfl, fun _ => rfl⟩
          · rw [if_neg hopen]
            exact ⟨hpart.trans (List.prefix_append _ _), fun h => absurd h hopen⟩
        · rw [Function.update_of_ne hsame] at hw'
          have hother : (handler, client) ∉ s.proxy.dispatched :=
            fun hown => hsame (h.owner_unique hown hmine)
          rw [if_neg hother, List.append_nil]
          exact h.own client w' hw' }

/-! ## Runs -/

theorem Matched.step (h : Matched s) {fb64 : Http2.Fb64} {find : Find} {e : Event}
    (hrelays : Relays find e) (hstep : System.step fb64 find s e = .ok s') : Matched s' := by
  have hinv := h.toInv.step hstep
  cases e with
  | connect => exact h.connect fb64 find hstep
  | request client msg =>
      cases request_requests h.toInv hstep with
      | unread _ hsame => exact hsame ▸ h
      | upgraded w w' hw _ hclients _ _ hwrites hinterim hproxy hnext hreplies =>
          have hfinals := finals_interim hwrites fun _ => hinterim hrelays
          exact h.same hinv (hclients ▸ same_update hw hfinals hwrites.isOpen) hnext
            (by rw [hproxy]) (by rw [hproxy]) (by rw [hproxy])
            (fun t => by rw [hproxy]; exact ⟨rfl, rfl⟩) hreplies
      | routed w w' hw _ hclients _ _ hwrites hinterim hproxy hnext hreplies =>
          have hfinals := finals_interim hwrites fun _ => hinterim hrelays
          rcases hproxy with hproxy | ⟨request, t, hconstructs⟩
          · exact h.same hinv (hclients ▸ same_update hw hfinals hwrites.isOpen) hnext
              (by rw [hproxy]) (by rw [hproxy]) (by rw [hproxy])
              (fun t => by rw [hproxy]; exact ⟨rfl, rfl⟩) hreplies
          · exact h.constructs hw hclients hfinals hwrites.isOpen hnext hreplies hconstructs
  | reply backend response =>
      rcases reply_cases h.toInv hstep with rfl | ⟨handler, responder, hreplies⟩
      · exact h
      · exact h.replies hrelays hreplies
  | clientClose client =>
      cases hstep
      refine h.same hinv ?_ rfl rfl rfl rfl (fun _ => ⟨rfl, rfl⟩) rfl
      intro other w' hw'
      by_cases hsame : other = client
      · subst hsame
        simp only [Function.update_self, Option.map_eq_some_iff] at hw'
        obtain ⟨w, hw, rfl⟩ := hw'
        exact ⟨w, hw, rfl, fun hopen => by cases hopen⟩
      · simp only [Function.update_of_ne hsame] at hw'
        exact ⟨w', hw', rfl, fun hopen => hopen⟩
  | backendClose backend =>
      simp only [System.step] at hstep
      split at hstep
      · cases hstep
        refine h.same hinv (same_refl _) rfl rfl rfl rfl (fun t => ?_) rfl
        rw [modify_transports]
        by_cases ht : t = backend
        · subst ht
          rw [Function.update_self]
          exact ⟨rfl, rfl⟩
        · rw [Function.update_of_ne ht]
          exact ⟨rfl, rfl⟩
      · cases hstep
        exact h
  | remove_dead_clients =>
      cases hstep
      refine h.same hinv ?_ rfl rfl rfl rfl (fun _ => ⟨rfl, rfl⟩) rfl
      intro client w' hw'
      obtain ⟨hw, -⟩ := Option.filter_eq_some_iff.mp hw'
      exact ⟨w', hw, rfl, fun hopen => hopen⟩

end

/-- In every state that is reached, with any number of clients, any requests in flight and
any order of replies, as long as these are final. -/
theorem replies_relayed (fb64 : Http2.Fb64) (find : Find) (events : List Event)
    (hrelays : ∀ e ∈ events, Relays find e) :
    ∀ s, System.run fb64 find events = .ok s → Relayed s := by
  intro s hs
  have hstep : ∀ s e s', Relays find e → Matched s → System.step fb64 find s e = .ok s' →
      Matched s' := fun _ _ _ hrelays h hstep => h.step hrelays hstep
  exact (Run.invariant_of matched_new hstep events hrelays s hs).relayed

/-- Two clients, of which one has two requests in flight, and replies from the last to the
first. -/
def overtaking : List Event :=
  [.connect, .connect, .request 0 getRoot, .request 1 getRoot, .request 0 getRoot,
    .reply 2 { status_code_ := 404 }, .reply 1 {}, .reply 0 {}]

theorem replies_relayed_overtaking : ∃ s, System.run noFb64 .first overtaking = .ok s ∧
    Relayed s := by
  have hran : (System.run noFb64 .first overtaking).isOk = true := by decide +kernel
  have hrelays : ∀ e ∈ overtaking, Relays .first e := by
    have hrequest : ¬ Refused .first getRoot := by decide +kernel
    simp only [overtaking, List.forall_mem_cons, List.not_mem_nil, false_imp_iff, implies_true,
      and_true]
    exact ⟨trivial, trivial, hrequest, hrequest, hrequest, rfl, rfl, rfl⟩
  cases hrun : System.run noFb64 .first overtaking with
  | error e =>
      rw [hrun] at hran
      cases hran
  | ok s => exact ⟨s, rfl, replies_relayed noFb64 .first overtaking hrelays s hrun⟩

end Shitty.Proxy
