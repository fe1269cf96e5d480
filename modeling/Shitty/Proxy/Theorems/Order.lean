import Shitty.Proxy.Logic.Pipelining

/-!
# The order of responses

A client's requests are dispatched as they come, and each is answered when its backend
answers. As long as the backends answer the requests of a client one after the other,
the responses are in the order of the requests. The requests are those that come out of
a stream of pipelined octets, however it is cut. When a later one is answered first, its
response is the first one.
-/

namespace Shitty.Proxy

open Lib Http1 Http1.ServerTransport Http1.ClientTransportSource

/-- The handlers that have been made for requests of a client, in their order. -/
def requests (p : State) (client : Nat) : List Nat :=
  (p.dispatched.filter fun entry => entry.2 = client).map Prod.fst

/-- The final responses that have been written. -/
def finals (w : World Unit) : List Response := w.sent.filter isFinal

/-- The final responses of each client are the replies to its requests, in order. -/
def InOrder (s : System) : Prop :=
  ∀ client w, s.clients client = some w → ∀ (i : Nat) response, (finals w)[i]? = some response →
    ∃ handler, (requests s.proxy client)[i]? = some handler ∧
      s.replies.lookup handler = some response

/-- When a step is in turn: a backend's reply is final and, while the client it is for is
open, for the oldest of the client's outstanding requests, and no request on an open
connection has an expectation that is refused. -/
def InTurn (find : Find) (s : System) : Event → Prop
  | .request client msg => ∀ w, s.clients client = some w → w.isOpen = true → ¬ Refused find msg
  | .reply backend response =>
      (s.proxy.source.transports backend).isOpen = true →
      (s.proxy.source.transports backend).unanswered ≠ [] →
        isFinal response = true ∧ ∀ handler perRequest w,
          (s.proxy.source.transports backend).handler_ = some handler →
          s.proxy.handlers handler = some perRequest →
          s.clients perRequest.responder_ = some w → w.isOpen = true →
            ∀ other perRequest', s.proxy.handlers other = some perRequest' →
              perRequest'.responder_ = perRequest.responder_ → handler ≤ other
  | _ => True

/-! ## The invariant -/

structure Ordered (s : System) : Prop extends Inv s where
  /-- A transport has at most one request to be answered, the one its handler has sent. -/
  single : ∀ t, (s.proxy.source.transports t).unanswered = [] ∨
    ∃ handler request, (s.proxy.source.transports t).unanswered = [(handler, request)] ∧
      (s.proxy.source.transports t).handler_ = some handler
  sorted : (s.proxy.dispatched.map Prod.fst).Pairwise (· < ·)
  known : ∀ entry ∈ s.proxy.dispatched, entry.1 < s.proxy.next ∧ entry.2 < s.next
  there : ∀ client w, s.clients client = some w → client < s.next
  outstanding : ∀ handler perRequest, s.proxy.handlers handler = some perRequest →
    (handler, perRequest.responder_) ∈ s.proxy.dispatched
  replied : ∀ entry ∈ s.replies, s.proxy.handlers entry.1 = none ∧ entry.1 < s.proxy.next
  order : InOrder s
  /-- The requests of an open client that have been answered are the first ones. -/
  answered : ∀ client w, s.clients client = some w → w.isOpen = true →
    ∀ (i : Nat) handler, (requests s.proxy client)[i]? = some handler →
      (i < (finals w).length ↔ s.proxy.handlers handler = none)

theorem ordered_new : Ordered {} where
  toInv := inv_new
  single _ := .inl rfl
  sorted := .nil
  known _ h := by cases h
  there _ _ h := by cases h
  outstanding _ _ h := by cases h
  replied _ h := by cases h
  order _ _ h := by cases h
  answered _ _ h := by cases h

section

variable {s s' : System}

theorem mem_requests {p : State} {client handler : Nat} :
    handler ∈ requests p client ↔ (handler, client) ∈ p.dispatched := by
  simp [requests]

/-- A handler has been made for one client. -/
theorem Ordered.client_unique (h : Ordered s) {handler a b : Nat}
    (ha : (handler, a) ∈ s.proxy.dispatched) (hb : (handler, b) ∈ s.proxy.dispatched) : a = b := by
  have hnodup : (s.proxy.dispatched.map Prod.fst).Nodup := h.sorted.imp Nat.ne_of_lt
  exact congrArg Prod.snd (List.inj_on_of_nodup_map hnodup ha hb rfl)

theorem Ordered.requests_sorted (h : Ordered s) (client : Nat) :
    (requests s.proxy client).Pairwise (· < ·) :=
  h.sorted.sublist (List.filter_sublist.map Prod.fst)

/-- No more final responses than requests. -/
theorem InOrder.length_le (h : InOrder s) {client : Nat} {w : World Unit}
    (hw : s.clients client = some w) : (finals w).length ≤ (requests s.proxy client).length := by
  by_contra hlt
  obtain ⟨handler, hhandler, -⟩ := h client w hw (requests s.proxy client).length _
    (List.getElem?_eq_getElem (Nat.not_le.mp hlt))
  rw [List.getElem?_eq_none (Nat.le_refl _)] at hhandler
  cases hhandler

/-- The oldest outstanding request of a client is the first without a final response. -/
theorem Ordered.oldest (h : Ordered s) {handler : Nat} {perRequest : PerRequestProxyHandler}
    (hhandler : s.proxy.handlers handler = some perRequest) {w : World Unit}
    (hw : s.clients perRequest.responder_ = some w) (hopen : w.isOpen = true)
    (holdest : ∀ other perRequest', s.proxy.handlers other = some perRequest' →
      perRequest'.responder_ = perRequest.responder_ → handler ≤ other) :
    (requests s.proxy perRequest.responder_)[(finals w).length]? = some handler := by
  have hanswered := h.answered _ w hw hopen
  obtain ⟨i, hi⟩ := List.mem_iff_getElem?.mp
    (mem_requests.mpr (h.outstanding handler perRequest hhandler))
  have hle : (finals w).length ≤ i := by
    by_contra hlt
    have hnone := (hanswered i handler hi).mp (Nat.not_le.mp hlt)
    rw [hhandler] at hnone
    cases hnone
  obtain ⟨hilt, hget⟩ := List.getElem?_eq_some_iff.mp hi
  have hklt : (finals w).length < (requests s.proxy perRequest.responder_).length := by omega
  have hk := List.getElem?_eq_getElem hklt
  -- the first without a response is outstanding as well
  cases hother : s.proxy.handlers (requests s.proxy perRequest.responder_)[(finals w).length] with
  | none => exact absurd ((hanswered _ _ hk).mpr hother) (Nat.lt_irrefl _)
  | some perRequest' =>
      have hsame : perRequest'.responder_ = perRequest.responder_ :=
        h.client_unique (h.outstanding _ _ hother) (mem_requests.mp (List.getElem_mem hklt))
      have hsmall := holdest _ perRequest' hother hsame
      rcases Nat.lt_or_eq_of_le hle with hlt | heq
      · have hsorted := (List.pairwise_iff_getElem.mp (h.requests_sorted perRequest.responder_))
          _ i hklt hilt hlt
        rw [hget] at hsorted
        omega
      · rw [heq, hi]

/-! ## Steps that answer nothing -/

/-- Nothing final is written to a closed connection. -/
theorem finals_interim {w w' : World Unit} (hwrites : Writes w w')
    (hinterim : w.isOpen = true → Interim w w') : finals w' = finals w := by
  by_cases hopen : w.isOpen = true
  · exact hinterim hopen
  · obtain ⟨more, hmore, hnone⟩ := hwrites.sent
    rw [Bool.not_eq_true] at hopen
    rw [finals, hmore, hnone hopen, List.append_nil, finals]

/-- The clients are the same, or closed, as far as final responses go. -/
def Same (clients clients' : Nat → Option (World Unit)) : Prop :=
  ∀ client w', clients' client = some w' →
    ∃ w, clients client = some w ∧ finals w' = finals w ∧ (w'.isOpen = true → w.isOpen = true)

theorem same_update {clients : Nat → Option (World Unit)} {client : Nat} {w w' : World Unit}
    (hw : clients client = some w) (hfinals : finals w' = finals w)
    (hopen : w'.isOpen = true → w.isOpen = true) :
    Same clients (Function.update clients client (some w')) := by
  intro other w₁ hw₁
  by_cases hsame : other = client
  · subst hsame
    rw [Function.update_self] at hw₁
    cases hw₁
    exact ⟨w, hw, hfinals, hopen⟩
  · rw [Function.update_of_ne hsame] at hw₁
    exact ⟨w₁, hw₁, rfl, fun h => h⟩

/-- No handler is made and none is destroyed. -/
theorem Ordered.same (h : Ordered s) (hinv : Inv s') (hclients : Same s.clients s'.clients)
    (hnext : s.next ≤ s'.next) (hhandlers : s'.proxy.handlers = s.proxy.handlers)
    (hproxy : s'.proxy.next = s.proxy.next) (hdispatched : s'.proxy.dispatched = s.proxy.dispatched)
    (htransports : ∀ t, (s'.proxy.source.transports t).unanswered =
        (s.proxy.source.transports t).unanswered ∧
      (s'.proxy.source.transports t).handler_ = (s.proxy.source.transports t).handler_)
    (hreplies : s'.replies = s.replies) : Ordered s' := by
  have hrequests : ∀ client, requests s'.proxy client = requests s.proxy client := fun client => by
    rw [requests, hdispatched, requests]
  exact
    { hinv with
      single := by
        intro t
        rw [(htransports t).1, (htransports t).2]
        exact h.single t
      sorted := by
        rw [hdispatched]
        exact h.sorted
      known := by
        intro entry hentry
        rw [hdispatched] at hentry
        rw [hproxy]
        exact ⟨(h.known entry hentry).1, Nat.lt_of_lt_of_le (h.known entry hentry).2 hnext⟩
      there := by
        intro client w' hw'
        obtain ⟨w, hw, -⟩ := hclients client w' hw'
        exact Nat.lt_of_lt_of_le (h.there client w hw) hnext
      outstanding := by
        rw [hhandlers, hdispatched]
        exact h.outstanding
      replied := by
        rw [hreplies, hhandlers, hproxy]
        exact h.replied
      order := by
        intro client w' hw' i response hi
        obtain ⟨w, hw, hfinals, -⟩ := hclients client w' hw'
        rw [hrequests, hreplies]
        exact h.order client w hw i response (hfinals ▸ hi)
      answered := by
        intro client w' hw' hopen i handler hi
        obtain ⟨w, hw, hfinals, hback⟩ := hclients client w' hw'
        rw [hrequests] at hi
        rw [hfinals, hhandlers]
        exact h.answered client w hw (hback hopen) i handler hi }

/-- A new client has no requests and no responses. -/
theorem Ordered.connect (h : Ordered s) (fb64 : Http2.Fb64) (find : Find)
    (hstep : System.step fb64 find s .connect = .ok s') : Ordered s' := by
  have hinv := h.toInv.step hstep
  cases hstep
  have hnone : requests s.proxy s.next = [] := by
    rw [List.eq_nil_iff_forall_not_mem]
    intro handler hmem
    exact Nat.lt_irrefl _ (h.known _ (mem_requests.mp hmem)).2
  exact
    { hinv with
      single := h.single
      sorted := h.sorted
      known := by
        intro entry hentry
        exact ⟨(h.known entry hentry).1, Nat.lt_succ_of_lt (h.known entry hentry).2⟩
      there := by
        intro client w hw
        by_cases hsame : client = s.next
        · rw [hsame]
          exact Nat.lt_succ_self _
        · have hold : Function.update s.clients s.next (some { app := () }) client = some w := hw
          rw [Function.update_of_ne hsame] at hold
          exact Nat.lt_succ_of_lt (h.there client w hold)
      outstanding := h.outstanding
      replied := h.replied
      order := by
        intro client w hw i response hi
        by_cases hsame : client = s.next
        · have hnew : Function.update s.clients s.next (some { app := () }) client = some w := hw
          rw [hsame, Function.update_self] at hnew
          cases hnew
          cases hi
        · have hold : Function.update s.clients s.next (some { app := () }) client = some w := hw
          rw [Function.update_of_ne hsame] at hold
          exact h.order client w hold i response hi
      answered := by
        intro client w hw hopen i handler hi
        by_cases hsame : client = s.next
        · rw [hsame] at hi
          have hi' : (requests s.proxy s.next)[i]? = some handler := hi
          rw [hnone] at hi'
          cases hi'
        · have hold : Function.update s.clients s.next (some { app := () }) client = some w := hw
          rw [Function.update_of_ne hsame] at hold
          exact h.answered client w hold hopen i handler hi }

/-! ## Requests -/

/-- The request is the client's last one. -/
theorem Constructs.requests_eq {p p' : State} {client t : Nat} {request : Request}
    (h : Constructs p client request t p') (other : Nat) :
    requests p' other = requests p other ++ if client = other then [p.next] else [] := by
  rw [requests, h.dispatched, List.filter_append, List.map_append, ← requests]
  by_cases hsame : client = other
  · simp [hsame]
  · simp [hsame]

/-- The transport was idle, so it is asked for nothing else. -/
theorem Ordered.asked_single (h : Ordered s) {client t : Nat} {request : Request}
    (hconstructs : Constructs s.proxy client request t s'.proxy) :
    (s'.proxy.source.transports t).unanswered = [] ∨
      ∃ handler request, (s'.proxy.source.transports t).unanswered = [(handler, request)] ∧
        (s'.proxy.source.transports t).handler_ = some handler := by
  have hfree : (s.proxy.source.transports t).handler_ = none := h.pooled.idle t hconstructs.free
  have hempty : (s.proxy.source.transports t).unanswered = [] := by
    rcases h.single t with hempty | ⟨_, _, -, hhandler⟩
    · exact hempty
    · rw [hfree] at hhandler
      cases hhandler
  rw [hconstructs.transports, Function.update_self]
  unfold asked
  rw [hempty]
  by_cases hopen : (s.proxy.source.transports t).isOpen = true
  · exact .inr ⟨_, request, if_pos hopen, rfl⟩
  · exact .inl (if_neg hopen)

theorem Ordered.constructs (h : Ordered s) (hinv : Inv s') {client t : Nat} {request : Request}
    {w w' : World Unit} (hw : s.clients client = some w)
    (hclients : s'.clients = Function.update s.clients client (some w'))
    (hfinals : finals w' = finals w) (hopen : w'.isOpen = true → w.isOpen = true)
    (hnext : s'.next = s.next) (hreplies : s'.replies = s.replies)
    (hconstructs : Constructs s.proxy client request t s'.proxy) : Ordered s' := by
  have hold : ∀ entry ∈ s.proxy.dispatched,
      s'.proxy.handlers entry.1 = s.proxy.handlers entry.1 := by
    intro entry hentry
    rw [hconstructs.handlers, Function.update_of_ne (Nat.ne_of_lt (h.known entry hentry).1)]
  have hsame : Same s.clients s'.clients := hclients ▸ same_update hw hfinals hopen
  exact
    { hinv with
      single := by
        intro u
        by_cases hu : u = t
        · exact hu ▸ h.asked_single hconstructs
        · rw [hconstructs.transports, Function.update_of_ne hu]
          exact h.single u
      sorted := by
        rw [hconstructs.dispatched, List.map_append, List.pairwise_append]
        refine ⟨h.sorted, List.pairwise_singleton _ _, ?_⟩
        intro handler hhandler other hother
        obtain ⟨entry, hentry, rfl⟩ := List.mem_map.mp hhandler
        rw [List.map_singleton, List.mem_singleton] at hother
        rw [hother]
        exact (h.known entry hentry).1
      known := by
        intro entry hentry
        rw [hconstructs.dispatched, List.mem_append, List.mem_singleton] at hentry
        rw [hconstructs.next, hnext]
        rcases hentry with hentry | rfl
        · exact ⟨Nat.lt_succ_of_lt (h.known entry hentry).1, (h.known entry hentry).2⟩
        · exact ⟨Nat.lt_succ_self _, h.there client w hw⟩
      there := by
        intro other w₁ hw₁
        obtain ⟨w₀, hw₀, -⟩ := hsame other w₁ hw₁
        rw [hnext]
        exact h.there other w₀ hw₀
      outstanding := by
        intro handler perRequest hhandler
        rw [hconstructs.dispatched, List.mem_append, List.mem_singleton]
        rw [hconstructs.handlers] at hhandler
        by_cases hnew : handler = s.proxy.next
        · subst hnew
          rw [Function.update_self] at hhandler
          cases hhandler
          exact .inr rfl
        · rw [Function.update_of_ne hnew] at hhandler
          exact .inl (h.outstanding handler perRequest hhandler)
      replied := by
        intro entry hentry
        rw [hreplies] at hentry
        obtain ⟨hnone, hlt⟩ := h.replied entry hentry
        rw [hconstructs.next, hconstructs.handlers, Function.update_of_ne (Nat.ne_of_lt hlt)]
        exact ⟨hnone, Nat.lt_succ_of_lt hlt⟩
      order := by
        intro other w₁ hw₁ i response hi
        obtain ⟨w₀, hw₀, hfinals₀, -⟩ := hsame other w₁ hw₁
        obtain ⟨handler, hhandler, hlookup⟩ := h.order other w₀ hw₀ i response (hfinals₀ ▸ hi)
        obtain ⟨hlt, -⟩ := List.getElem?_eq_some_iff.mp hhandler
        rw [hconstructs.requests_eq, hreplies]
        exact ⟨handler, by rw [List.getElem?_append_left hlt]; exact hhandler, hlookup⟩
      answered := by
        intro other w₁ hw₁ hopen₁ i handler hi
        obtain ⟨w₀, hw₀, hfinals₀, hback⟩ := hsame other w₁ hw₁
        rw [hconstructs.requests_eq] at hi
        rw [hfinals₀]
        by_cases hlt : i < (requests s.proxy other).length
        · rw [List.getElem?_append_left hlt] at hi
          rw [hold _ (mem_requests.mp (List.mem_of_getElem? hi))]
          exact h.answered other w₀ hw₀ (hback hopen₁) i handler hi
        · -- the new request has no response
          have hge := Nat.not_lt.mp hlt
          rw [List.getElem?_append_right hge] at hi
          have hmem := List.mem_of_getElem? hi
          have hnew : handler = s.proxy.next := by
            split at hmem
            · exact List.mem_singleton.mp hmem
            · cases hmem
          have hlength := h.order.length_le hw₀
          rw [hnew, hconstructs.handlers, Function.update_self]
          exact ⟨fun hi' => by omega, fun hnone => by cases hnone⟩ }

/-! ## Replies -/

theorem finals_write {w : World Unit} {response : Response} (hfinal : isFinal response = true) :
    finals (w.write [response]) =
      if w.isOpen = true then finals w ++ [response] else finals w := by
  unfold finals World.write
  split
  · rw [List.filter_append, List.filter_singleton, hfinal]
    rfl
  · rfl

/-- A final response to the only request of a backend, which is the oldest outstanding
one of its client. -/
structure Settles (s : System) (response : Response) (handler : Nat)
    (perRequest : PerRequestProxyHandler) (w : World Unit) (s' : System) : Prop where
  final : isFinal response = true
  outstanding : s.proxy.handlers handler = some perRequest
  client : s.clients perRequest.responder_ = some w
  oldest : w.isOpen = true →
    (requests s.proxy perRequest.responder_)[(finals w).length]? = some handler
  clients : s'.clients =
    Function.update s.clients perRequest.responder_ (some (w.write [response]))
  next : s'.next = s.next
  replies : s'.replies = s.replies ++ [(handler, response)]
  handlers : s'.proxy.handlers = Function.update s.proxy.handlers handler none
  dispatched : s'.proxy.dispatched = s.proxy.dispatched
  proxy_next : s'.proxy.next = s.proxy.next
  single : ∀ t, (s'.proxy.source.transports t).unanswered = [] ∨
    ((s'.proxy.source.transports t).unanswered = (s.proxy.source.transports t).unanswered ∧
      (s'.proxy.source.transports t).handler_ = (s.proxy.source.transports t).handler_)

/-- The request that is answered is the one of the handler. -/
theorem Ordered.settles (h : Ordered s) {find : Find} {backend : Nat} {response : Response}
    {handler responder : Nat} (hturn : InTurn find s (.reply backend response))
    (hreplies : Replies find backend response s handler responder s') :
    ∃ perRequest w, Settles s response handler perRequest w s' := by
  obtain ⟨first, request, rest, hlist, hhandles⟩ := hreplies.answers
  obtain ⟨hfinal, holdest⟩ := hturn hreplies.isOpen (by rw [hlist]; simp)
  have htransport := hhandles.transport
  rw [answer_transports] at htransport
  obtain ⟨rfl, rfl⟩ : first = handler ∧ rest = [] := by
    rcases h.single backend with hempty | ⟨_, _, hsingle, hhandler⟩
    · rw [hlist] at hempty
      cases hempty
    · rw [htransport] at hhandler
      cases hhandler
      rw [hlist] at hsingle
      cases hsingle
      exact ⟨rfl, rfl⟩
  obtain ⟨perRequest, hhandler, rfl⟩ := hhandles.perRequest
  rw [answer_handlers] at hhandler
  obtain ⟨w, hw, -, hclients⟩ := hhandles.clients
  rw [answer_clients] at hw hclients
  refine ⟨perRequest, w, {
    final := hfinal
    outstanding := hhandler
    client := hw
    oldest := fun hopen => h.oldest hhandler hw hopen
      (holdest first perRequest w htransport hhandler hw hopen)
    clients := hclients
    next := by rw [hhandles.next, answer_next]
    replies := by rw [hhandles.replies, answer_replies, if_pos hfinal]
    handlers := by rw [hhandles.handlers, answer_handlers]
    dispatched := by rw [hhandles.dispatched, answer_dispatched]
    proxy_next := by rw [hhandles.proxy_next, answer_proxy_next]
    single := ?_ }⟩
  intro t
  rw [hhandles.transports]
  by_cases ht : t = backend
  · subst ht
    left
    rw [Function.update_self]
    simp only [answer_transports, hfinal, hlist, and_self, if_true, List.tail_cons]
  · right
    rw [Function.update_of_ne ht, answer_transports]
    simp only [ht, and_false, if_false, and_self]

section

variable {response : Response} {handler : Nat} {perRequest : PerRequestProxyHandler}
  {w : World Unit}

theorem Settles.requests_eq (hs : Settles s response handler perRequest w s') (client : Nat) :
    requests s'.proxy client = requests s.proxy client := by
  rw [requests, hs.dispatched, requests]

/-- The client's own transport has been written to, the others are as they were. -/
theorem Settles.client_cases (hs : Settles s response handler perRequest w s') {client : Nat}
    {w' : World Unit} (hw' : s'.clients client = some w') :
    (client = perRequest.responder_ ∧ w' = w.write [response]) ∨
      (client ≠ perRequest.responder_ ∧ s.clients client = some w') := by
  rw [hs.clients] at hw'
  by_cases hsame : client = perRequest.responder_
  · subst hsame
    rw [Function.update_self] at hw'
    cases hw'
    exact .inl ⟨rfl, rfl⟩
  · rw [Function.update_of_ne hsame] at hw'
    exact .inr ⟨hsame, hw'⟩

/-- The handler is destroyed, the others are as they were. -/
theorem Settles.handler_ne (hs : Settles s response handler perRequest w s') {other : Nat}
    (hother : other ≠ handler) : s'.proxy.handlers other = s.proxy.handlers other := by
  rw [hs.handlers, Function.update_of_ne hother]

theorem Settles.handler_self (hs : Settles s response handler perRequest w s') :
    s'.proxy.handlers handler = none := by
  rw [hs.handlers, Function.update_self]

/-- What has been replied before stays so. -/
theorem Settles.lookup (hs : Settles s response handler perRequest w s') {other : Nat}
    {answered : Response} (hother : s.replies.lookup other = some answered) :
    s'.replies.lookup other = some answered := by
  rw [hs.replies, List.lookup_append, hother, Option.some_or]

/-- Nothing has been replied to the handler before. -/
theorem Settles.lookup_self (h : Ordered s) (hs : Settles s response handler perRequest w s') :
    s'.replies.lookup handler = some response := by
  have hnone : s.replies.lookup handler = none := by
    rw [List.lookup_eq_none_iff]
    intro entry hentry
    have hgone := (h.replied entry hentry).1
    rw [bne_iff_ne]
    rintro rfl
    rw [hs.outstanding] at hgone
    cases hgone
  rw [hs.replies, List.lookup_append, hnone, Option.none_or]
  simp

theorem Settles.order (h : Ordered s) (hs : Settles s response handler perRequest w s') :
    InOrder s' := by
  intro client w' hw' i answered hi
  rw [hs.requests_eq]
  have hbefore : ∀ {client w}, s.clients client = some w → (finals w)[i]? = some answered →
      ∃ other, (requests s.proxy client)[i]? = some other ∧
        s'.replies.lookup other = some answered := by
    intro client w hw hi
    obtain ⟨other, hother, hlookup⟩ := h.order client w hw i answered hi
    exact ⟨other, hother, hs.lookup hlookup⟩
  rcases hs.client_cases hw' with ⟨rfl, rfl⟩ | ⟨-, hw⟩
  · rw [finals_write hs.final] at hi
    by_cases hopen : w.isOpen = true
    · rw [if_pos hopen] at hi
      by_cases hlt : i < (finals w).length
      · rw [List.getElem?_append_left hlt] at hi
        exact hbefore hs.client hi
      · -- the response just written
        have hge := Nat.not_lt.mp hlt
        rw [List.getElem?_append_right hge] at hi
        obtain ⟨hzero, heq⟩ := List.getElem?_eq_some_iff.mp hi
        have hlast : i = (finals w).length := by
          rw [List.length_singleton] at hzero
          omega
        rw [List.getElem_singleton] at heq
        subst heq
        exact ⟨handler, hlast ▸ hs.oldest hopen, hs.lookup_self h⟩
    · rw [if_neg hopen] at hi
      exact hbefore hs.client hi
  · exact hbefore hw hi

/-- There is one request of the handler. -/
theorem Settles.index_iff (h : Ordered s) (hs : Settles s response handler perRequest w s')
    (hopen : w.isOpen = true) {i other : Nat}
    (hi : (requests s.proxy perRequest.responder_)[i]? = some other) :
    other = handler ↔ i = (finals w).length := by
  have hoccurs := hs.oldest hopen
  constructor
  · rintro rfl
    have hnodup := (h.requests_sorted perRequest.responder_).imp Nat.ne_of_lt
    obtain ⟨hilt, higet⟩ := List.getElem?_eq_some_iff.mp hi
    obtain ⟨hklt, hkget⟩ := List.getElem?_eq_some_iff.mp hoccurs
    exact (List.Nodup.getElem_inj_iff hnodup).mp (by rw [higet, hkget])
  · rintro rfl
    rw [hoccurs] at hi
    exact (Option.some.inj hi).symm

theorem Settles.answered (h : Ordered s) (hs : Settles s response handler perRequest w s') :
    ∀ client w', s'.clients client = some w' → w'.isOpen = true →
      ∀ (i : Nat) other, (requests s'.proxy client)[i]? = some other →
        (i < (finals w').length ↔ s'.proxy.handlers other = none) := by
  intro client w' hw' hopen' i other hi
  rw [hs.requests_eq] at hi
  rcases hs.client_cases hw' with ⟨rfl, rfl⟩ | ⟨hne, hw⟩
  · have hopen : w.isOpen = true := (w.write_isOpen [response]).symm.trans hopen'
    rw [finals_write hs.final, if_pos hopen, List.length_append, List.length_singleton]
    have hindex := hs.index_iff h hopen hi
    have hbefore := h.answered _ w hs.client hopen i other hi
    by_cases heq : other = handler
    · have hlast := hindex.mp heq
      rw [heq, hs.handler_self]
      exact ⟨fun _ => rfl, fun _ => by omega⟩
    · have hother : i ≠ (finals w).length := fun hlast => heq (hindex.mpr hlast)
      rw [hs.handler_ne heq, ← hbefore]
      omega
  · have hother : other ≠ handler := by
      rintro rfl
      exact hne (h.client_unique (mem_requests.mp (List.mem_of_getElem? hi))
        (h.outstanding _ _ hs.outstanding))
    rw [hs.handler_ne hother]
    exact h.answered client w' hw hopen' i other hi

end

theorem Ordered.replies (h : Ordered s) {find : Find} {backend : Nat} {response : Response}
    {handler responder : Nat} (hturn : InTurn find s (.reply backend response))
    (hreplies : Replies find backend response s handler responder s') : Ordered s' := by
  have hinv := h.toInv.replies hreplies
  obtain ⟨perRequest, w, hs⟩ := h.settles hturn hreplies
  exact
    { hinv with
      single := by
        intro t
        rcases hs.single t with hempty | ⟨hunanswered, hhandler⟩
        · exact .inl hempty
        · rw [hunanswered, hhandler]
          exact h.single t
      sorted := by
        rw [hs.dispatched]
        exact h.sorted
      known := by
        rw [hs.dispatched, hs.proxy_next, hs.next]
        exact h.known
      there := by
        intro client w' hw'
        rw [hs.next]
        rcases hs.client_cases hw' with ⟨rfl, -⟩ | ⟨-, hw⟩
        · exact h.there _ w hs.client
        · exact h.there client w' hw
      outstanding := by
        intro other perRequest' hother
        rw [hs.dispatched]
        by_cases hsame : other = handler
        · rw [hsame, hs.handler_self] at hother
          cases hother
        · rw [hs.handler_ne hsame] at hother
          exact h.outstanding other perRequest' hother
      replied := by
        intro entry hentry
        rw [hs.replies, List.mem_append, List.mem_singleton] at hentry
        rw [hs.proxy_next]
        rcases hentry with hentry | rfl
        · obtain ⟨hgone, hlt⟩ := h.replied entry hentry
          refine ⟨?_, hlt⟩
          by_cases hsame : entry.1 = handler
          · rw [hsame, hs.handler_self]
          · rw [hs.handler_ne hsame]
            exact hgone
        · exact ⟨hs.handler_self, (h.known _ (h.outstanding _ _ hs.outstanding)).1⟩
      order := hs.order h
      answered := hs.answered h }

/-! ## Runs -/

theorem same_refl (clients : Nat → Option (World Unit)) : Same clients clients :=
  fun _ w hw => ⟨w, hw, rfl, fun h => h⟩

theorem Ordered.step (h : Ordered s) {fb64 : Http2.Fb64} {find : Find} {e : Event}
    (hturn : InTurn find s e) (hstep : System.step fb64 find s e = .ok s') : Ordered s' := by
  have hinv := h.toInv.step hstep
  cases e with
  | connect => exact h.connect fb64 find hstep
  | request client msg =>
      cases request_requests h.toInv hstep with
      | unread _ hsame => exact hsame ▸ h
      | upgraded w w' hw _ hclients _ _ hwrites hinterim hproxy hnext hreplies =>
          have hfinals := finals_interim hwrites fun hopen => hinterim (hturn w hw hopen)
          refine h.same hinv (hclients ▸ same_update hw hfinals hwrites.isOpen) (Nat.le_of_eq
            hnext.symm) (by rw [hproxy]) (by rw [hproxy]) (by rw [hproxy])
            (fun t => by rw [hproxy]; exact ⟨rfl, rfl⟩) hreplies
      | routed w w' hw _ hclients _ _ hwrites hinterim hproxy hnext hreplies =>
          have hfinals := finals_interim hwrites fun hopen => hinterim (hturn w hw hopen)
          rcases hproxy with hproxy | ⟨request, t, hconstructs⟩
          · refine h.same hinv (hclients ▸ same_update hw hfinals hwrites.isOpen) (Nat.le_of_eq
              hnext.symm) (by rw [hproxy]) (by rw [hproxy]) (by rw [hproxy])
              (fun t => by rw [hproxy]; exact ⟨rfl, rfl⟩) hreplies
          · exact h.constructs hinv hw hclients hfinals hwrites.isOpen hnext hreplies hconstructs
  | reply backend response =>
      rcases reply_cases h.toInv hstep with rfl | ⟨handler, responder, hreplies⟩
      · exact h
      · exact h.replies hturn hreplies
  | clientClose client =>
      cases hstep
      refine h.same hinv ?_ (Nat.le_refl _) rfl rfl rfl (fun _ => ⟨rfl, rfl⟩) rfl
      intro other w' hw'
      by_cases hsame : other = client
      · subst hsame
        simp only [Function.update_self, Option.map_eq_some_iff] at hw'
        obtain ⟨w, hw, rfl⟩ := hw'
        exact ⟨w, hw, rfl, fun hopen => by cases hopen⟩
      · simp only [Function.update_of_ne hsame] at hw'
        exact ⟨w', hw', rfl, fun hopen => hopen⟩
  | backendClose backend =>
      simp only [System.step] at hstep
      split at hstep
      · cases hstep
        refine h.same hinv (same_refl _) (Nat.le_refl _) rfl rfl rfl (fun t => ?_) rfl
        rw [modify_transports]
        by_cases ht : t = backend
        · subst ht
          rw [Function.update_self]
          exact ⟨rfl, rfl⟩
        · rw [Function.update_of_ne ht]
          exact ⟨rfl, rfl⟩
      · cases hstep
        exact h
  | remove_dead_clients =>
      cases hstep
      refine h.same hinv ?_ (Nat.le_refl _) rfl rfl rfl (fun _ => ⟨rfl, rfl⟩) rfl
      intro client w' hw'
      obtain ⟨hw, -⟩ := Option.filter_eq_some_iff.mp hw'
      exact ⟨w', hw, rfl, fun hopen => hopen⟩

/-- Each step of a run is made in turn, as seen from the state in front of it. -/
def AlwaysInTurn (fb64 : Http2.Fb64) (find : Find) (events : List Event) : Prop :=
  ∀ front e, front ++ [e] <+: events → ∀ s, System.run fb64 find front = .ok s → InTurn find s e

theorem AlwaysInTurn.ordered {fb64 : Http2.Fb64} {find : Find} {events : List Event}
    (h : AlwaysInTurn fb64 find events) :
    ∀ front, front <+: events → ∀ s, System.run fb64 find front = .ok s → Ordered s := by
  intro front
  induction front using List.reverseRecOn with
  | nil =>
      intro _ s hs
      cases hs
      exact ordered_new
  | append_singleton front e ih =>
      intro hfront s' hs'
      obtain ⟨s, hs, hstep⟩ := Run.run_snoc_ok hs'
      have hbefore := ih ((List.prefix_append front [e]).trans hfront) s hs
      exact hbefore.step (h front e hfront s hs) hstep

theorem alwaysInTurn_nil (fb64 : Http2.Fb64) (find : Find) : AlwaysInTurn fb64 find [] := by
  intro front e hfront
  rw [List.prefix_nil, List.append_eq_nil_iff] at hfront
  cases hfront.2

theorem AlwaysInTurn.snoc {fb64 : Http2.Fb64} {find : Find} {events : List Event} {e : Event}
    (h : AlwaysInTurn fb64 find events)
    (he : ∀ s, System.run fb64 find events = .ok s → InTurn find s e) :
    AlwaysInTurn fb64 find (events ++ [e]) := by
  intro front e' hfront
  rcases List.prefix_concat_iff.mp hfront with heq | hfront
  · obtain ⟨rfl, hlast⟩ := List.append_inj' heq rfl
    cases hlast
    exact he
  · exact h front e' hfront

end

/-- Requests that are pipelined to a client's transport, as octets: however their stream is cut
into reads, what the transport makes of it is what the steps for the requests make of the state,
one after the other. -/
def Pipelines (fb64 : Http2.Fb64) (find : Find) (s : System) : Prop :=
  ∀ client w, s.clients client = some w → w.replacedBy = none →
    ∀ requests : List WireRequest,
      (∀ r ∈ requests, ¬ Asks find r.message ∧ (octets "/").isPrefixOf r.path = true) →
      (∀ r ∈ requests, r.body = []) →
      ∀ pieces : List Bytes, (∀ piece ∈ pieces, piece ≠ []) → pieces.flatten = stream requests →
        ∃ s' w', Run.run (System.step fb64 find) s
            (requests.map fun r => .request client r.message) = .ok s' ∧
          s'.clients client = some w' ∧
          ∃ t : Transport (World State),
            Transport.run find (virtual find (server fb64 find client)) pieces
                { world := withApp w s.proxy } = (t, none) ∧
              t.buf = [] ∧ t.world = withApp w' s'.proxy

/-- The i-th final response of a client is the reply to its i-th request, in every state
of a run whose steps are all in turn; and there the requests may as well be read as octets. -/
theorem responses_inOrder (fb64 : Http2.Fb64) (find : Find) {events : List Event}
    (h : AlwaysInTurn fb64 find events) :
    ∀ front, front <+: events → ∀ s, System.run fb64 find front = .ok s →
      InOrder s ∧ Pipelines fb64 find s := by
  intro front hfront s hs
  have hordered := h.ordered front hfront s hs
  refine ⟨hordered.order, fun client w hw hcurrent requests hroutes hbodies pieces hne hcut => ?_⟩
  exact run_pipelined fb64 hordered.toInv hw hcurrent hroutes hbodies hne hcut

/-- Two requests in flight, which are replied to one after the other. -/
def pipelined : List Event :=
  [.connect, .request 0 getRoot, .request 0 getRoot, .reply 0 { status_code_ := 404 }, .reply 1 {}]

theorem pipelined_inTurn : AlwaysInTurn noFb64 .first pipelined := by
  have hrequest : ¬ Refused .first getRoot := by decide +kernel
  -- the backend of the first request, and then that of the second one
  have hfirst : (System.run noFb64 .first (pipelined.take 3)).toOption.map
      (fun s => (s.proxy.source.transports 0).handler_) = some (some 0) := by decide +kernel
  have hsecond : (System.run noFb64 .first (pipelined.take 4)).toOption.map
      (fun s => ((s.proxy.source.transports 1).handler_, (s.proxy.handlers 0).isNone)) =
        some (some 1, true) := by decide +kernel
  refine (((((alwaysInTurn_nil _ _).snoc ?_).snoc ?_).snoc ?_).snoc ?_).snoc ?_
  · exact fun _ _ => trivial
  · exact fun _ _ _ _ _ => hrequest
  · exact fun _ _ _ _ _ => hrequest
  · intro s hs _ _
    refine ⟨rfl, fun handler _ _ hhandler _ _ _ other _ _ _ => ?_⟩
    have hs' : System.run noFb64 .first (pipelined.take 3) = .ok s := hs
    rw [hs'] at hfirst
    have hzero : (s.proxy.source.transports 0).handler_ = some 0 := Option.some.inj hfirst
    rw [hhandler] at hzero
    cases hzero
    exact Nat.zero_le other
  · intro s hs _ _
    refine ⟨rfl, fun handler _ _ hhandler _ _ _ other _ hother _ => ?_⟩
    have hs' : System.run noFb64 .first (pipelined.take 4) = .ok s := hs
    rw [hs'] at hsecond
    obtain ⟨hone, hnone⟩ := Prod.mk.inj (Option.some.inj hsecond)
    rw [hhandler] at hone
    cases hone
    rw [Nat.one_le_iff_ne_zero]
    rintro rfl
    rw [hother] at hnone
    cases hnone

theorem responses_inOrder_pipelined : ∃ s, System.run noFb64 .first pipelined = .ok s ∧
    InOrder s ∧ Pipelines noFb64 .first s := by
  have hran : (System.run noFb64 .first pipelined).isOk = true := by decide +kernel
  cases hrun : System.run noFb64 .first pipelined with
  | error e =>
      rw [hrun] at hran
      cases hran
  | ok s =>
      exact ⟨s, rfl, responses_inOrder noFb64 .first pipelined_inTurn _ List.prefix_rfl s hrun⟩

/-- The backend of the second request is the first to reply. -/
theorem responses_overtaken : ¬ ∀ (fb64 : Http2.Fb64) (find : Find) (events front : List Event),
    front <+: events → ∀ s, System.run fb64 find front = .ok s → InOrder s := by
  intro hall
  have hran : (System.run noFb64 .first
      [.connect, .request 0 getRoot, .request 0 getRoot, .reply 1 {}]).toOption.map
      (fun s => (s.replies.lookup 0, requests s.proxy 0, (s.clients 0).map finals)) =
        some (none, [0, 1], some [{}]) := by decide +kernel
  cases hrun : System.run noFb64 .first
      [.connect, .request 0 getRoot, .request 0 getRoot, .reply 1 {}] with
  | error e =>
      rw [hrun] at hran
      cases hran
  | ok s =>
      rw [hrun] at hran
      simp only [Except.toOption, Option.map_some, Option.some.injEq, Prod.mk.injEq,
        Option.map_eq_some_iff] at hran
      obtain ⟨hreply, hrequests, w, hw, hfinals⟩ := hran
      obtain ⟨handler, hhandler, hlookup⟩ :=
        hall _ _ _ _ List.prefix_rfl s hrun 0 w hw 0 {} (by rw [hfinals]; rfl)
      rw [hrequests] at hhandler
      cases hhandler
      rw [hreply] at hlookup
      cases hlookup

end Shitty.Proxy
