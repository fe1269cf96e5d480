import Shitty.Http1.Logic.Bodies

/-!
# HTTP/1 request framing and segmentation

Requests without a body are framed alike however the stream is cut. A request with
a body is framed as it should be exactly when one read ends between its head and the
last octet of the body, and the next one ends with the body.
-/

namespace Shitty.Http1

open Lib.Resumable Transport

variable {ω σ : Type}

/-- Every request has been given to `handleIncomingMessage` once, in order and as it
was sent; nothing is left in the buffer, and no message is pending. -/
structure Framed (requests : List WireRequest) (o : Transport ω × Option Exn) : Prop where
  returns : o.2 = none
  handled : o.1.handled = requests.map WireRequest.message
  empty : o.1.buf = []
  settled : o.1.incoming_message_ = none

/-- Of the reads that end at or behind the place where a body begins, the second ends
where the body ends. -/
def Spaced (pieces : List Bytes) (requests : List WireRequest) : Prop :=
  ∀ front r back, requests = front ++ r :: back → r.body ≠ [] →
    secondEnd pieces ((stream front).length + r.head.length) =
      some ((stream front).length + r.text.length)

/-! ## Requests from an offset on -/

/-- The bodies of requests that begin at an offset are due where they end. -/
def DueFrom (due : Nat → Option Nat) : Nat → List WireRequest → Prop
  | _, [] => True
  | start, r :: requests =>
      (r.body ≠ [] → due (start + r.head.length) = some (start + r.text.length)) ∧
        DueFrom due (start + r.text.length) requests

theorem dueFrom_iff {due : Nat → Option Nat} (requests : List WireRequest) : ∀ start : Nat,
    DueFrom due start requests ↔
      ∀ front r back, requests = front ++ r :: back → r.body ≠ [] →
        due (start + (stream front).length + r.head.length) =
          some (start + (stream front).length + r.text.length) := by
  induction requests with
  | nil =>
      intro start
      refine ⟨fun _ front r back h => absurd h ?_, fun _ => trivial⟩
      simp
  | cons q requests ih =>
      intro start
      rw [DueFrom, ih]
      constructor
      · rintro ⟨hfirst, hrest⟩ front r back hsplit hbody
        cases front with
        | nil =>
            cases hsplit
            exact hfirst hbody
        | cons p front =>
            cases hsplit
            have := hrest front r back rfl hbody
            rw [stream_cons, List.length_append, ← Nat.add_assoc]
            exact this
      · intro hall
        refine ⟨hall [] q requests rfl, fun front r back hsplit hbody => ?_⟩
        have := hall (q :: front) r back (by rw [hsplit]; rfl) hbody
        rw [stream_cons, List.length_append, ← Nat.add_assoc] at this
        exact this

/-- The virtual functions return, and leave the transport in its place. -/
structure Quiet (virtual : Virtual ω) (msg : IncomingMessage) : Prop where
  head : ∀ w, virtual.replaced w = false → ∃ w',
    virtual.onEndOfMessageHeaders msg.message.headers_ w = .ok () w' ∧ virtual.replaced w' = false
  handled : ∀ w, virtual.replaced w = false → ∃ w',
    virtual.handleIncomingMessage msg w = .ok () w' ∧ virtual.replaced w' = false

section

variable {find : Find} {virtual : Virtual ω} {due : Nat → Option Nat} {received : Nat}
  {r : WireRequest} {s : Transport ω} {rest : Bytes}

/-- What a request is for the transport, apart from its text. -/
structure Accepted (find : Find) (virtual : Virtual ω) (r : WireRequest) : Prop where
  quiet : Quiet virtual r.message
  stays : closes find r.message = false

/-- A request without a body is handled, and behind it the transport is between two messages
again. -/
theorem request_handled (due : Nat → Option Nat) (received : Nat)
    (hr : Accepted find virtual r) (hbody : r.body = [])
    (hs : s.incoming_message_ = none) (hreplaced : virtual.replaced s.world = false)
    (hbuf : s.buf = r.text ++ rest) :
    ∃ world, virtual.replaced world = false ∧
      Reaches (messages find virtual due) (s, received)
        (between rest (s.handled ++ [r.message]) world, received) := by
  obtain ⟨w, hend, hw⟩ := hr.quiet.head s.world hreplaced
  obtain ⟨w', hhandle, hw'⟩ := hr.quiet.handled w hw
  have hmsg : r.message = headOnly r.first_line r.fields := by
    rw [WireRequest.message, hbody]
    rfl
  have hlength := r.getContentLength_eq find
  rw [hbody] at hlength
  rw [WireRequest.text, hbody, List.append_nil] at hbuf
  have hstays := hr.stays
  rw [hmsg] at hhandle hstays
  have hreached := head_handled due received r.first_line_no_LF hs hreplaced hbuf hlength hend
    hhandle hw'
  rw [hstays] at hreached
  exact ⟨w', hw', by rw [hmsg]; exact hreached⟩

/-- The head of a request with a body. -/
theorem request_parked (due : Nat → Option Nat) (received : Nat)
    (hr : Accepted find virtual r) (hbody : r.body ≠ [])
    (hs : s.incoming_message_ = none) (hreplaced : virtual.replaced s.world = false)
    (hbuf : s.buf = r.text ++ rest) :
    ∃ t : Transport ω, t.Awaits (headOnly r.first_line r.fields) r.body.length ∧
      virtual.replaced t.world = false ∧ t.buf = r.body ++ rest ∧ t.handled = s.handled ∧
      Reaches (messages find virtual due) (s, received) (t, received) := by
  obtain ⟨w, hend, hw⟩ := hr.quiet.head s.world hreplaced
  have hpos := List.length_pos_iff.mpr hbody
  rw [WireRequest.text, List.append_assoc] at hbuf
  obtain ⟨last_header_, hreached⟩ := head_parked due received r.first_line_no_LF hs hreplaced hbuf
    (r.getContentLength_eq find) (by omega) hend
  exact ⟨{
    incoming_message_ := some (headOnly r.first_line r.fields)
    last_header_ := last_header_
    message_headers_complete_ := true
    expected_body_length_ := r.body.length
    buf := r.body ++ rest
    handled := s.handled
    world := w }, ⟨rfl, rfl, rfl, rfl, hpos⟩, hw, rfl, rfl, hreached⟩

/-- A body that is due anywhere but where it ends is not handled as it was sent. -/
theorem body_misplaced (hbounds : ∀ start stop, due start = some stop →
      start < stop ∧ stop ≤ received) {t : Transport ω} {msg : IncomingMessage} {length : Nat}
    (hawaits : s.Awaits msg length) (hreplaced : virtual.replaced s.world = false)
    (hinside : s.buf.length ≤ received)
    (hdue : due (received - s.buf.length) ≠ some (received - s.buf.length + length))
    (hdrains : Drains (messages find virtual due) (s, received) ((t, received), none)) :
    t.incoming_message_ ≠ none := by
  intro hsettled
  cases hwhere : due (received - s.buf.length) with
  | none =>
      have hwait : (messages find virtual due).step (s, received) = .wait :=
        Counting.wait_iff.mpr (step_later hawaits.parked fun stop hsome => by
          rw [hwhere] at hsome
          cases hsome)
      cases hdrains.unique (.wait hwait)
      rw [hawaits.message] at hsettled
      cases hsettled
  | some stop =>
      obtain ⟨hlt, hle⟩ := hbounds _ _ hwhere
      rw [hwhere, ne_eq, Option.some_inj] at hdue
      rcases Nat.lt_or_gt_of_ne hdue with hshort | hlong
      · obtain ⟨v, hfail⟩ := body_short find hawaits hreplaced hinside hwhere hlt hshort hle
        cases hdrains.unique (.fail hfail)
      · obtain ⟨v, hnext, hover⟩ := body_long find hawaits hreplaced hinside hwhere hlong hle
        exact drains_overfull (hdrains.of_next hnext) hover rfl hsettled

/-- The requests are framed as they should be exactly when their bodies are due where
they end. -/
theorem drains_framed_iff (hbounds : ∀ start stop, due start = some stop →
      start < stop ∧ stop ≤ received) {t : Transport ω} {err : Option Exn} :
    ∀ (requests : List WireRequest) (s : Transport ω),
      (∀ r ∈ requests, Accepted find virtual r) → s.incoming_message_ = none →
      virtual.replaced s.world = false → s.buf = stream requests → s.buf.length ≤ received →
      Drains (messages find virtual due) (s, received) ((t, received), err) →
      ((err = none ∧ t.handled = s.handled ++ requests.map WireRequest.message ∧ t.buf = [] ∧
        t.incoming_message_ = none) ↔ DueFrom due (received - s.buf.length) requests) := by
  intro requests
  induction requests with
  | nil =>
      intro s _ hs _ hbuf _ hdrains
      have hwait : (messages find virtual due).step (s, received) = .wait :=
        Counting.wait_iff.mpr (step_empty hbuf)
      have hunique := hdrains.unique (.wait hwait)
      cases hunique
      exact iff_of_true ⟨rfl, (List.append_nil _).symm, hbuf, hs⟩ trivial
  | cons r requests ih =>
      intro s hall hs hreplaced hbuf hinside hdrains
      have hr := hall r List.mem_cons_self
      have hothers : ∀ q ∈ requests, Accepted find virtual q :=
        fun q hq => hall q (List.mem_cons_of_mem _ hq)
      rw [stream_cons] at hbuf
      have hlen : s.buf.length = r.text.length + (stream requests).length := by
        rw [hbuf, List.length_append]
      have htext : r.text.length = r.head.length + r.body.length := List.length_append
      -- the requests behind this one
      have hbehind : ∀ w, virtual.replaced w = false →
          Drains (messages find virtual due)
            (between (stream requests) (s.handled ++ [r.message]) w, received) ((t, received), err) →
          ((err = none ∧ t.handled = s.handled ++ r.message :: requests.map WireRequest.message ∧
            t.buf = [] ∧ t.incoming_message_ = none) ↔
              DueFrom due (received - s.buf.length + r.text.length) requests) := by
        intro w hw hdrains'
        have hih := ih _ hothers rfl hw rfl (show (stream requests).length ≤ received by omega)
          hdrains'
        have hstart : received - (stream requests).length =
            received - s.buf.length + r.text.length := by omega
        simp only [between, List.append_assoc, hstart] at hih
        exact hih
      by_cases hbody : r.body = []
      · obtain ⟨w, hw, hreached⟩ := request_handled due received hr hbody hs hreplaced hbuf
        have hdrains' := (Drains.iff_of_reaches hreached).mp hdrains
        rw [DueFrom, List.map_cons]
        exact (hbehind w hw hdrains').trans ⟨fun h => ⟨fun hne => absurd hbody hne, h⟩, fun h => h.2⟩
      · obtain ⟨u, hawaits, hu, hrest, hhandled, hreached⟩ := request_parked due received
          hr hbody hs hreplaced hbuf
        have hdrains' := (Drains.iff_of_reaches hreached).mp hdrains
        have hulen : u.buf.length = r.body.length + (stream requests).length := by
          rw [hrest, List.length_append]
        have hstart : received - s.buf.length + r.head.length = received - u.buf.length := by omega
        have hstop : received - s.buf.length + r.text.length =
            received - u.buf.length + r.body.length := by omega
        rw [DueFrom, hstart, hstop]
        by_cases hdue : due (received - u.buf.length) =
            some (received - u.buf.length + r.body.length)
        · have htake : u.buf.take r.body.length = r.body := by rw [hrest, List.take_left]
          have hdrop : u.buf.drop r.body.length = stream requests := by rw [hrest, List.drop_left]
          have hmsg : IncomingMessage.append (headOnly r.first_line r.fields)
              (u.buf.take r.body.length) = r.message := by
            rw [htake]
            rfl
          obtain ⟨w, hhandle, hw⟩ := hr.quiet.handled u.world hu
          have hread := body_read find hawaits hu (by omega) (by omega) hdue
            (by rw [hmsg]; exact hhandle) hw
          rw [hmsg, hdrop, hr.stays, hhandled, if_neg Bool.false_ne_true] at hread
          have hih := hbehind w hw (hdrains'.of_next hread)
          rw [hstop] at hih
          rw [List.map_cons]
          exact hih.trans ⟨fun h => ⟨fun _ => hdue, h⟩, fun h => h.2⟩
        · -- wherever else the body is due, the message is not handled as it was sent
          refine iff_of_false ?_ fun h => hdue (h.1 hbody)
          rintro ⟨rfl, -, -, hsettled⟩
          exact body_misplaced hbounds hawaits hu (by omega) hdue hdrains' hsettled

end

/-! ## Server transports -/

section

variable {find : Find} {server : Server σ} {r : WireRequest}

/-- The request handlers return: they do not throw, and neither does `respond`, since what they
respond with has a code that there is a status line for. -/
def Server.Returns (server : Server σ) : Prop :=
  ∀ request app, ∃ responses app', server.dispatch request app = .ok (responses, app') ∧
    ∀ response ∈ responses, Sendable response

/-- A plain request is dispatched, and the transport stays where it is. -/
theorem accepted_plain (hserver : server.Returns) (hr : r.Plain) :
    Accepted find (ServerTransport.virtual find server) r := by
  have hupgrade : Headers.get r.message.message.headers_ find (octets "upgrade") = no_header :=
    r.get_none find hr.upgrade
  have hexpect : Headers.get r.message.message.headers_ find (octets "expect") = no_header :=
    r.get_none find hr.expect
  refine ⟨⟨fun w hw => ⟨w, ServerTransport.onEndOfMessageHeaders_none hexpect, hw⟩,
    fun w hw => ?_⟩, ?_⟩
  · obtain ⟨responses, app', hdispatch, hsendable⟩ := hserver
      { method_ := r.method, path_ := r.path, message_ := r.message.message } w.app
    have hstays : (w.write responses).replacedBy.isSome = false := by
      rw [w.write_replacedBy]
      exact hw
    refine ⟨{ w.write responses with app := app' }, ?_, hstays⟩
    show ServerTransport.handleIncomingMessage find server r.message w = _
    rw [ServerTransport.handleIncomingMessage_none r.parseRequestLine_first_line hupgrade,
      ServerTransport.dispatch_ok hdispatch hsendable]
  · exact beq_false_of_ne (r.not_closes find hr)

end

/-- Plain requests are framed as they were sent exactly when each body is read in two
reads: one that ends in it or right in front of it, and one that ends where it ends. -/
theorem request_framing_iff (find : Find) (server : Server σ) (hserver : server.Returns) (app : σ)
    (requests : List WireRequest) (hplain : ∀ r ∈ requests, r.Plain) (pieces : List Bytes)
    (hne : ∀ piece ∈ pieces, piece ≠ []) (hcut : pieces.flatten = stream requests) :
    Framed requests
        (run find (ServerTransport.virtual find server) pieces (ServerTransport.new app)) ↔
      Spaced pieces requests := by
  have hdrains := run_drains find (ServerTransport.virtual find server) hne
    (s := ServerTransport.new app) rfl rfl
  have hiff := drains_framed_iff (fun _ _ h => secondEnd_bounds hne h) requests _
    (fun r hr => accepted_plain hserver (hplain r hr)) rfl rfl hcut (Nat.le_refl _) hdrains
  have hzero : pieces.flatten.length - ((ServerTransport.new app).feed pieces.flatten).buf.length =
      0 := Nat.sub_self _
  rw [hzero, dueFrom_iff] at hiff
  simp only [Nat.zero_add] at hiff
  exact ⟨fun h => hiff.mp ⟨h.returns, h.handled, h.empty, h.settled⟩,
    fun h => ⟨(hiff.mpr h).1, (hiff.mpr h).2.1, (hiff.mpr h).2.2.1, (hiff.mpr h).2.2.2⟩⟩

/-! ## A request with a body -/

/-- A server that answers every request with 200. -/
def okServer : Server Unit where
  dispatch _ _ := .ok ([{}], ())
  upgrade _ := .error (.runtime_error "internal error: new transport failed")

/-- The field `Content-Length: 2`, for a body of two octets. -/
def lengthField : Field where
  name := octets "Content-Length"
  value := octets "2"
  name_ne := by decide +kernel
  name_colon := by decide +kernel
  name_line := by decide +kernel
  name_front := by decide +kernel
  value_line := by decide +kernel
  value_front := by decide +kernel
  value_back := by decide +kernel

/-- A request with the method `POST` and a body of two octets. -/
def post : WireRequest where
  method := octets "POST"
  path := octets "/"
  fields := [lengthField]
  body := octets "hi"
  method_space := by decide +kernel
  method_line := by decide +kernel
  path_space := by decide +kernel
  path_line := by decide +kernel
  content_length := by decide +kernel
  no_body := by decide +kernel
  not_chunked := by decide +kernel
  body_fits := by decide +kernel

theorem post_plain : post.Plain := ⟨by decide +kernel, by decide +kernel, by decide +kernel⟩

theorem sendable_ok : ∀ response ∈ [({} : Response)], Sendable response := by decide

theorem okServer_returns : okServer.Returns := fun _ _ => ⟨_, _, rfl, sendable_ok⟩

/-- The body comes with the head, in one read, and is never looked at. -/
theorem request_framing_one_read :
    okServer.Returns ∧ post.Plain ∧ post.text ≠ [] ∧ [post.text].flatten = stream [post] ∧
      ¬ Framed [post]
        (run Find.first (ServerTransport.virtual Find.first okServer) [post.text]
          (ServerTransport.new ())) := by
  refine ⟨okServer_returns, post_plain, by decide +kernel, rfl, fun h => ?_⟩
  have hhandled := h.handled
  revert hhandled
  decide +kernel

/-- Head and body come in one read each. -/
theorem request_framing_two_reads :
    Framed [post]
      (run Find.first (ServerTransport.virtual Find.first okServer) [post.head, post.body]
        (ServerTransport.new ())) := by
  refine (request_framing_iff Find.first okServer okServer_returns () [post] ?_
    [post.head, post.body] (by decide +kernel) (by decide +kernel)).mpr ?_
  · intro r hr
    rw [List.mem_singleton.mp hr]
    exact post_plain
  · intro front r back hsplit _
    obtain ⟨rfl, h⟩ : front = [] ∧ r = post := by
      cases front with
      | nil =>
          cases hsplit
          exact ⟨rfl, rfl⟩
      | cons q front => exact absurd (congrArg List.length hsplit) (by simp)
    rw [h]
    decide +kernel

end Shitty.Http1
