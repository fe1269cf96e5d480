import Shitty.Http1.Logic.Arrivals
import Shitty.Lib.Run
import Shitty.Server.Routes

/-!
# One final response for each request

A server with static routes, and requests without a body pipelined to it. A final
response is written for a request by the route that fits, and one more when its
Expect field asks for what the server does not know; behind `Connection: close`
nothing is written any more.
-/

namespace Shitty.Http1

open Lib Transport ServerTransport

variable {σ : Type}

/-- A response is final unless its code is informational, one of those from 100 to 199. -/
def final (response : Response) : Bool :=
  response.status_code_ < 100 || 200 ≤ response.status_code_

/-- How many final responses have been written. -/
def finals (w : World σ) : Nat := (w.sent.filter final).length

/-- A server with static routes only. -/
def staticServer (table : List (Bytes × Response)) (upgrade : Request → Except Exn Http2.Impl) :
    Server σ where
  dispatch := (Routes.static table).dispatch
  upgrade := upgrade

/-- After the first requests of the list, for each number of them and however their
stream is cut, as many final responses have been written. -/
def FinalPerRequest (find : Find) (server : Server σ) (app : σ) (requests : List WireRequest) :
    Prop :=
  ∀ front, front <+: requests → ∀ pieces : List Bytes, (∀ piece ∈ pieces, piece ≠ []) →
    pieces.flatten = stream front →
    (run find (virtual find server) pieces (new app)).2 = none ∧
      finals (run find (virtual find server) pieces (new app)).1.world = front.length

section

variable (find : Find) (table : List (Bytes × Response)) (r : WireRequest)

/-- The Expect field that is found. -/
def expectation : Bytes × Bytes := Headers.get (r.fields.map Field.header) find (octets "expect")

/-- The request has an expectation other than `100-continue`, which is answered with 417. -/
def Refused : Prop := expectation find r ≠ no_header ∧ (expectation find r).2 ≠ octets "100-continue"

instance : Decidable (Refused find r) := inferInstanceAs (Decidable (_ ∧ _))

/-- The route for the request's path. -/
def route : Option (Bytes × Response) := table.find? fun route => route.1.isPrefixOf r.path

/-- There is one, and its response is final. -/
def Answered : Prop := (route table r).any (fun route => final route.2) = true

instance : Decidable (Answered table r) := inferInstanceAs (Decidable (_ = true))

/-- If there is one, there is a status line for its response. -/
def Writable : Prop := ∀ found, route table r = some found → Sendable found.2

/-! ## What is written for a request -/

def expectReplies : List Response :=
  if expectation find r = no_header then []
  else if (expectation find r).2 ≠ octets "100-continue" then
    [{ status_code_ := 417, message := { body_ := octets "Expectation Failed.\n" } }]
  else [{ status_code_ := 100 }]

def routeReplies : List Response :=
  ((route table r).map fun route => addStandardHeaders route.2).toList

/-- The world behind a request: what has been written for it, and whether it closes the
connection. -/
def next (w : World σ) : World σ :=
  let w := w.write (expectReplies find r ++ routeReplies table r)
  if closes find r.message then { w with isOpen := false } else w

end

section

variable {find : Find} {table : List (Bytes × Response)}
  {upgrade : Request → Except Exn Http2.Impl} {r : WireRequest}

theorem onEndOfMessageHeaders_eq (w : World σ) :
    onEndOfMessageHeaders find (r.fields.map Field.header) w =
      .ok () (w.write (expectReplies find r)) := by
  have hsend : ∀ resp, Sendable resp → sendResponse resp w = .ok () (w.write [resp]) :=
    fun resp hresp => sendResponse_ok hresp w
  unfold onEndOfMessageHeaders expectReplies
  change (if expectation find r ≠ no_header then handleExpect (expectation find r).2
    else pure ()) w = _
  by_cases hnone : expectation find r = no_header
  · rw [if_neg (not_not_intro hnone), if_pos hnone, w.write_nil]
    rfl
  · rw [if_pos hnone, if_neg hnone]
    unfold handleExpect
    by_cases hvalue : (expectation find r).2 ≠ octets "100-continue"
    · rw [if_pos hvalue, if_pos hvalue]
      exact hsend _ (by decide +kernel)
    · rw [if_neg hvalue, if_neg hvalue]
      exact hsend _ (by decide)

section

variable (find table upgrade) (hupgrade : ∀ f ∈ r.fields, f.is "upgrade" = false) (w : World σ)

include hupgrade

/-- What the route for a request is called with. -/
theorem handle_static :
    handleIncomingMessage find (staticServer table upgrade) r.message w =
        dispatch (staticServer table upgrade)
          { method_ := r.method, path_ := r.path, message_ := r.message.message } w ∧
      (staticServer table upgrade : Server σ).dispatch
        { method_ := r.method, path_ := r.path, message_ := r.message.message } w.app =
          .ok (routeReplies table r, w.app) := by
  have hnone : Headers.get r.message.message.headers_ find (octets "upgrade") = no_header :=
    r.get_none find hupgrade
  exact ⟨handleIncomingMessage_none r.parseRequestLine_first_line hnone,
    Routes.dispatch_static table _ _⟩

theorem handle_writable (hwritable : Writable table r) :
    handleIncomingMessage find (staticServer table upgrade) r.message w =
      .ok () (w.write (routeReplies table r)) := by
  obtain ⟨hhandle, hdispatch⟩ := handle_static find table upgrade hupgrade w
  have hsendable : ∀ response ∈ routeReplies table r, Sendable response := by
    intro response hmem
    obtain ⟨found, hfound, rfl⟩ := Option.map_eq_some_iff.mp (Option.mem_toList.mp hmem)
    exact hwritable found hfound
  rw [hhandle, dispatch_ok hdispatch hsendable, ← w.write_app (routeReplies table r)]

/-- There is no status line for the response, and it is not written. -/
theorem handle_unwritable (hwritable : ¬ Writable table r) :
    ∃ e, handleIncomingMessage find (staticServer table upgrade) r.message w = .error e w := by
  obtain ⟨hhandle, hdispatch⟩ := handle_static find table upgrade hupgrade w
  unfold Writable at hwritable
  push Not at hwritable
  obtain ⟨found, hfound, hnot⟩ := hwritable
  have hreplies : routeReplies table r = [] ++ addStandardHeaders found.2 :: [] := by
    rw [routeReplies, hfound]
    rfl
  rw [hreplies] at hdispatch
  refine ⟨.runtime_error "invalid status code", ?_⟩
  rw [hhandle, dispatch_error hdispatch nofun hnot, w.write_nil]

end

/-- A request is served, by the field and by the route. -/
theorem serves_static (hupgrade : ∀ f ∈ r.fields, f.is "upgrade" = false)
    (hwritable : Writable table r) {w : World σ} (hw : w.replacedBy.isSome = false) :
    Serves find (virtual find (staticServer table upgrade)) r w (next find table r w) := by
  have hhandle : handleIncomingMessage find (staticServer table upgrade) r.message
      (w.write (expectReplies find r)) =
        .ok () (w.write (expectReplies find r ++ routeReplies table r)) := by
    rw [handle_writable find table upgrade hupgrade _ hwritable, w.write_write]
  have hstays : (w.write (expectReplies find r ++ routeReplies table r)).replacedBy.isSome =
      false := by
    rw [World.write_replacedBy]
    exact hw
  refine ⟨⟨_, _, onEndOfMessageHeaders_eq w, hhandle, hstays, rfl⟩, ?_⟩
  show (next find table r w).replacedBy.isSome = false
  unfold next
  split <;> exact hstays

theorem next_replacedBy (w : World σ) : (next find table r w).replacedBy = w.replacedBy := by
  unfold next
  split <;> exact w.write_replacedBy _

theorem servesAll_static (find : Find) (table : List (Bytes × Response))
    (upgrade : Request → Except Exn Http2.Impl) {requests : List WireRequest}
    (hupgrade : ∀ r ∈ requests, ∀ f ∈ r.fields, f.is "upgrade" = false)
    (hwritable : ∀ r ∈ requests, Writable table r) :
    ∀ w : World σ, w.replacedBy.isSome = false →
      ServesAll find (virtual find (staticServer table upgrade)) requests w
        (requests.foldl (fun w r => next find table r w) w) := by
  induction requests with
  | nil => exact fun w _ => .nil
  | cons r requests ih =>
      intro w hw
      refine .cons (serves_static (hupgrade r List.mem_cons_self)
        (hwritable r List.mem_cons_self) hw) (ih ?_ ?_ _ ?_)
      · exact fun q hq => hupgrade q (List.mem_cons_of_mem _ hq)
      · exact fun q hq => hwritable q (List.mem_cons_of_mem _ hq)
      · rw [next_replacedBy]
        exact hw

/-! ## Counting -/

/-- How many final responses there are for a request on an open connection. -/
def due (find : Find) (table : List (Bytes × Response)) (r : WireRequest) : Nat :=
  (if Refused find r then 1 else 0) + (if Answered table r then 1 else 0)

theorem final_expectReplies :
    ((expectReplies find r).filter final).length = if Refused find r then 1 else 0 := by
  unfold expectReplies
  by_cases hnone : expectation find r = no_header
  · have hrefused : ¬ Refused find r := fun h => h.1 hnone
    rw [if_pos hnone, if_neg hrefused]
    rfl
  · rw [if_neg hnone]
    by_cases hvalue : (expectation find r).2 ≠ octets "100-continue"
    · have hrefused : Refused find r := ⟨hnone, hvalue⟩
      rw [if_pos hvalue, if_pos hrefused]
      rfl
    · have hrefused : ¬ Refused find r := fun h => hvalue h.2
      rw [if_neg hvalue, if_neg hrefused]
      rfl

theorem final_routeReplies :
    ((routeReplies table r).filter final).length = if Answered table r then 1 else 0 := by
  have hanswered : Answered table r ↔ (route table r).any (fun route => final route.2) = true :=
    Iff.rfl
  unfold routeReplies
  cases hroute : route table r with
  | none =>
      rw [if_neg (by rw [hanswered, hroute]; exact Bool.false_ne_true)]
      rfl
  | some found =>
      have hsame : final (addStandardHeaders found.2) = final found.2 := rfl
      rw [hroute, Option.any_some] at hanswered
      simp only [Option.map_some, Option.toList_some]
      by_cases hfinal : final found.2 = true
      · rw [List.filter_cons_of_pos (hsame.trans hfinal), if_pos (hanswered.mpr hfinal)]
        rfl
      · rw [List.filter_cons_of_neg (by rw [hsame]; exact hfinal), if_neg (mt hanswered.mp hfinal)]
        rfl

theorem finals_next (w : World σ) :
    finals (next find table r w) = finals w + if w.isOpen then due find table r else 0 := by
  have hsent : (next find table r w).sent =
      (w.write (expectReplies find r ++ routeReplies table r)).sent := by
    unfold next
    split <;> rfl
  unfold finals
  rw [hsent]
  unfold World.write
  by_cases hopen : w.isOpen = true
  · rw [if_pos hopen, if_pos hopen]
    simp only [List.filter_append, List.length_append, final_expectReplies, final_routeReplies]
    rfl
  · rw [if_neg hopen, if_neg hopen, Nat.add_zero]

theorem isOpen_next (w : World σ) :
    (next find table r w).isOpen = (w.isOpen && !closes find r.message) := by
  have hwrite := w.write_isOpen (expectReplies find r ++ routeReplies table r)
  unfold next
  simp only
  cases closes find r.message with
  | true =>
      rw [if_pos rfl, Bool.not_true, Bool.and_false]
  | false =>
      rw [if_neg Bool.false_ne_true, hwrite, Bool.not_false, Bool.and_true]

theorem isOpen_foldl (find : Find) (table : List (Bytes × Response))
    (requests : List WireRequest) (w : World σ) :
    (requests.foldl (fun w r => next find table r w) w).isOpen = true ↔
      w.isOpen = true ∧ ∀ r ∈ requests, closes find r.message = false := by
  induction requests generalizing w with
  | nil => simp
  | cons r requests ih =>
      rw [List.foldl_cons, ih, isOpen_next, Bool.and_eq_true, Bool.not_eq_true', List.forall_mem_cons,
        and_assoc]

/-- Exactly one of two things holds exactly when their numbers add up to one. -/
theorem due_eq_one : due find table r = 1 ↔ (Refused find r ↔ ¬ Answered table r) := by
  unfold due
  by_cases hrefused : Refused find r <;> by_cases hanswered : Answered table r <;>
    simp [hrefused, hanswered]

end

/-- As many final responses as requests, all along, exactly when each request either
finds a route with a final response or has an expectation that is refused, and not
both, and no request before it closes the connection. -/
theorem finals_foldl_iff (find : Find) (table : List (Bytes × Response))
    (requests : List WireRequest) (app : σ) :
    (∀ front, front <+: requests →
      finals (front.foldl (fun w r => next find table r w) { app := app }) = front.length) ↔
      ∀ front r, front ++ [r] <+: requests →
        (Refused find r ↔ ¬ Answered table r) ∧ ∀ q ∈ front, closes find q.message = false := by
  refine Run.always_iff rfl fun front r _ hbefore => ?_
  have hcount := hbefore front List.prefix_rfl
  rw [List.foldl_append, List.foldl_cons, List.foldl_nil, finals_next, hcount, List.length_append,
    List.length_singleton, ← due_eq_one]
  have hopen := isOpen_foldl find table front ({ app := app } : World σ)
  by_cases h : (front.foldl (fun w r => next find table r w) ({ app := app } : World σ)).isOpen = true
  · rw [if_pos h]
    have hclosed := (hopen.mp h).2
    exact ⟨fun heq => ⟨by omega, hclosed⟩, fun heq => by rw [heq.1]⟩
  · rw [if_neg h]
    exact iff_of_false (by omega) fun hall => h (hopen.mpr ⟨rfl, hall.2⟩)

/-- However their stream is cut, the requests are served one after the other. -/
theorem run_static (find : Find) (table : List (Bytes × Response))
    (upgrade : Request → Except Exn Http2.Impl) (app : σ) {requests : List WireRequest}
    (hbodies : ∀ r ∈ requests, r.body = [])
    (hupgrade : ∀ r ∈ requests, ∀ f ∈ r.fields, f.is "upgrade" = false)
    (hwritable : ∀ r ∈ requests, Writable table r) {pieces : List Bytes}
    (hne : ∀ piece ∈ pieces, piece ≠ []) (hcut : pieces.flatten = stream requests) :
    (run find (virtual find (staticServer table upgrade)) pieces (new app)).2 = none ∧
      (run find (virtual find (staticServer table upgrade)) pieces (new app)).1.world =
        requests.foldl (fun w r => next find table r w) { app := app } := by
  have hall := servesAll_static find table upgrade hupgrade hwritable ({ app := app } : World σ) rfl
  have hrun : run find (virtual find (staticServer table upgrade)) pieces (new app) = _ :=
    run_bodyless hall hbodies rfl hne hcut []
  rw [hrun]
  exact ⟨rfl, rfl⟩

/-- The exception for a response without a status line leaves the loop. -/
theorem run_unwritable (find : Find) (table : List (Bytes × Response))
    (upgrade : Request → Except Exn Http2.Impl) (app : σ) {front : List WireRequest}
    {r : WireRequest} (hbodies : ∀ q ∈ front ++ [r], q.body = [])
    (hupgrade : ∀ q ∈ front ++ [r], ∀ f ∈ q.fields, f.is "upgrade" = false)
    (hfront : ∀ q ∈ front, Writable table q) (hr : ¬ Writable table r) {pieces : List Bytes}
    (hne : ∀ piece ∈ pieces, piece ≠ []) (hcut : pieces.flatten = stream (front ++ [r])) :
    (run find (virtual find (staticServer table upgrade)) pieces (new app)).2 ≠ none := by
  have harrived : Arrived pieces.flatten (front ++ [r]) (front ++ [r]) [] :=
    ⟨List.prefix_rfl, by rw [hcut, List.append_nil], .inl rfl⟩
  have hserved := servesAll_static find table upgrade
    (fun q hq => hupgrade q (List.mem_append_left _ hq)) hfront ({ app := app } : World σ) rfl
  have hthrows : ∀ v v' : World σ,
      handleIncomingMessage find (staticServer table upgrade) r.message v ≠ .ok () v' := by
    intro v v' hhandle
    obtain ⟨e, herror⟩ := handle_unwritable find table upgrade (hupgrade r (by simp)) v hr
    cases herror.symm.trans hhandle
  have hstop : ∀ w', ¬ Serves find (virtual find (staticServer table upgrade)) r
      (front.foldl (fun w r => next find table r w) { app := app }) w' := by
    intro w' hserves
    obtain ⟨v, v', -, hhandle, -⟩ := hserves.calls
    exact hthrows v v' hhandle
  -- so it is the last request that is handled, and its handler does not return
  obtain ⟨t, err, hdrains, -, hcall⟩ := bodyless_stops (secondEnd pieces) pieces.flatten.length
    (head_returns find) (fun _ => rfl) hstop (hbodies r (by simp)) [] (front.map WireRequest.message)
    (hserved.stays rfl)
  have hrun := (run_behind hbodies hne harrived rfl hserved (o := (t, err))).mpr (by
    rw [stream_single, List.append_nil]
    rw [List.append_nil] at hdrains
    exact hdrains)
  rw [hrun]
  intro hnone
  obtain ⟨v, -, hhandle⟩ := hcall hnone
  exact hthrows v _ hhandle

/-- Some cutting of a stream into reads, none of which is empty. -/
theorem exists_pieces (requests : List WireRequest) :
    ∃ pieces : List Bytes, (∀ piece ∈ pieces, piece ≠ []) ∧ pieces.flatten = stream requests := by
  by_cases hempty : stream requests = []
  · exact ⟨[], by simp, hempty.symm⟩
  · exact ⟨[stream requests], by simpa using hempty, by simp⟩

/-- One final response is written for each request exactly when each request either
finds a route with a final response or has an expectation that is refused, and not
both, and no request before it closes the connection; and when there is a status line for the
response of each route that is found. -/
theorem final_response_iff (find : Find) (table : List (Bytes × Response))
    (upgrade : Request → Except Exn Http2.Impl) (app : σ) (requests : List WireRequest)
    (hbodies : ∀ r ∈ requests, r.body = [])
    (hupgrade : ∀ r ∈ requests, ∀ f ∈ r.fields, f.is "upgrade" = false) :
    FinalPerRequest find (staticServer table upgrade) app requests ↔
      ∀ front r, front ++ [r] <+: requests →
        Writable table r ∧ (Refused find r ↔ ¬ Answered table r) ∧
          ∀ q ∈ front, closes find q.message = false := by
  have hrun : (∀ r ∈ requests, Writable table r) → ∀ front, front <+: requests →
      ∀ pieces : List Bytes, (∀ piece ∈ pieces, piece ≠ []) → pieces.flatten = stream front → _ :=
    fun hwritable front hfront pieces hne hcut =>
      run_static find table upgrade app (fun r hr => hbodies r (hfront.subset hr))
        (fun r hr => hupgrade r (hfront.subset hr)) (fun r hr => hwritable r (hfront.subset hr))
        hne hcut
  constructor
  · intro hall
    have hwritable : ∀ r ∈ requests, Writable table r := by
      rcases Run.all_or_first (Writable table) requests with h | ⟨front, r, back, rfl, hfront, hr⟩
      · exact h
      · -- the first one that is not is in front of an exception
        have hleading : front ++ [r] <+: front ++ r :: back := ⟨back, by simp⟩
        obtain ⟨pieces, hne, hcut⟩ := exists_pieces (front ++ [r])
        exact absurd (hall _ hleading pieces hne hcut).1
          (run_unwritable find table upgrade app (fun q hq => hbodies q (hleading.subset hq))
            (fun q hq => hupgrade q (hleading.subset hq)) hfront hr hne hcut)
    have hcounts : ∀ front, front <+: requests →
        finals (front.foldl (fun w r => next find table r w) ({ app := app } : World σ)) =
          front.length := by
      intro front hfront
      obtain ⟨pieces, hne, hcut⟩ := exists_pieces front
      rw [← (hrun hwritable front hfront pieces hne hcut).2]
      exact (hall front hfront pieces hne hcut).2
    intro front r hr
    exact ⟨hwritable r (hr.subset (by simp)),
      (finals_foldl_iff find table requests app).mp hcounts front r hr⟩
  · intro hall front hfront pieces hne hcut
    have hwritable : ∀ r ∈ requests, Writable table r := by
      intro r hr
      obtain ⟨before, back, rfl⟩ := List.append_of_mem hr
      exact (hall before r ⟨back, by simp⟩).1
    obtain ⟨hreturns, hworld⟩ := hrun hwritable front hfront pieces hne hcut
    refine ⟨hreturns, ?_⟩
    rw [hworld]
    exact (finals_foldl_iff find table requests app).mpr (fun front r hr => (hall front r hr).2)
      front hfront

/-! ## A path without a route -/

/-- A request with the method `GET` for a path, and without fields. -/
def fetch (path : Bytes) (hspace : SP ∉ path) (hline : LF ∉ path) : WireRequest where
  method := octets "GET"
  path := path
  fields := []
  body := []
  method_space := get_space
  method_line := get_line
  path_space := hspace
  path_line := hline
  content_length := by simp
  no_body := fun _ => rfl
  not_chunked := no_fields "transfer-encoding"
  body_fits := empty_fits

def helloTable : List (Bytes × Response) :=
  [(octets "/hello", { message := { body_ := octets "Hello, world!\n" } })]

/-- There is no route for `/`, and no response. -/
theorem final_response_no_route :
    ¬ FinalPerRequest Find.first
      (staticServer helloTable fun _ => .error (.runtime_error "")) ()
      [fetch (octets "/") root_space root_line] := by
  intro h
  have hcount := (h _ List.prefix_rfl [stream [fetch (octets "/") root_space root_line]]
    (by decide +kernel) (by decide +kernel)).2
  revert hcount
  decide +kernel

/-- There is a route for `/hello`, and one response. -/
theorem final_response_hello :
    FinalPerRequest Find.first
      (staticServer helloTable fun _ => .error (.runtime_error "")) ()
      [fetch (octets "/hello") (by decide +kernel) (by decide +kernel)] := by
  refine (final_response_iff Find.first helloTable _ () _ (by simp [fetch]) (by simp [fetch])).mpr ?_
  intro front r hprefix
  obtain ⟨rfl, rfl⟩ : front = [] ∧
      r = fetch (octets "/hello") (by decide +kernel) (by decide +kernel) := by
    rcases List.prefix_cons_iff.mp hprefix with hnil | ⟨t, ht, hrest⟩
    · exact absurd hnil (by simp)
    · rw [List.prefix_nil.mp hrest] at ht
      cases front with
      | nil =>
          cases ht
          exact ⟨rfl, rfl⟩
      | cons q front => exact absurd (congrArg List.length ht) (by simp)
  have hwritable : Writable helloTable
      (fetch (octets "/hello") (by decide +kernel) (by decide +kernel)) := by
    intro found hfound
    have hroute : found ∈ helloTable := List.mem_of_find?_eq_some hfound
    rw [List.mem_singleton.mp hroute]
    decide
  exact ⟨hwritable, by decide +kernel, by simp⟩

end Shitty.Http1
