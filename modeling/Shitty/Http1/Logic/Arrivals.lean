import Shitty.Http1.Logic.Pipeline
import Shitty.Http1.Logic.Sent

/-!
# Requests that have arrived

The requests without a body of which all octets have been read, and which of them a
server transport has handled: each that comes behind served ones only. When a request
has not arrived as a whole, its part is kept for the next read; behind one that closes
the connection, the others are handled all the same when they have come with it.
-/

namespace Shitty.Http1

open Lib Lib.Resumable Transport ServerTransport

variable {σ : Type}

theorem stream_append (requests others : List WireRequest) :
    stream (requests ++ others) = stream requests ++ stream others := by
  rw [stream, List.map_append, List.flatten_append]
  rfl

theorem stream_single (r : WireRequest) : stream [r] = r.text := by
  rw [stream_cons]
  exact List.append_nil _

theorem stream_prefix {requests others : List WireRequest} (h : requests <+: others) :
    (stream requests).length ≤ (stream others).length := by
  obtain ⟨behind, rfl⟩ := h
  rw [stream_append, List.length_append]
  exact Nat.le_add_right _ _

theorem WireRequest.text_pos (r : WireRequest) : 0 < r.text.length := by
  have hline : CRLF.length = 2 := rfl
  simp only [WireRequest.text, WireRequest.head, headText, List.length_append, hline]
  omega

/-! ## Arrivals -/

/-- All octets of the first requests, and some of the next one. -/
structure Arrived (text : Bytes) (requests done : List WireRequest) (part : Bytes) : Prop where
  front : done <+: requests
  text_eq : text = stream done ++ part
  part : part = [] ∨ ∃ q, done ++ [q] <+: requests ∧ part <+: q.text ∧ part ≠ q.text

theorem exists_arrived (requests : List WireRequest) : ∀ {text : Bytes},
    text <+: stream requests → ∃ done part, Arrived text requests done part := by
  induction requests with
  | nil =>
      intro text h
      rw [List.prefix_nil.mp h]
      exact ⟨[], [], List.nil_prefix, rfl, .inl rfl⟩
  | cons r requests ih =>
      intro text h
      rw [stream_cons] at h
      rcases List.prefix_or_prefix_of_prefix h (List.prefix_append r.text (stream requests)) with
        hshort | ⟨rest, rfl⟩
      · by_cases hall : text = r.text
        · refine ⟨[r], [], List.cons_prefix_cons.mpr ⟨rfl, List.nil_prefix⟩, ?_, .inl rfl⟩
          rw [List.append_nil, stream_single, hall]
        · exact ⟨[], text, List.nil_prefix, rfl,
            .inr ⟨r, List.cons_prefix_cons.mpr ⟨rfl, List.nil_prefix⟩, hshort, hall⟩⟩
      · obtain ⟨done, part, hfront, htext, hpart⟩ := ih ((List.prefix_append_right_inj _).mp h)
        refine ⟨r :: done, part, List.cons_prefix_cons.mpr ⟨rfl, hfront⟩, ?_, ?_⟩
        · rw [htext, stream_cons, List.append_assoc]
        · rcases hpart with hnil | ⟨q, hq, hpart⟩
          · exact .inl hnil
          · exact .inr ⟨q, List.cons_prefix_cons.mpr ⟨rfl, hq⟩, hpart⟩

/-- A request has arrived when as many octets have as it ends at. -/
theorem Arrived.iff {text part : Bytes} {requests done front : List WireRequest} {r : WireRequest}
    (h : Arrived text requests done part) (hr : front ++ [r] <+: requests) :
    front ++ [r] <+: done ↔ (stream (front ++ [r])).length ≤ text.length := by
  constructor
  · intro hdone
    have hle := stream_prefix hdone
    rw [h.text_eq, List.length_append]
    omega
  · intro hle
    by_contra hnot
    -- then what has arrived ends in front of the end of the request
    have hshort : done <+: front := by
      rcases List.prefix_or_prefix_of_prefix h.front hr with hdone | hdone
      · rcases List.prefix_concat_iff.mp hdone with rfl | hdone
        · exact absurd List.prefix_rfl hnot
        · exact hdone
      · exact absurd hdone hnot
    have hfront : (stream done).length ≤ (stream front).length := stream_prefix hshort
    rw [h.text_eq, List.length_append, stream_append, List.length_append, stream_single] at hle
    have hpos := r.text_pos
    rcases h.part with hnil | ⟨q, hq, hpart, hne⟩
    · rw [hnil, List.length_nil] at hle
      omega
    · have hlt : part.length < q.text.length :=
        Nat.lt_of_le_of_ne hpart.length_le fun heq => hne (hpart.eq_of_length heq)
      have hlen : (stream (done ++ [q])).length ≤ (stream (front ++ [r])).length := by
        refine stream_prefix (List.prefix_of_prefix_length_le hq hr ?_)
        have := hshort.length_le
        simp only [List.length_append, List.length_singleton]
        omega
      simp only [stream_append, List.length_append, stream_single] at hlen
      omega

/-! ## Behind `close` -/

theorem head_returns (find : Find) (headers : Headers) (w : World σ) :
    ∃ w', onEndOfMessageHeaders find headers w = .ok () w' ∧
      w'.replacedBy.isSome = w.replacedBy.isSome := by
  have hsend : ∀ resp : Response, Sendable resp → ∃ w', sendResponse resp w = .ok () w' ∧
      w'.replacedBy.isSome = w.replacedBy.isSome := fun resp hresp =>
    ⟨w.write [resp], sendResponse_ok hresp w, by rw [w.write_replacedBy]⟩
  unfold onEndOfMessageHeaders handleExpect
  split
  · split
    · exact hsend _ (by decide)
    · exact hsend _ (by decide)
  · exact ⟨w, rfl, rfl⟩

/-- Nothing is written on a connection that has been closed. -/
theorem closed_kept (find : Find) (server : Server σ) (sent : List Response) :
    KeptBy (virtual find server) fun w => w.isOpen = false ∧ w.sent = sent := by
  have hwrite : ∀ (w : World σ) response, Sendable response → w.isOpen = false ∧ w.sent = sent →
      (w.write [response]).isOpen = false ∧ (w.write [response]).sent = sent := by
    rintro w response - ⟨hclosed, hsent⟩
    unfold World.write
    rw [if_neg (by rw [hclosed]; exact Bool.false_ne_true)]
    exact ⟨hclosed, hsent⟩
  exact ⟨head_keeps hwrite find, handled_keeps hwrite find server (fun w app hw => hw)
    fun w t hw => hw, fun w hw => ⟨rfl, hw.2⟩⟩

section

variable {find : Find} {server : Server σ}

/-- Only a message that says so closes the connection. -/
theorem Serves.isOpen {r : WireRequest} {w w' : World σ}
    (h : Serves find (virtual find server) r w w') :
    w'.isOpen = (w.isOpen && !closes find r.message) := by
  obtain ⟨u, v, hhead, hhandle, -, rfl⟩ := h.calls
  have hwrite : ∀ (x : World σ) response, Sendable response → x.isOpen = w.isOpen →
      (x.write [response]).isOpen = w.isOpen := fun x response _ hx => (x.write_isOpen _).trans hx
  have hu : u.isOpen = w.isOpen := (head_keeps hwrite find _).of_ok rfl hhead
  have hv : v.isOpen = w.isOpen :=
    (handled_keeps hwrite find server (fun _ _ hx => hx) (fun _ _ hx => hx) _).of_ok hu hhandle
  cases closes find r.message with
  | true => exact (Bool.and_false _).symm
  | false =>
      rw [if_neg Bool.false_ne_true, hv]
      exact (Bool.and_true _).symm

theorem ServesAll.isOpen {requests : List WireRequest} {w w' : World σ}
    (h : ServesAll find (virtual find server) requests w w') :
    w'.isOpen = true ↔ w.isOpen = true ∧ ∀ r ∈ requests, closes find r.message = false := by
  induction h with
  | nil => simp
  | cons hr _ ih =>
      rw [ih, Serves.isOpen hr, Bool.and_eq_true, Bool.not_eq_true', List.forall_mem_cons, and_assoc]

/-! ## What has been handled -/

variable {requests done : List WireRequest} {pieces : List Bytes} {part : Bytes} {app : σ}

/-- What is drained behind requests that have been served. -/
theorem run_behind (hbodies : ∀ r ∈ requests, r.body = []) (hne : ∀ piece ∈ pieces, piece ≠ [])
    (harrived : Arrived pieces.flatten requests done part) {front back : List WireRequest}
    {w : World σ} (hdone : done = front ++ back)
    (hserves : ServesAll find (virtual find server) front { app := app } w)
    {o : Transport (World σ) × Option Exn} :
    run find (virtual find server) pieces (new app) = o ↔
      Drains (messages find (virtual find server) (secondEnd pieces))
        (between (stream back ++ part) (front.map WireRequest.message) w, pieces.flatten.length)
        ((o.1, pieces.flatten.length), o.2) := by
  have hfront : ∀ r ∈ front, r.body = [] := fun r hr =>
    hbodies r (harrived.front.subset (by rw [hdone]; exact List.mem_append_left _ hr))
  have hreached := bodyless_reaches (secondEnd pieces) pieces.flatten.length hserves hfront
    (stream back ++ part) [] rfl
  have htext : pieces.flatten = stream front ++ (stream back ++ part) := by
    rw [harrived.text_eq, hdone, stream_append, List.append_assoc]
  rw [← htext, List.nil_append] at hreached
  rw [← Drains.iff_of_reaches hreached]
  constructor
  · rintro rfl
    exact run_drains find (virtual find server) hne (s := new app) rfl rfl
  · exact run_fresh find hne [] _

/-- Behind all requests that have arrived there is nothing to be handled. -/
theorem part_left (hbodies : ∀ r ∈ requests, r.body = []) (hne : ∀ piece ∈ pieces, piece ≠ [])
    (harrived : Arrived pieces.flatten requests done part) {w : World σ}
    (hserves : ServesAll find (virtual find server) done { app := app } w) :
    ∃ t : Transport (World σ), run find (virtual find server) pieces (new app) = (t, none) ∧
      t.handled = done.map WireRequest.message ∧ t.world = w := by
  have hidle : Idles find (virtual find server) (secondEnd pieces) pieces.flatten.length
      (between (stream [] ++ part) (done.map WireRequest.message) w) := by
    have hopen := hserves.stays rfl
    rcases harrived.part with rfl | ⟨q, hq, hpart, hshort⟩
    · exact ⟨_, .wait (waits_empty find _ _ _ rfl), rfl, rfl⟩
    · exact part_idles _ _ (hbodies q (hq.subset (by simp))) hpart hshort _ hopen
  obtain ⟨t, hdrains, hhandled, hworld⟩ := hidle
  exact ⟨t, (run_behind hbodies hne harrived (List.append_nil done).symm hserves
    (o := (t, none))).mpr hdrains, hhandled, hworld⟩

/-- A request is handled when it has arrived and all before it have been served. -/
theorem run_handled (find : Find) (server : Server σ) (app : σ)
    (hbodies : ∀ r ∈ requests, r.body = []) (hne : ∀ piece ∈ pieces, piece ≠ [])
    (harrived : Arrived pieces.flatten requests done part) :
    ∃ called, called <+: done ∧
      (run find (virtual find server) pieces (new app)).1.handled =
        called.map WireRequest.message ∧
      ∀ front r, front ++ [r] <+: done → (front ++ [r] <+: called ↔
        ∃ w, ServesAll find (virtual find server) front { app := app } w) := by
  rcases serves_or_stops find (virtual find server) done { app := app } with
    ⟨w, hall⟩ | ⟨front₀, r₀, w₀, hdone, hserves, hstop⟩
  · obtain ⟨t, hrun, hhandled, -⟩ := part_left hbodies hne harrived hall
    refine ⟨done, List.prefix_rfl, by rw [hrun]; exact hhandled, fun front r hr => ?_⟩
    obtain ⟨back, rfl⟩ := hr
    rw [List.append_assoc] at hall
    obtain ⟨u, hfront, -⟩ := hall.of_append
    exact iff_of_true (List.prefix_append _ _) ⟨u, hfront⟩
  · obtain ⟨back, hsplit⟩ := hdone
    have hbody : r₀.body = [] := hbodies r₀ (harrived.front.subset (by rw [← hsplit]; simp))
    have hhead : ∀ headers (w : World σ), ∃ w', (virtual find server).onEndOfMessageHeaders headers w =
        .ok () w' ∧ (virtual find server).replaced w' = (virtual find server).replaced w :=
      head_returns find
    obtain ⟨t, err, hdrains, hhandled, -⟩ := bodyless_stops (secondEnd pieces)
      pieces.flatten.length hhead (fun _ => rfl) hstop hbody (stream back ++ part)
      (front₀.map WireRequest.message) (hserves.stays rfl)
    rw [← List.append_assoc, ← stream_cons] at hdrains
    have hsplit' : done = front₀ ++ r₀ :: back := by
      rw [← hsplit, List.append_assoc, List.singleton_append]
    have hrun := (run_behind hbodies hne harrived hsplit' hserves (o := (t, err))).mpr hdrains
    have hcalled : front₀ ++ [r₀] <+: done := ⟨back, hsplit⟩
    refine ⟨front₀ ++ [r₀], hcalled, ?_, fun front r hr => ⟨fun hcall => ?_, fun hserved => ?_⟩⟩
    · rw [hrun, List.map_append]
      exact hhandled
    · obtain ⟨behind, rfl⟩ : front <+: front₀ := by
        have hlen := hcall.length_le
        have hfront : front <+: front₀ ++ [r₀] := (List.prefix_append _ _).trans hcall
        refine List.prefix_of_prefix_length_le hfront (List.prefix_append _ _) ?_
        simpa using hlen
      obtain ⟨u, hfront, -⟩ := hserves.of_append
      exact ⟨u, hfront⟩
    · -- the one that is not served is not among those in front
      obtain ⟨w, hfront⟩ := hserved
      refine List.prefix_of_prefix_length_le hr hcalled ?_
      by_contra hlong
      have hfront₀ : front₀ ++ [r₀] <+: front := by
        refine List.prefix_of_prefix_length_le hcalled ((List.prefix_append _ _).trans hr) ?_
        simp only [List.length_append, List.length_singleton] at hlong ⊢
        omega
      obtain ⟨behind, rfl⟩ := hfront₀
      rw [List.append_assoc] at hfront
      obtain ⟨u, hu, hrest⟩ := hfront.of_append
      rw [hu.unique hserves] at hrest
      cases hrest with
      | cons hr₀ _ => exact hstop _ hr₀

/-- Behind a request with which the connection has been closed it stays closed, and nothing
is written. -/
theorem run_closed (hbodies : ∀ r ∈ requests, r.body = []) (hne : ∀ piece ∈ pieces, piece ≠ [])
    (harrived : Arrived pieces.flatten requests done part) {front : List WireRequest}
    (hfront : front <+: done) {w : World σ}
    (hserves : ServesAll find (virtual find server) front { app := app } w)
    (hclosed : w.isOpen = false) :
    (run find (virtual find server) pieces (new app)).1.world.isOpen = false ∧
      (run find (virtual find server) pieces (new app)).1.world.sent = w.sent := by
  obtain ⟨back, hback⟩ := hfront
  have hdrains := (run_behind hbodies hne harrived hback.symm hserves).mp rfl
  exact drains_keeps (closed_kept find server w.sent) hdrains ⟨hclosed, rfl⟩

end

end Shitty.Http1
