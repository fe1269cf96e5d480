import Shitty.Http1.Logic.Arrivals
import Shitty.Http1.Theorems.Segmentation

/-!
# Behind `Connection: close`

The connection is not read from any more, but what has been read by then goes on being
handled. Nothing is handled behind a message that closes the connection exactly when the
read it is complete with ends before the next message does. So whether the rest of a
read is handled depends on where the kernel has cut the stream, and on nothing that the
client can see.
-/

namespace Shitty.Http1

open Lib Lib.Resumable Transport ServerTransport

variable {σ : Type}

/-- A message that closes the connection is the last that has been handled, and what was
written up to it is all that has been written. -/
structure SilentBehindClose (find : Find) (server : Server σ) (app : σ)
    (requests : List WireRequest) (s : Transport (World σ)) : Prop where
  handled : ∀ front msg back, s.handled = front ++ msg :: back → closes find msg = true → back = []
  written : ∀ front r w, front ++ [r] <+: requests → closes find r.message = true →
    ServesAll find (virtual find server) (front ++ [r]) { app := app } w →
    (front ++ [r]).map WireRequest.message <+: s.handled → s.world.sent = w.sent

/-- The read with which the first `n` octets are there ends in front of `stop`. -/
def ReadEndsBefore (pieces : List Bytes) (n stop : Nat) : Prop :=
  ∀ reads read, reads ++ [read] <+: pieces → reads.flatten.length < n →
    n ≤ (reads ++ [read]).flatten.length → (reads ++ [read]).flatten.length < stop

/-! ## Reads -/

/-- Some read completes what is there in the end. -/
theorem exists_read {n : Nat} (hpos : 0 < n) (pieces : List Bytes) :
    n ≤ pieces.flatten.length → ∃ reads read, reads ++ [read] <+: pieces ∧
      reads.flatten.length < n ∧ n ≤ (reads ++ [read]).flatten.length := by
  induction pieces using List.reverseRecOn with
  | nil => exact fun h => absurd hpos (by simpa using h)
  | append_singleton pieces piece ih =>
      intro h
      by_cases hbefore : n ≤ pieces.flatten.length
      · obtain ⟨reads, read, hprefix, hshort, hlong⟩ := ih hbefore
        exact ⟨reads, read, hprefix.trans (List.prefix_append _ _), hshort, hlong⟩
      · exact ⟨pieces, piece, List.prefix_rfl, Nat.lt_of_not_le hbefore, h⟩

/-- The event loop does not go on reading for the transport. -/
def Stopped (o : Transport (World σ) × Option Exn) : Prop :=
  o.2 ≠ none ∨ o.1.world.isOpen = false ∨ o.1.world.replacedBy.isSome = true

theorem not_stopped_iff (t : Transport (World σ)) :
    ¬ Stopped (t, none) ↔ t.world.isOpen = true ∧ t.world.replacedBy.isNone = true := by
  unfold Stopped
  cases t.world.isOpen <;> cases t.world.replacedBy <;> simp

/-- The reads up to the first behind which the transport is stopped. -/
theorem onPollIn_run (find : Find) (server : Server σ) (pieces : List Bytes) :
    ∀ s : Transport (World σ), ∃ p, p <+: pieces ∧
      onPollIn find server pieces s = run find (virtual find server) p s ∧
      (∀ q, q <+: p → q ≠ [] → q ≠ p → ¬ Stopped (run find (virtual find server) q s)) ∧
      (p = pieces ∨ Stopped (run find (virtual find server) p s)) := by
  induction pieces with
  | nil =>
      intro s
      refine ⟨[], List.prefix_rfl, rfl, fun q hq hne => ?_, .inl rfl⟩
      exact absurd (List.prefix_nil.mp hq) hne
  | cons piece pieces ih =>
      intro s
      -- the reads in front of a single one are none
      have hsingle : ∀ q, q <+: [piece] → q ≠ [] → q ≠ [piece] →
          ¬ Stopped (run find (virtual find server) q s) := by
        intro q hq hne hshort
        have hlen := hq.length_le
        have hpos := List.length_pos_iff.mpr hne
        exact absurd (hq.eq_of_length (by simpa using Nat.le_antisymm hlen hpos)) hshort
      have hfirst : [piece] <+: piece :: pieces := List.cons_prefix_cons.mpr ⟨rfl, List.nil_prefix⟩
      cases hinput : onInput find (virtual find server) (s.feed piece) with
      | error e t =>
          have hrun : run find (virtual find server) [piece] s = (t, some e) := by
            rw [run, hinput]
            exact Prod.ext (feed_nil t) rfl
          refine ⟨[piece], hfirst, ?_, hsingle, .inr (.inl ?_)⟩
          · rw [onPollIn, hinput, hrun]
          · rw [hrun]
            exact Option.some_ne_none e
      | ok _ t =>
          have hrun : ∀ p, run find (virtual find server) (piece :: p) s =
              run find (virtual find server) p t := fun p => by rw [run, hinput]
          by_cases hgoes : t.world.isOpen ∧ t.world.replacedBy.isNone
          · obtain ⟨p, hp, heq, hbefore, hend⟩ := ih t
            refine ⟨piece :: p, List.cons_prefix_cons.mpr ⟨rfl, hp⟩, ?_, fun q hq hne hshort => ?_, ?_⟩
            · rw [onPollIn, hinput, hrun]
              simp only
              rw [if_pos hgoes, heq]
            · cases q with
              | nil => exact absurd rfl hne
              | cons first q =>
                  obtain ⟨rfl, htail⟩ := List.cons_prefix_cons.mp hq
                  rw [hrun]
                  by_cases hnil : q = []
                  · rw [hnil]
                    exact (not_stopped_iff t).mpr hgoes
                  · exact hbefore q htail hnil fun heq' => hshort (by rw [heq'])
            · rcases hend with rfl | hstopped
              · exact .inl rfl
              · exact .inr (by rw [hrun]; exact hstopped)
          · refine ⟨[piece], hfirst, ?_, hsingle, .inr ?_⟩
            · rw [onPollIn, hinput, hrun]
              simp only
              rw [if_neg hgoes]
              rfl
            · rw [hrun]
              exact not_not.mp (mt (not_stopped_iff t).mp hgoes)

section

variable {find : Find} {server : Server σ} {app : σ} {requests : List WireRequest}
  {pieces : List Bytes}

/-- A request that closes the connection, behind served ones that do not. -/
structure Closes (find : Find) (server : Server σ) (app : σ) (requests front : List WireRequest)
    (r : WireRequest) (w : World σ) : Prop where
  sent : front ++ [r] <+: requests
  closes : closes find r.message = true
  first : ∀ p ∈ front, Transport.closes find p.message = false
  serves : ServesAll find (virtual find server) (front ++ [r]) { app := app } w

/-- The connection is closed behind a message that closes it. -/
theorem closed_of_closes {front : List WireRequest} {r : WireRequest} {w : World σ}
    (hserves : ServesAll find (virtual find server) (front ++ [r]) { app := app } w)
    (hcloses : closes find r.message = true) : w.isOpen = false := by
  rw [← Bool.not_eq_true, ServesAll.isOpen hserves]
  intro hopen
  have hstays := hopen.2 r (by simp)
  rw [hcloses] at hstays
  cases hstays

/-- The transport is stopped by the read with which the request is there. -/
theorem Closes.stopped_iff {front : List WireRequest} {r : WireRequest} {w : World σ}
    (h : Closes find server app requests front r w) (hbodies : ∀ r ∈ requests, r.body = [])
    (hne : ∀ piece ∈ pieces, piece ≠ []) (hcut : pieces.flatten <+: stream requests) :
    Stopped (run find (virtual find server) pieces (new app)) ↔
      (stream (front ++ [r])).length ≤ pieces.flatten.length := by
  obtain ⟨done, part, harrived⟩ := exists_arrived requests hcut
  rw [← harrived.iff h.sent]
  constructor
  · intro hstopped
    by_contra hnot
    have hfront : done <+: front := by
      rcases List.prefix_or_prefix_of_prefix harrived.front h.sent with hdone | hdone
      · rcases List.prefix_concat_iff.mp hdone with rfl | hdone
        · exact absurd List.prefix_rfl hnot
        · exact hdone
      · exact absurd hdone hnot
    obtain ⟨behind, rfl⟩ := hfront
    have hserves := h.serves
    rw [List.append_assoc] at hserves
    obtain ⟨u, hu, -⟩ := hserves.of_append
    have hopen : u.isOpen = true := (ServesAll.isOpen hu).mpr
      ⟨rfl, fun p hp => h.first p (List.mem_append_left _ hp)⟩
    obtain ⟨t, hrun, -, rfl⟩ := part_left hbodies hne harrived hu
    rw [hrun] at hstopped
    refine (not_stopped_iff t).mpr ⟨hopen, ?_⟩ hstopped
    rw [← Option.not_isSome, Bool.not_eq_true']
    exact hu.stays rfl
  · intro hdone
    exact .inr (.inl (run_closed hbodies hne harrived hdone h.serves
      (closed_of_closes h.serves h.closes)).1)

/-- The reads end with the one that the request is complete with. -/
theorem Closes.last_read {front : List WireRequest} {r : WireRequest} {w : World σ}
    (h : Closes find server app requests front r w) (hbodies : ∀ r ∈ requests, r.body = [])
    {p reads : List Bytes} {read : Bytes} (hp : p <+: pieces) (hne : ∀ piece ∈ p, piece ≠ [])
    (hcut : p.flatten <+: stream requests)
    (hbefore : ∀ q, q <+: p → q ≠ [] → q ≠ p →
      ¬ Stopped (run find (virtual find server) q (new app)))
    (hend : p = pieces ∨ Stopped (run find (virtual find server) p (new app)))
    (hread : reads ++ [read] <+: pieces)
    (hshort : reads.flatten.length < (stream (front ++ [r])).length)
    (hlong : (stream (front ++ [r])).length ≤ (reads ++ [read]).flatten.length)
    (hstopped : Stopped (run find (virtual find server) (reads ++ [read]) (new app))) :
    p = reads ++ [read] := by
  rcases List.prefix_or_prefix_of_prefix hp hread with hle | hle
  · rcases List.prefix_concat_iff.mp hle with heq | hle'
    · exact heq
    · -- the request is not complete with fewer reads
      have hlen : p.flatten.length ≤ reads.flatten.length := by
        obtain ⟨behind, rfl⟩ := hle'
        rw [List.flatten_append, List.length_append]
        omega
      rcases hend with rfl | hstop
      · have heq := hread.eq_of_length (Nat.le_antisymm hread.length_le hle.length_le)
        rw [heq] at hlong
        omega
      · exact absurd ((h.stopped_iff hbodies hne hcut).mp hstop) (by omega)
  · by_contra hdiff
    exact hbefore _ hle (by simp) (fun heq => hdiff heq.symm) hstopped

end

/-- Of some messages that close the connection the first, if not the last message. -/
theorem first_closing {find : Find} {called : List WireRequest} {handled f b : List IncomingMessage}
    {msg : IncomingMessage} (hhandled : handled = called.map WireRequest.message)
    (hmsgs : handled = f ++ msg :: b) (hcloses : closes find msg = true) (hb : b ≠ []) :
    ∃ front r q back, called = front ++ r :: q :: back ∧ closes find r.message = true ∧
      ∀ p ∈ front, closes find p.message = false := by
  rw [hhandled] at hmsgs
  obtain ⟨before, behind, rfl, -, hbehind⟩ := List.map_eq_append_iff.mp hmsgs
  obtain ⟨a, others, rfl, rfl, hothers⟩ := List.map_eq_cons_iff.mp hbehind
  obtain ⟨r, hfind⟩ : ∃ r, (before ++ a :: others).find? (fun r => closes find r.message) =
      some r := by
    rw [← Option.isSome_iff_exists, List.find?_isSome]
    exact ⟨a, by simp, hcloses⟩
  obtain ⟨hr, front, back, hsplit, hfront⟩ := List.find?_eq_some_iff_append.mp hfind
  have hfront' : ∀ p ∈ front, closes find p.message = false := fun p hp => by
    simpa using hfront p hp
  cases back with
  | cons q back => exact ⟨front, r, q, back, hsplit, hr, hfront'⟩
  | nil =>
      -- then the message found is in front of the first
      have hne : others ≠ [] := by
        rintro rfl
        exact hb hothers.symm
      obtain ⟨others', last, rfl⟩ := List.eq_nil_or_concat others |>.resolve_left hne
      have hsame : before ++ a :: others' = front := by
        have hsplit' : (before ++ a :: others') ++ [last] = front ++ [r] := by simpa using hsplit
        exact (List.append_inj' hsplit' rfl).1
      have hfalse := hfront' a (by rw [← hsame]; simp)
      rw [hcloses] at hfalse
      cases hfalse

/-- Nothing is handled or written behind a message that closes the connection exactly when
each read with which such a message is complete ends before the next one does. -/
theorem silent_behind_close_iff (find : Find) (server : Server σ) (app : σ)
    (requests : List WireRequest) (hbodies : ∀ r ∈ requests, r.body = []) (pieces : List Bytes)
    (hne : ∀ piece ∈ pieces, piece ≠ []) (hcut : pieces.flatten <+: stream requests) :
    SilentBehindClose find server app requests (onPollIn find server pieces (new app)).1 ↔
      ∀ front r q w, front ++ [r, q] <+: requests → Closes find server app requests front r w →
        ReadEndsBefore pieces (stream (front ++ [r])).length (stream (front ++ [r, q])).length := by
  obtain ⟨p, hp, heq, hbefore, hend⟩ := onPollIn_run find server pieces (new app)
  rw [heq]
  -- what holds of the reads holds of the first of them
  have hfirst : ∀ q, q <+: pieces → (∀ piece ∈ q, piece ≠ []) ∧ q.flatten <+: stream requests := by
    intro q hq
    obtain ⟨behind, hsplit⟩ := hq
    refine ⟨fun piece hmem => hne piece (by rw [← hsplit]; exact List.mem_append_left _ hmem), ?_⟩
    refine List.IsPrefix.trans ?_ hcut
    rw [← hsplit, List.flatten_append]
    exact List.prefix_append _ _
  obtain ⟨hpne, hpcut⟩ := hfirst p hp
  obtain ⟨done, part, harrived⟩ := exists_arrived requests hpcut
  obtain ⟨called, hcalled, hhandled, hiff⟩ := run_handled find server app hbodies hpne
    harrived
  constructor
  · intro hsilent front r q w hq hr reads read hread hshort hlong
    by_contra hnext
    have hsplit : front ++ [r, q] = front ++ [r] ++ [q] := by simp
    have hstopped := (hr.stopped_iff hbodies (hfirst _ hread).1 (hfirst _ hread).2).mpr hlong
    obtain rfl : p = reads ++ [read] := hr.last_read hbodies hp hpne hpcut hbefore hend hread hshort
      hlong hstopped
    rw [hsplit] at hq hnext
    have hdone := (harrived.iff hq).mpr (Nat.le_of_not_lt hnext)
    obtain ⟨back, hback⟩ := (hiff _ q hdone).mpr ⟨w, hr.serves⟩
    rw [← hback] at hhandled
    have hnil := hsilent.handled (front.map WireRequest.message) r.message
      (q.message :: back.map WireRequest.message) (by rw [hhandled]; simp) hr.closes
    cases hnil
  · intro hreads
    refine ⟨fun f msg b hmsgs hcloses => ?_, fun front r w hfront hcloses hserves hmsgs => ?_⟩
    · by_contra hb
      obtain ⟨front, r, q, back, hsplit, hr, hothers⟩ := first_closing hhandled hmsgs hcloses hb
      have hq : front ++ [r] ++ [q] <+: called := ⟨back, by rw [hsplit]; simp⟩
      have hprefix := hq.trans (hcalled.trans harrived.front)
      obtain ⟨w, hserves⟩ := (hiff _ q (hq.trans hcalled)).mp hq
      have hcl : Closes find server app requests front r w :=
        ⟨(List.prefix_append _ _).trans hprefix, hr, hothers, hserves⟩
      have hthere := (harrived.iff hprefix).mp (hq.trans hcalled)
      have hlen : (stream (front ++ [r])).length ≤ (stream (front ++ [r] ++ [q])).length :=
        stream_prefix (List.prefix_append _ _)
      have hpos : 0 < (stream (front ++ [r])).length := by
        rw [stream_append, List.length_append, stream_single]
        have := r.text_pos
        omega
      obtain ⟨reads, read, hread, hshort, hlong⟩ := exists_read hpos p (Nat.le_trans hlen hthere)
      have hnext := hreads front r q w (by simpa using hprefix) hcl reads read (hread.trans hp)
        hshort hlong
      have hdiff : reads ++ [read] ≠ p := by
        rintro rfl
        rw [show front ++ [r, q] = front ++ [r] ++ [q] by simp] at hnext
        omega
      obtain ⟨hne', hcut'⟩ := hfirst _ (hread.trans hp)
      exact hbefore _ hread (by simp) hdiff ((hcl.stopped_iff hbodies hne' hcut').mpr hlong)
    · rw [hhandled] at hmsgs
      have hlen := hmsgs.length_le
      simp only [List.length_map] at hlen
      have hdone : front ++ [r] <+: done :=
        (List.prefix_of_prefix_length_le hfront (hcalled.trans harrived.front) hlen).trans hcalled
      exact (run_closed hbodies hpne harrived hdone hserves
        (closed_of_closes hserves hcloses)).2

/-! ## Two requests, and the first closes the connection -/

/-- The field `Connection: close`, with which a client says that this is its last request. -/
def closeField : Field where
  name := octets "Connection"
  value := octets "close"
  name_ne := by decide +kernel
  name_colon := by decide +kernel
  name_line := by decide +kernel
  name_front := by decide +kernel
  value_line := by decide +kernel
  value_front := by decide +kernel
  value_back := by decide +kernel

/-- The request `GET /` with some fields and without a body. -/
def getRoot (fields : List Field) (hlength : ∀ f ∈ fields, f.is "content-length" = false)
    (hchunked : ∀ f ∈ fields, f.is "transfer-encoding" = false) : WireRequest where
  method := octets "GET"
  path := octets "/"
  fields := fields
  body := []
  method_space := get_space
  method_line := get_line
  path_space := root_space
  path_line := root_line
  content_length := fun f hf his => absurd his (by rw [hlength f hf]; exact Bool.false_ne_true)
  no_body := fun _ => rfl
  not_chunked := hchunked
  body_fits := empty_fits

def lastGet : WireRequest := getRoot [closeField] (by decide +kernel) (by decide +kernel)

def otherGet : WireRequest := getRoot [] (by decide +kernel) (by decide +kernel)

/-- Both are there with one read, and both are handled. -/
theorem silent_behind_close_one_read :
    [lastGet.text ++ otherGet.text].flatten = stream [lastGet, otherGet] ∧
      ¬ SilentBehindClose Find.first okServer () [lastGet, otherGet]
        (onPollIn Find.first okServer [lastGet.text ++ otherGet.text] (new ())).1 := by
  refine ⟨by decide +kernel, fun h => ?_⟩
  have hhandled : (onPollIn Find.first okServer [lastGet.text ++ otherGet.text] (new ())).1.handled =
      [] ++ lastGet.message :: [otherGet.message] := by decide +kernel
  exact absurd (h.handled _ _ _ hhandled (by decide +kernel)) (by simp)

/-- With one read for each, the second is never made. -/
theorem silent_behind_close_two_reads :
    SilentBehindClose Find.first okServer () [lastGet, otherGet]
      (onPollIn Find.first okServer [lastGet.text, otherGet.text] (new ())).1 := by
  refine (silent_behind_close_iff Find.first okServer () [lastGet, otherGet] (by decide +kernel)
    [lastGet.text, otherGet.text] (by decide +kernel) ?_).mpr ?_
  · exact List.prefix_rfl
  · intro front r q w hprefix _ reads read hread hshort _
    -- the two requests are the only two
    obtain ⟨rfl, rfl, rfl⟩ : front = [] ∧ r = lastGet ∧ q = otherGet := by
      cases front with
      | nil =>
          have heq := hprefix.eq_of_length rfl
          cases heq
          exact ⟨rfl, rfl, rfl⟩
      | cons p front =>
          have hlen := hprefix.length_le
          simp at hlen
    have hlast : (stream ([] ++ [lastGet])).length = lastGet.text.length := by
      rw [List.nil_append, stream_single]
    have hboth : (stream ([] ++ [lastGet, otherGet])).length =
        lastGet.text.length + otherGet.text.length := by
      rw [List.nil_append, stream_cons, stream_single, List.length_append]
    rw [hlast] at hshort
    rw [hboth]
    have hpos := otherGet.text_pos
    cases reads with
    | nil =>
        obtain ⟨rfl, -⟩ := List.cons_prefix_cons.mp hread
        simpa using hpos
    | cons piece reads =>
        obtain ⟨rfl, -⟩ := List.cons_prefix_cons.mp hread
        simp at hshort

end Shitty.Http1
