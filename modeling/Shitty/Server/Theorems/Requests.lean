import Shitty.Http1.Theorems.Delivery
import Shitty.Server.Theorems.Apart

/-!
# A client with HTTP/1 among others

What a connection makes of HTTP/1, in any run of the loop: the requests that a client
transport has sent are dispatched one by one, and the responses are sent in their order.
Handlers are any that return and keep nothing, and respond with codes that there are
status lines for. Where the kernel takes responses as a whole, they are all that is
sent.
-/

namespace Shitty.Http1

open Lib

namespace Transport

variable {ω : Type} {find : Find} {virtual : Virtual ω}

/-- A run that ends without an exception ends with the last read, which returns. -/
theorem run_snoc_none {pieces : List Bytes} {piece : Bytes} : ∀ {s u : Transport ω},
    run find virtual (pieces ++ [piece]) s = (u, none) →
      ∃ t, run find virtual pieces s = (t, none) ∧
        onInput find virtual (t.feed piece) = .ok () u := by
  induction pieces with
  | nil =>
      intro s u h
      rw [List.nil_append, run] at h
      cases hinput : onInput find virtual (s.feed piece) with
      | error e t =>
          rw [hinput] at h
          cases h
      | ok v t =>
          rw [hinput] at h
          cases h
          exact ⟨s, rfl, hinput⟩
  | cons first pieces ih =>
      intro s u h
      rw [List.cons_append, run] at h
      rw [run]
      cases hinput : onInput find virtual (s.feed first) with
      | error e t =>
          rw [hinput] at h
          cases h
      | ok v t =>
          rw [hinput] at h
          exact ih h

end Transport

end Shitty.Http1

namespace Shitty.Server

open Lib Client Http1.ServerTransport

variable {find : Find} {server : Http1.Server Unit} {render : Rendering}
  {instants : Nat → Http1.Moment}

/-! ## HTTP/1 on a connection -/

/-- A call that leaves the transport in its place, on a connection that stays open. -/
theorem onInput1_stays {c : Client Unit} {s t : Http1.Transport (World Unit)}
    (hinput : Http1.Transport.onInput find (virtual find server) s = .ok () t)
    (hnone : t.world.replacedBy = none) :
    onInput1 find server c s = ({ c with transport_ := .http1 t }, (), none) := by
  unfold onInput1
  rw [hinput]
  simp only [hnone]

/-- What a call writes follows what has been written. -/
theorem commands1_open {before : List Bytes} {s t : Http1.Transport (World Unit)}
    (hbefore : render.texts instants 0 s.world.sent = .ok before)
    (hinput : Http1.Transport.onInput find (virtual find server) s = .ok () t)
    (hopen : t.world.isOpen = true) :
    ∃ texts commands, render.texts instants 0 t.world.sent = .ok (before ++ texts) ∧
      commands1 find server render instants 0 s = .ok commands ∧
      commands.map Command.octets = texts ++ t.world.replacedBy.elim [] Http2.Impl.sent := by
  have hbehind := onInput_behind find server s
  rw [hinput] at hbehind
  obtain ⟨more, hmore, hsendable⟩ := hbehind.sent
  change s.world.sent ++ more = t.world.sent at hmore
  obtain ⟨texts, htexts⟩ := render.texts_ok instants hsendable s.world.sent.length
  refine ⟨texts, texts.map (.send 0) ++
    (t.world.replacedBy.elim [] Http2.Impl.sent).map (.send 0), ?_, ?_, ?_⟩
  · rw [← hmore]
    exact render.texts_append instants more hbefore (by rwa [Nat.zero_add])
  · refine bind_eq_ok.mpr ⟨texts, ?_, ?_⟩
    · rw [hinput, endState, ← hmore, List.drop_left]
      exact htexts
    · rw [hinput]
      simp only [endState, hopen, if_true, List.append_nil]
      rfl
  · simp [Function.comp_def, Command.octets]

/-- The first read, which settles that it is HTTP/1. -/
theorem readAlone_first {first : Bytes} (hfirst : SwitchTransport.protocol first = some .http1)
    {commands : List Command}
    (hmade : commands1 find server render instants 0 ((new ()).feed first) = .ok commands) :
    readAlone find server render instants ({}, []) first =
      .ok ((onInput1 find server { started := [(.http1, first)] } ((new ()).feed first)).1,
        commands.map Command.octets) := by
  unfold readAlone Client.onInput Client.commands
  simp only [List.nil_append]
  unfold onInputSwitch
  rw [hfirst]
  simp only [List.nil_append, hmade]
  rfl

/-- Each read behind the first one is the HTTP/1 transport's. -/
theorem readAlone_http1 (s : Http1.Transport (World Unit)) (started : List (Protocol × Bytes))
    (before : List Bytes) (piece : Bytes) {commands : List Command}
    (hmade : commands1 find server render instants 0 (s.feed piece) = .ok commands) :
    readAlone find server render instants ({ transport_ := .http1 s, started := started }, before)
        piece =
      .ok ((onInput1 find server { transport_ := .http1 s, started := started } (s.feed piece)).1,
        before ++ commands.map Command.octets) := by
  have hcommands : Client.commands find server render instants 0
      { transport_ := .http1 s, started := started } piece () = .ok commands := hmade
  unfold readAlone
  rw [hcommands]
  rfl

/-- As long as it is neither closed nor upgraded, a connection with HTTP/1 is its transport, and
what is sent on it are the responses. -/
theorem servedAlone_http1 (render : Rendering) (instants : Nat → Http1.Moment) {first : Bytes}
    (hfirst : SwitchTransport.protocol first = some .http1)
    (rest : List Bytes) : ∀ {t : Http1.Transport (World Unit)},
      Http1.Transport.run find (virtual find server) (first :: rest) (new ()) = (t, none) →
      t.world.isOpen = true → t.world.replacedBy = none →
        ∃ texts, render.texts instants 0 t.world.sent = .ok texts ∧
          servedAlone find server render instants (first :: rest) =
            .ok ({ transport_ := .http1 t, started := [(.http1, first)] }, texts) := by
  induction rest using List.reverseRecOn with
  | nil =>
      intro t hrun hopen hnone
      have hone : Http1.Transport.run find (virtual find server) ([] ++ [first]) (new ()) =
          (t, none) := hrun
      obtain ⟨s, hs, hinput⟩ := Http1.Transport.run_snoc_none hone
      cases hs
      have hnothing : render.texts instants 0
          (((new ()).feed first : Http1.Transport (World Unit)).world.sent) = .ok [] := rfl
      obtain ⟨texts, commands, htexts, hmade, hoctets⟩ := commands1_open hnothing hinput hopen
      rw [hnone, Option.elim_none, List.append_nil] at hoctets
      refine ⟨texts, htexts, ?_⟩
      have hread := readAlone_first hfirst hmade
      rw [onInput1_stays hinput hnone, hoctets] at hread
      exact Run.run_snoc_of_ok (p := []) rfl hread
  | append_singleton rest piece ih =>
      intro t hrun hopen hnone
      rw [← List.cons_append] at hrun ⊢
      obtain ⟨s, hs, hinput⟩ := Http1.Transport.run_snoc_none hrun
      have hbehind := onInput_behind find server (s.feed piece)
      rw [hinput] at hbehind
      obtain ⟨before, hbefore, hserved⟩ :=
        ih hs (hbehind.isOpen hopen) (hbehind.replacedBy hnone)
      obtain ⟨texts, commands, htexts, hmade, hoctets⟩ :=
        commands1_open (s := s.feed piece) hbefore hinput hopen
      rw [hnone, Option.elim_none, List.append_nil] at hoctets
      refine ⟨before ++ texts, htexts, Run.run_snoc_of_ok hserved ?_⟩
      rw [readAlone_http1 s _ before piece hmade, onInput1_stays hinput hnone, hoctets]

/-- Requests that a client transport has sent, on a connection that is served alone. -/
theorem servedAlone_askings (find : Find) (render : Rendering) (instants : Nat → Http1.Moment)
    (hserver : server.Returns)
    {askings : List Http1.Asking} (hplain : ∀ a ∈ askings, a.Plain)
    (d : Http1.Direction Http1.Asking.sender askings) {first : Bytes} {rest : List Bytes}
    (hpieces : d.pieces = first :: rest)
    (hfirst : SwitchTransport.protocol first = some .http1) :
    ∃ requests responses texts, List.Forall₂ Http1.Asking.Arrives askings requests ∧
      Http1.Dispatches server requests () responses () ∧
      render.texts instants 0 responses = .ok texts ∧
      ∃ handled,
        let t := Http1.Transport.between [] handled { sent := responses, app := () }
        servedAlone find server render instants d.pieces =
          .ok ({ transport_ := .http1 t, started := [(.http1, first)] }, texts) := by
  obtain ⟨ms, hms, hcut, hpaced⟩ := d.exists_messages
  obtain ⟨requests, responses, app', harrive, hdispatches, htakes⟩ :=
    Http1.takes_askings find hserver hms hplain { app := () } rfl rfl
  have hrun := Http1.Transport.run_messages htakes rfl d.pieces_ne hcut hpaced []
  change Http1.Transport.run find _ d.pieces (new ()) = _ at hrun
  rw [hpieces] at hrun ⊢
  obtain ⟨texts, htexts, hserved⟩ := servedAlone_http1 render instants hfirst rest hrun rfl rfl
  exact ⟨requests, responses, texts, harrive, hdispatches, htexts, _, hserved⟩

/-! ## Requests among others -/

namespace Impl

/-- In any run of the loop, with any other clients and in any order: the requests that a client
transport has sent on a connection have been dispatched, each once, in order and with what they
were sent with, and the responses to them have been sent in that order, or wait, each as it is
written at the moment at which it is sent. -/
theorem requests_answered {clock : Addr → Nat → Http1.Moment} {kernel : Addr → Nat → Net.Reply}
    {signalfd listenfd_ : Fd} {opens : List Fd} {batches : List (List Event)} {front : List Event}
    {s₀ s : Impl (Backend Unit)}
    (hbatches : Run.run (turn (transports find server render clock) kernel)
      (Impl.new signalfd listenfd_ opens { app := () }) batches = .ok s₀)
    (hfront : Run.run (dispatch (transports find server render clock) kernel) s₀ front = .ok s)
    {a : Addr} {c : Connection} (hc : s.connections a = some c) (hopen : c.isOpen = true)
    (hserver : server.Returns) {askings : List Http1.Asking} (hplain : ∀ a ∈ askings, a.Plain)
    (d : Http1.Direction Http1.Asking.sender askings) {first : Bytes} {rest : List Bytes}
    (hpieces : d.pieces = first :: rest)
    (hfirst : SwitchTransport.protocol first = some .http1)
    (hheard : heard a 0 (batches.flatten ++ front) = d.pieces) :
    ∃ requests responses texts, List.Forall₂ Http1.Asking.Arrives askings requests ∧
      Http1.Dispatches server requests () responses () ∧
      render.texts (clock a) 0 responses = .ok texts ∧
      (∃ handled, (s.world.clients a).transport_ =
        .http1 (Http1.Transport.between [] handled { sent := responses, app := () })) ∧
      ∀ size, TakesWhole size (kernel a) → (∀ text ∈ texts, text.length ≤ size) →
        c.wire ++ c.outgoing_.contents = texts.flatten := by
  obtain ⟨payloads, halone, hsent⟩ := connection_apart hbatches hfront hc hopen
  obtain ⟨requests, responses, texts, harrive, hdispatches, htexts, handled, hserved⟩ :=
    servedAlone_askings find render (clock a) hserver hplain d hpieces hfirst
  rw [hheard, hserved] at halone
  obtain ⟨hclient, rfl⟩ := Prod.mk.inj (Except.ok.inj halone)
  exact ⟨requests, responses, texts, harrive, hdispatches, htexts,
    ⟨handled, by rw [← hclient]⟩, hsent⟩

/-- A run in which a client comes behind some octets of another one, with HTTP/2. -/
def behindPreface : List (List Event) := [
  [.listener [quiet, quiet], .connection 0 true (some ⟨[asksTwice.take 5], .again⟩)]]

/-- The event with which both requests are read, in the pieces they come in. -/
def askedEvent : Event := .connection 1 false (some ⟨Http1.askedPieces, .again⟩)

theorem opened_asked : opened behindPreface [askedEvent] 1 = true := by
  decide +kernel

theorem requests_answered_two : ∃ (c : Connection) (s : Impl (Backend Unit)),
    s.connections 1 = some c ∧
    ∃ requests responses texts,
      List.Forall₂ Http1.Asking.Arrives [Http1.postAsking, Http1.rootAsking] requests ∧
      Http1.Dispatches plainServer requests () responses () ∧
      written.texts (atNoon 1) 0 responses = .ok texts ∧
      (∃ handled, (s.world.clients 1).transport_ =
        .http1 (Http1.Transport.between [] handled { sent := responses, app := () })) ∧
      ∀ size, TakesWhole size (readyKernel 1) → (∀ text ∈ texts, text.length ≤ size) →
        c.wire ++ c.outgoing_.contents = texts.flatten := by
  obtain ⟨s₀, s, c, hbatches, hfront, hc, hopen⟩ := opened_run opened_asked
  have hreturns : plainServer.Returns := fun _ _ => ⟨_, _, rfl, Http1.sendable_ok⟩
  exact ⟨c, s, hc, requests_answered hbatches hfront hc hopen hreturns Http1.askings_plain
    Http1.asked_sent.direction rfl (by decide +kernel) rfl⟩

end Impl

end Shitty.Server
