import Shitty.Server.Theorems.Alone

/-!
# No client can tell what the others do

With handlers that keep nothing from one request to the next, the transports of a connection
and the octets sent on it are a function of what has been read from it, as it was cut into
reads, and of the moments at which its responses were sent.
-/

namespace Shitty.Server

open Lib

variable {find : Find} {server : Http1.Server Unit} {render : Rendering}
  {instants : Nat → Http1.Moment}

namespace Client

section

variable (find : Find) (server : Http1.Server Unit) (render : Rendering)
  (instants : Nat → Http1.Moment)

/-- One read, with the payloads that are sent upon it. The connection may be any. -/
def readAlone (so_far : Client Unit × List Bytes) (piece : Bytes) :
    Except Exn (Client Unit × List Bytes) := do
  let commands ← so_far.1.commands find server render instants 0 piece ()
  return ((so_far.1.onInput find server piece ()).1,
    so_far.2 ++ commands.map Command.octets)

/-- A connection from the first octet on. -/
def servedAlone (pieces : List Bytes) : Except Exn (Client Unit × List Bytes) :=
  Run.run (readAlone find server render instants) ({}, []) pieces

end

/-- The commands are the same on any other connection, but for its address. -/
theorem commands_octets {a : Addr} (b : Addr) {c : Client Unit} {piece : Bytes} {app : Unit}
    {commands : List Command}
    (h : c.commands find server render instants a piece app = .ok commands) :
    ∃ commands', c.commands find server render instants b piece app = .ok commands' ∧
      commands'.map Command.octets = commands.map Command.octets := by
  have hfirst : ∀ {t}, commands1 find server render instants a t = .ok commands →
      ∃ commands', commands1 find server render instants b t = .ok commands' ∧
        commands'.map Command.octets = commands.map Command.octets := by
    intro t ht
    obtain ⟨texts, htexts, hcommands⟩ := bind_eq_ok.mp ht
    cases hcommands
    refine ⟨_, bind_eq_ok.mpr ⟨texts, htexts, rfl⟩, ?_⟩
    simp only [List.map_append, List.map_map]
    congr 2
    split <;> rfl
  have hsecond : ∀ t before, (commands2 b t before).map Command.octets =
      (commands2 a t before).map Command.octets := by
    intro t before
    simp only [commands2, List.map_map]
    rfl
  unfold Client.commands at h ⊢
  cases hc : c.transport_ with
  | switch incoming_ =>
      simp only [hc] at h ⊢
      rcases hprotocol : SwitchTransport.protocol (incoming_ ++ piece) with _ | _ | _
      · rw [hprotocol] at h
        cases h
        exact ⟨[], rfl, rfl⟩
      · rw [hprotocol] at h
        exact hfirst h
      · rw [hprotocol] at h
        cases h
        exact ⟨_, rfl, hsecond _ _⟩
  | http1 t =>
      rw [hc] at h
      exact hfirst h
  | http2 t =>
      rw [hc] at h
      cases h
      exact ⟨_, rfl, hsecond _ _⟩

end Client

open Client

/-- A connection that is served alone is in the one state there is for what it has read. -/
theorem Alone.served {kernel : Nat → Net.Reply} {a : Addr} {pieces : List Bytes}
    {c : Client Unit} {net : Net.Connection}
    (h : Alone find server render instants kernel a pieces c net) :
    ∃ payloads, servedAlone find server render instants pieces = .ok (c, payloads) ∧
      ∀ size, TakesWhole size kernel → (∀ payload ∈ payloads, payload.length ≤ size) →
        Net.InOrder payloads.flatten net := by
  induction h with
  | accepted => exact ⟨[], rfl, fun _ _ _ => ⟨fun _ => rfl, fun o ho => by cases ho⟩⟩
  | pollOut before polled ih =>
      obtain ⟨payloads, hserved, horder⟩ := ih
      exact ⟨payloads, hserved, fun size hwhole hshort =>
        (horder size hwhole hshort).onPollOut polled⟩
  | close before ih =>
      obtain ⟨payloads, hserved, horder⟩ := ih
      exact ⟨payloads, hserved, fun size hwhole hshort => (horder size hwhole hshort).close _⟩
  | @read pieces c c' net net' app' commands before isOpen piece app input made performed ih =>
      obtain ⟨payloads, hserved, horder⟩ := ih
      obtain ⟨commands', hcommands, hoctets⟩ := commands_octets 0 made
      refine ⟨payloads ++ commands.map Command.octets, ?_, fun size hwhole hshort => ?_⟩
      · refine Run.run_snoc_of_ok hserved (bind_eq_ok.mpr ⟨commands', hcommands, ?_⟩)
        rw [input, hoctets]
        rfl
      · rw [List.forall_mem_append, List.forall_mem_map] at hshort
        rw [List.flatten_append, ← List.flatMap_def]
        exact performs_inOrder hwhole _ hshort.2 (horder size hwhole hshort.1) performed

namespace Impl

/-- In any run of the loop, with any other clients and in any order: the state of the
transports of an open connection, and what has been sent on it and waits, are those of a
connection that is served alone, has read the same and responds at the same moments. -/
theorem connection_apart {clock : Addr → Nat → Http1.Moment} {kernel : Addr → Nat → Net.Reply}
    {signalfd listenfd_ : Fd} {opens : List Fd} {batches : List (List Event)} {front : List Event}
    {s₀ s : Impl (Backend Unit)}
    (hbatches : Run.run (turn (transports find server render clock) kernel)
      (Impl.new signalfd listenfd_ opens { app := () }) batches = .ok s₀)
    (hfront : Run.run (dispatch (transports find server render clock) kernel) s₀ front = .ok s)
    {a : Addr} {c : Connection} (hc : s.connections a = some c) (hopen : c.isOpen = true) :
    ∃ payloads, servedAlone find server render (clock a) (heard a 0 (batches.flatten ++ front)) =
        .ok (s.world.clients a, payloads) ∧
      ∀ size, TakesWhole size (kernel a) → (∀ payload ∈ payloads, payload.length ≤ size) →
        c.wire ++ c.outgoing_.contents = payloads.flatten := by
  obtain ⟨next, hall⟩ := eachAlone hbatches hfront
  obtain ⟨-, pieces, -, hpieces, halone⟩ := hall.alone a c hc
  rw [← hpieces hopen]
  obtain ⟨payloads, hserved, horder⟩ := halone.served
  exact ⟨payloads, hserved, fun size hwhole hshort => (horder size hwhole hshort).stream hopen⟩

theorem opened_both : opened interleaved [.connection 0 false (some rest)] 1 = true := by
  decide +kernel

/-- `GET /`, which has come by itself. -/
def onlyGet : List Bytes := [octets "GET / HTTP/1.1" ++ Http1.CRLF ++ Http1.CRLF]

/-- The one response to it is short enough for the kernel to take it as a whole. -/
theorem onlyGet_short :
    ((servedAlone Find.first plainServer written (atNoon 1) onlyGet).toOption.all
      fun served => served.2.all fun payload => decide (payload.length ≤ 200)) = true := by
  decide +kernel

/-- A client with HTTP/1, with one with HTTP/2 beside it. -/
theorem connection_apart_get : ∃ (c : Connection) (s : Impl (Backend Unit))
    (payloads : List Bytes), s.connections 1 = some c ∧
      servedAlone Find.first plainServer written (atNoon 1) onlyGet =
        .ok (s.world.clients 1, payloads) ∧
      c.wire ++ c.outgoing_.contents = payloads.flatten := by
  obtain ⟨s₀, s, c, hbatches, hfront, hc, hopen⟩ := opened_run opened_both
  obtain ⟨payloads, hserved, hsent⟩ := connection_apart hbatches hfront hc hopen
  refine ⟨c, s, payloads, hc, hserved, hsent 200 (readyKernel_takesWhole (by decide) 1) ?_⟩
  intro payload hpayload
  have hshort := onlyGet_short
  have honly : servedAlone Find.first plainServer written (atNoon 1) onlyGet =
      .ok (s.world.clients 1, payloads) := hserved
  rw [honly] at hshort
  exact of_decide_eq_true (List.all_eq_true.mp hshort payload hpayload)

end Impl

end Shitty.Server
