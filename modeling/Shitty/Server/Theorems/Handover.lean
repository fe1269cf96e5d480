import Shitty.Http1.Theorems.Handover
import Shitty.Http2.Theorems.Settings
import Shitty.Server.Theorems.Exchange

/-!
# A client that changes to HTTP/2

What a connection makes of a client that begins with HTTP/1 and asks for HTTP/2, in any
run of the loop: responses, "101 Switching Protocols", and from there on the replies to
its frames. Its transport by itself is followed through the upgrade, and the loop adds
nothing to it. What is sent is one string of octets, in the order of what has been
asked.
-/

namespace Shitty.Server

open Lib Client Http1.ServerTransport
open Http2.ServerTransport (encode greeting response replies octetsOf encode_eq asDispatched
  serve_asks)

variable {find : Find} {server : Http1.Server Unit} {render : Rendering}
  {instants : Nat → Http1.Moment}

/-! ## The transport in the place of the other one -/

theorem onInput1_replaced {c : Client Unit} {s t : Http1.Transport (World Unit)} {u : Http2.Impl}
    (hinput : Http1.Transport.onInput find (virtual find server) s = .ok () t)
    (hreplaced : t.world.replacedBy = some u) (hempty : t.buf = []) :
    onInput1 find server c s = ({ c with transport_ := .http2 u }, (), none) := by
  have hfeed : u.feed t.buf = u := by
    rw [hempty, Http2.Impl.feed, List.append_nil]
  unfold onInput1
  rw [hinput]
  simp only [hreplaced, hfeed]

/-- Only the last read can have replaced the transport. -/
theorem not_replaced {s t : Http1.Transport (World Unit)} {piece : Bytes}
    (hinput : Http1.Transport.onInput find (virtual find server) (s.feed piece) = .ok () t) :
    s.world.replacedBy = none := by
  by_contra hsome
  have hreplaced : (virtual find server).replaced (s.feed piece).world = true :=
    Option.isSome_iff_ne_none.mpr hsome
  have herror : Http1.Transport.onInput find (virtual find server) (s.feed piece) =
      .error .useAfterDestroy (s.feed piece) :=
    Http1.Transport.onInput_loop_error (Http1.Transport.processInput_replaced hreplaced)
  rw [herror] at hinput
  cases hinput

/-- A connection of which all that has been read is for the transport that has been replaced. -/
theorem servedAlone_replaced (render : Rendering) (instants : Nat → Http1.Moment) {first : Bytes}
    (hfirst : SwitchTransport.protocol first = some .http1) {rest : List Bytes}
    {t : Http1.Transport (World Unit)} {u : Http2.Impl}
    (hrun : Http1.Transport.run find (virtual find server) (first :: rest) (new ()) = (t, none))
    (hopen : t.world.isOpen = true) (hreplaced : t.world.replacedBy = some u)
    (hempty : t.buf = []) :
    ∃ texts, render.texts instants 0 t.world.sent = .ok texts ∧
      servedAlone find server render instants (first :: rest) =
        .ok ({ transport_ := .http2 u, started := [(.http1, first)] }, texts ++ u.sent) := by
  rcases List.eq_nil_or_concat rest with rfl | ⟨rest, piece, rfl⟩
  · have hone : Http1.Transport.run find (virtual find server) ([] ++ [first]) (new ()) =
        (t, none) := hrun
    obtain ⟨s, hs, hinput⟩ := Http1.Transport.run_snoc_none hone
    cases hs
    have hnothing : render.texts instants 0
        (((new ()).feed first : Http1.Transport (World Unit)).world.sent) = .ok [] := rfl
    obtain ⟨texts, commands, htexts, hmade, hoctets⟩ := commands1_open hnothing hinput hopen
    rw [hreplaced, Option.elim_some] at hoctets
    have hread := readAlone_first hfirst hmade
    rw [onInput1_replaced hinput hreplaced hempty, hoctets] at hread
    exact ⟨texts, htexts, Run.run_snoc_of_ok (p := []) rfl hread⟩
  · rw [List.concat_eq_append, ← List.cons_append] at hrun ⊢
    obtain ⟨s, hs, hinput⟩ := Http1.Transport.run_snoc_none hrun
    have hbehind := onInput_behind find server (s.feed piece)
    rw [hinput] at hbehind
    obtain ⟨before, hbefore, hserved⟩ := servedAlone_http1 render instants hfirst rest hs
      (hbehind.isOpen hopen) (not_replaced hinput)
    obtain ⟨texts, commands, htexts, hmade, hoctets⟩ :=
      commands1_open (s := s.feed piece) hbefore hinput hopen
    rw [hreplaced, Option.elim_some] at hoctets
    refine ⟨before ++ texts, htexts, Run.run_snoc_of_ok hserved ?_⟩
    rw [readAlone_http1 s _ before piece hmade, onInput1_replaced hinput hreplaced hempty, hoctets,
      List.append_assoc]

open Http2.ServerTransport (run_front Begins) in
/-- Reads of a transport with HTTP/2. -/
theorem readsAlone_http2 (find : Find) (server : Http1.Server Unit) (render : Rendering)
    (instants : Nat → Http1.Moment) {u : Http2.Impl} (hu : Begins u)
    (started : List (Protocol × Bytes)) (before : List Bytes) (pieces : List Bytes) :
    ∀ {t : Http2.Impl}, Http2.ServerTransport.run pieces u = (t, none) →
      ∃ more, t.sent = u.sent ++ more ∧
        Run.run (readAlone find server render instants)
            ({ transport_ := .http2 u, started := started }, before) pieces =
          .ok ({ transport_ := .http2 t, started := started }, before ++ more) := by
  induction pieces using List.reverseRecOn with
  | nil =>
      intro t hrun
      cases hrun
      exact ⟨[], (List.append_nil _).symm, by rw [List.append_nil]; rfl⟩
  | append_singleton pieces piece ih =>
      intro t hrun
      obtain ⟨s, hs, hone⟩ := run_front [piece] hrun
      obtain ⟨more, hmore, hreads⟩ := ih hs
      rw [Http2.ServerTransport.run] at hone
      cases hinput : Http2.ServerTransport.onInput (s.feed piece) with
      | error e v =>
          rw [hinput] at hone
          cases hone
      | ok v w =>
          rw [hinput] at hone
          cases hone
          obtain ⟨-, hsent⟩ := onInput_sent hu hs hinput
          refine ⟨more ++ t.sent.drop s.sent.length, ?_, Run.run_snoc_of_ok hreads ?_⟩
          · rw [← List.append_assoc, ← hmore, hsent]
          · have hcommands : Client.commands find server render instants 0
                { transport_ := .http2 s, started := started } piece () =
                  .ok (commands2 0 (s.feed piece) s.sent.length) := rfl
            unfold readAlone
            rw [hcommands]
            unfold Client.onInput onInput2 commands2
            simp only [hinput]
            simp [endState, Function.comp_def, Command.octets, bind, Except.bind, pure,
              Except.pure]

/-- A connection that is served alone: requests that a client transport has sent, the last of
which asks for HTTP/2, and what a client with HTTP/2 sends then. -/
theorem servedAlone_upgraded (render : Rendering) (instants : Nat → Http1.Moment)
    {fb64 : Http2.Fb64} (hreturns : server.Returns)
    (hserver : server.upgrade = Http1.HTTP2Upgrader.upgrade fb64 find)
    {askings : List Http1.Asking} (hplain : ∀ a ∈ askings, a.Plain) {last : Http1.Asking}
    {http2Settings : Bytes} (hlast : last.Upgrades http2Settings) {peerSettings_ : Http2.Settings}
    (hdecode : Http2.decodeBase64Settings fb64 http2Settings = .ok peerSettings_)
    (d : Http1.Direction Http1.Asking.sender (askings ++ [last])) {first : Bytes}
    {rest : List Bytes} (hpieces : d.pieces = first :: rest)
    (hfirst : SwitchTransport.protocol first = some .http1)
    (client : Http2.ServerTransport.Client) {pieces : List Bytes}
    (hcut : pieces.flatten = Http2.CLIENT_PREFACE ++ encode client.frames)
    (hspares : Http2.ServerTransport.SparesPreface pieces) :
    ∃ requests responses request texts t payloads,
      List.Forall₂ Http1.Asking.Arrives askings requests ∧
      Http1.Dispatches server requests () responses () ∧ last.Arrives request ∧
      render.texts instants 0 (responses ++ [Http1.switchingProtocols]) = .ok texts ∧
      servedAlone find server render instants (d.pieces ++ pieces) =
        .ok ({ transport_ := .http2 t, started := [(.http1, first)] }, texts ++ payloads) ∧
      t.requests = (1, Http1.withoutUpgrade request) :: client.requests.map asDispatched ∧
      payloads.flatten = encode (greeting :: response 1 :: client.frames.flatMap replies) ∧
      ∀ payload ∈ payloads, payload.length ≤ 17 := by
  obtain ⟨requests, responses, app', request, harrive, hdispatches, harrives, s, hrun, hempty,
    hopen, hsent, hreplaced⟩ :=
    Http1.run_upgraded hreturns hserver () hplain hlast hdecode d
  rw [hpieces] at hrun ⊢
  obtain ⟨texts, htexts, hfront⟩ :=
    servedAlone_replaced render instants hfirst hrun hopen hreplaced hempty
  rw [hsent] at htexts
  have hu := Http2.begins_upgraded peerSettings_ (Http1.withoutUpgrade request)
  obtain ⟨t, hruns, hhandled⟩ := client.run_handled hu hcut hspares
  obtain ⟨more, hmore, hreads⟩ := readsAlone_http2 find server render instants hu
    [(.http1, first)] (texts ++
      (Http2.Impl.upgraded peerSettings_ (Http1.withoutUpgrade request)).sent) pieces hruns
  have hserves := (hu.serves_run pieces).1
  have hbefore : ∀ payload ∈ [greeting, response 1].map octetsOf, payload.length ≤ 17 := by decide
  have hshort := sent_short hu hbefore hruns
  rw [hruns] at hserves
  have hrequests := congrArg Prod.snd (hserves rfl).served
  rw [hhandled] at hrequests
  refine ⟨requests, responses, request, texts, t, t.sent, harrive, hdispatches, harrives, htexts,
    ?_, hrequests.trans ?_, ?_, hshort⟩
  · unfold servedAlone at hfront ⊢
    rw [Run.run_append, hfront, hmore, ← List.append_assoc]
    exact hreads
  · exact serve_asks client.asks _ Hpack.mirrors_init
  · rw [(hserves rfl).sent_flatten, hhandled, encode_eq, encode_eq]
    rfl

namespace Impl

/-- In any run of the loop, with any other clients and in any order: requests that a client
transport has sent on a connection, the last of which asks for HTTP/2, and what a client with
HTTP/2 sends behind them. Those in front have been dispatched and answered; the last one has
become stream 1 of the HTTP/2 transport, and the others have followed as the client meant them.
What has been sent, or waits, are the responses, "101 Switching Protocols", the preface and the
response to the last request, and the replies to the frames. -/
theorem upgrade_answered {clock : Addr → Nat → Http1.Moment} {kernel : Addr → Nat → Net.Reply}
    {signalfd listenfd_ : Fd} {opens : List Fd} {batches : List (List Event)} {front : List Event}
    {s₀ s : Impl (Backend Unit)}
    (hbatches : Run.run (turn (transports find server render clock) kernel)
      (Impl.new signalfd listenfd_ opens { app := () }) batches = .ok s₀)
    (hfront : Run.run (dispatch (transports find server render clock) kernel) s₀ front = .ok s)
    {a : Addr} {c : Connection} (hc : s.connections a = some c) (hopen : c.isOpen = true)
    {fb64 : Http2.Fb64} (hreturns : server.Returns)
    (hserver : server.upgrade = Http1.HTTP2Upgrader.upgrade fb64 find)
    {askings : List Http1.Asking} (hplain : ∀ a ∈ askings, a.Plain) {last : Http1.Asking}
    {http2Settings : Bytes} (hlast : last.Upgrades http2Settings) {peerSettings_ : Http2.Settings}
    (hdecode : Http2.decodeBase64Settings fb64 http2Settings = .ok peerSettings_)
    (d : Http1.Direction Http1.Asking.sender (askings ++ [last])) {first : Bytes}
    {rest : List Bytes} (hpieces : d.pieces = first :: rest)
    (hfirst : SwitchTransport.protocol first = some .http1)
    (client : Http2.ServerTransport.Client) {pieces : List Bytes}
    (hcut : pieces.flatten = Http2.CLIENT_PREFACE ++ encode client.frames)
    (hspares : Http2.ServerTransport.SparesPreface pieces)
    (hheard : heard a 0 (batches.flatten ++ front) = d.pieces ++ pieces) :
    ∃ requests responses request texts t, List.Forall₂ Http1.Asking.Arrives askings requests ∧
      Http1.Dispatches server requests () responses () ∧ last.Arrives request ∧
      (s.world.clients a).transport_ = .http2 t ∧
      t.requests = (1, Http1.withoutUpgrade request) :: client.requests.map asDispatched ∧
      render.texts (clock a) 0 (responses ++ [Http1.switchingProtocols]) = .ok texts ∧
      ∀ size, 17 ≤ size → TakesWhole size (kernel a) → (∀ text ∈ texts, text.length ≤ size) →
        c.wire ++ c.outgoing_.contents = texts.flatten ++
          encode (greeting :: response 1 :: client.frames.flatMap replies) := by
  obtain ⟨sent, halone, horder⟩ := connection_apart hbatches hfront hc hopen
  obtain ⟨requests, responses, request, texts, t, payloads, harrive, hdispatches, harrives,
    htexts, hserved, hrequests, hflatten, hshort⟩ := servedAlone_upgraded render (clock a)
      hreturns hserver hplain hlast hdecode d hpieces hfirst client hcut hspares
  rw [hheard, hserved] at halone
  obtain ⟨hclient, rfl⟩ := Prod.mk.inj (Except.ok.inj halone)
  refine ⟨requests, responses, request, texts, t, harrive, hdispatches, harrives,
    by rw [← hclient], hrequests, htexts, fun size hsize hwhole hrendered => ?_⟩
  rw [horder size hwhole ?_, List.flatten_append, hflatten]
  exact List.forall_mem_append.mpr
    ⟨hrendered, fun payload hpayload => Nat.le_trans (hshort payload hpayload) hsize⟩

open Http2.ServerTransport in
/-- A client that asks once more. -/
def onceMore : Http2.ServerTransport.Client where
  frames := [({ type := Http2.FrameType.SETTINGS }, []),
    headersFrame 3 (Hpack.Rfc.blockOctets first_block.fields)]
  requests := [(3, first_block.triples)]
  asks := .aside (by decide) (.request rfl first_block (.done _))
  sized := by
    unfold Sized
    decide
  framed := by
    unfold Framed
    decide
  acceptable := by
    intro f hf
    simp only [List.mem_cons, List.not_mem_nil, or_false] at hf
    rcases hf with rfl | rfl <;> exact ⟨by decide, by decide, by decide, by decide⟩
  room := by decide
  settings := by
    intro f hf hsets settings hread
    simp only [List.mem_cons, List.not_mem_nil, or_false] at hf
    rcases hf with rfl | rfl
    · cases hread
      decide
    · exact absurd hsets.1 (by decide)

/-- A server that changes to HTTP/2. -/
def upgradingServer : Http1.Server Unit where
  dispatch _ _ := .ok ([{}], ())
  upgrade := Http1.HTTP2Upgrader.upgrade Http2.ServerTransport.fb64_tableSize Find.first

open Http1 in
/-- "101 Switching Protocols" is not sent as a message with a body. -/
def writtenUpgrade : Rendering where
  text moment response := do
    let first_line ← statusLine response.status_code_.toUInt64
    return if response.status_code_ = 101 then
        Sending.headersText Find.first .asIs moment first_line response.message.headers_
      else Sending.messageText Find.first .asIs moment first_line response.message
  text_ok _ response h := by
    obtain ⟨-, line, hline⟩ | ⟨hnot, -⟩ := statusLine_cases response
    · exact ⟨_, by rw [hline]; rfl⟩
    · exact absurd h hnot

/-- The transports of a server that changes to HTTP/2 when it is asked to. -/
def upgradingTransports : Transports (Backend Unit) :=
  transports Find.first upgradingServer writtenUpgrade atNoon

/-- One client, that posts something, changes to HTTP/2, and asks once more. -/
def changing : List (List Event) := [
  [.listener [quiet], .connection 0 false (some ⟨Http1.changePieces, .again⟩)],
  [.connection 0 false (some ⟨[Http2.CLIENT_PREFACE ++ encode onceMore.frames], .again⟩)]]

/-- Whether it is still there then. -/
def changed : Bool :=
  match Run.run (turn upgradingTransports readyKernel) noClients changing with
  | .ok s => s.isOpen 0
  | .error _ => false

theorem changed_all : changed = true := by
  decide +kernel

theorem changed_run : ∃ (s : Impl (Backend Unit)) (c : Connection),
    Run.run (turn upgradingTransports readyKernel) noClients changing = .ok s ∧
      s.connections 0 = some c ∧ c.isOpen = true := by
  have hall := changed_all
  unfold changed at hall
  split at hall
  · rename_i s hrun
    obtain ⟨c, hc, hopen⟩ := isOpen_connection hall
    exact ⟨s, c, hrun, hc, hopen⟩
  · cases hall

theorem upgrade_answered_once : ∃ (s : Impl (Backend Unit)) (c : Connection),
    s.connections 0 = some c ∧
    ∃ requests responses request texts t,
      List.Forall₂ Http1.Asking.Arrives [Http1.postAsking] requests ∧
      Http1.Dispatches upgradingServer requests () responses () ∧
      Http1.upgradeAsking.Arrives request ∧
      (s.world.clients 0).transport_ = .http2 t ∧
      t.requests = (1, Http1.withoutUpgrade request) :: onceMore.requests.map asDispatched ∧
      writtenUpgrade.texts (atNoon 0) 0 (responses ++ [Http1.switchingProtocols]) = .ok texts ∧
      ∀ size, 17 ≤ size → TakesWhole size (readyKernel 0) → (∀ text ∈ texts, text.length ≤ size) →
        c.wire ++ c.outgoing_.contents = texts.flatten ++
          encode (greeting :: response 1 :: onceMore.frames.flatMap replies) := by
  obtain ⟨s, c, hbatches, hc, hopen⟩ := changed_run
  have hfront : Run.run (dispatch upgradingTransports readyKernel) s [] = .ok s := rfl
  have hreturns : upgradingServer.Returns := fun _ _ => ⟨_, _, rfl, Http1.sendable_ok⟩
  have hdecode : Http2.decodeBase64Settings Http2.ServerTransport.fb64_tableSize
      (octets "AAEAAAAB") = .ok Http2.ServerTransport.upgraded.peerSettings_ := by
    decide +kernel
  exact ⟨s, c, hc, upgrade_answered hbatches hfront hc hopen hreturns rfl
    (List.forall_mem_singleton.mpr Http1.postAsking_plain) Http1.upgradeAsking_upgrades hdecode
    Http1.change_sent.direction rfl (by decide +kernel) onceMore List.flatten_singleton
    (Http2.ServerTransport.sparesPreface_cons [] (by decide)) rfl⟩

end Impl

end Shitty.Server
