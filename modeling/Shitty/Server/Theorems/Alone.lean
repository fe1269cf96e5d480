import Shitty.Http2.Theorems.Overreads
import Shitty.Http2.Theorems.Replies
import Shitty.Server.Logic.Alone
import Shitty.Server.Theorems.Selection

/-!
# Each client by itself

In any run of the loop, whatever the clients are and in whatever order their octets
come: a connection is served as if it was the only one, and a client with HTTP/2 gets
the replies to its frames. What is proved of a transport by itself then holds in the
loop, among any other clients. No event of such a client ends the loop, either.
-/

namespace Shitty.Http2.ServerTransport

/-! ## A transport that goes on -/

theorem run_append {front : List Bytes} (rest : List Bytes) : ∀ {s t : Impl},
    run front s = (t, none) → run (front ++ rest) s = run rest t := by
  induction front with
  | nil =>
      intro s t h
      cases h
      rfl
  | cons piece front ih =>
      intro s t h
      rw [run] at h
      rw [List.cons_append, run]
      cases hinput : onInput (s.feed piece) with
      | error e u =>
          rw [hinput] at h
          cases h
      | ok v u =>
          rw [hinput] at h
          exact ih h

/-- What has been read before has been taken. -/
theorem run_front {front : List Bytes} (rest : List Bytes) : ∀ {s u : Impl},
    run (front ++ rest) s = (u, none) → ∃ t, run front s = (t, none) ∧ run rest t = (u, none) := by
  induction front with
  | nil => exact fun h => ⟨_, rfl, h⟩
  | cons piece front ih =>
      intro s u h
      rw [List.cons_append, run] at h
      rw [run]
      cases hinput : onInput (s.feed piece) with
      | error e t =>
          rw [hinput] at h
          cases h
      | ok v t =>
          rw [hinput] at h
          exact ih h

theorem sparesPreface_cons {piece : Bytes} (pieces : List Bytes)
    (h : CLIENT_PREFACE.length ≤ piece.length) : SparesPreface (piece :: pieces) := by
  rintro c ⟨front, hfront, rfl⟩
  cases front with
  | nil => exact .inl (by decide)
  | cons first front =>
      obtain ⟨rfl, -⟩ := List.cons_prefix_cons.mp hfront
      right
      rw [List.flatten_cons, List.length_append]
      omega

theorem encode_mono {frames frames' : List (FrameHeader × Bytes)} (h : frames <+: frames') :
    encode frames <+: encode frames' := h.flatMap _

theorem Begins.sound {u : Impl} (h : Begins u) : Sound u where
  idle p hp := by
    rw [h.streams] at hp
    rw [List.mem_singleton.mp hp]
  whole f hf := by
    rw [h.handled] at hf
    cases hf

/-- All payloads are short if those before were. -/
theorem Serves.short {u s : Impl} (h : Serves u s) (hwhole : Whole s)
    (hbefore : ∀ payload ∈ u.sent, payload.length ≤ 17) :
    ∀ payload ∈ s.sent, payload.length ≤ 17 := by
  have hshort : ∀ f ∈ s.handled.flatMap replies, f.2.length ≤ 8 := by
    intro f hf
    obtain ⟨g, hg, hf⟩ := List.mem_flatMap.mp hf
    unfold replies at hf
    split at hf
    · rw [List.mem_singleton.mp hf]
      show (Hpack.Rfc.blockOctets [.indexed 8]).length ≤ 8
      decide
    split at hf
    · rename_i hanswered
      rw [List.mem_singleton.mp hf]
      show g.2.length ≤ 8
      rw [hwhole g hg, hanswered.2.2]
      decide
    split at hf
    · rw [List.mem_singleton.mp hf]
      exact Nat.zero_le 8
    · cases hf
  intro payload hpayload
  rw [h.sent, List.mem_append] at hpayload
  rcases hpayload with hpayload | hpayload
  · exact hbefore payload hpayload
  obtain ⟨f, hf, rfl⟩ := List.mem_map.mp hpayload
  have := hshort f hf
  rw [octetsOf, List.length_append, length_writeTo]
  omega

end Shitty.Http2.ServerTransport

namespace Shitty.Server

open Lib

variable {σ : Type} {find : Find} {server : Http1.Server σ} {render : Rendering}

/-! ## HTTP/2 by prior knowledge -/

/-- With what has been sent: the octets wait in the buffer of the `SwitchTransport`, or an
HTTP/2 transport has read them, all of the preface at once. -/
inductive Speaks (text : Bytes) (c : Client σ) : List Bytes → Prop
  | waits (unsettled : ¬ Settles text) (transport : c.transport_ = .switch text) :
      Speaks text c []
  | switched {first : Bytes} {pieces : List Bytes} {t : Http2.Impl}
      (cut : (first :: pieces).flatten = text)
      (preface : Http2.CLIENT_PREFACE.length ≤ first.length)
      (reads : Http2.ServerTransport.run (first :: pieces) (Http2.Impl.new {}) = (t, none))
      (transport : c.transport_ = .http2 t) : Speaks text c t.sent

section

open Http2.ServerTransport (run run_append run_front sparesPreface_cons begins_new Begins
  run_sound run_passes handled_grows onInput Passes)

/-- The payloads of HTTP/2 are short enough for such a kernel, and so are sent in order. -/
theorem sends_inOrder {kernel : Nat → Net.Reply} {a : Addr} {payloads : List Bytes}
    {sent : Bytes} {net net' : Net.Connection} (hwhole : TakesWhole 17 kernel)
    (hshort : ∀ payload ∈ payloads, payload.length ≤ 17) (h : Net.InOrder sent net)
    (hrun : Run.run (performOn kernel) net (payloads.map (.send a)) = .ok net') :
    Net.InOrder (sent ++ payloads.flatten) net' := by
  have hall := performs_inOrder hwhole _ (List.forall_mem_map.mpr hshort) h hrun
  rwa [List.flatMap_map, show (fun payload => (Command.send a payload).octets) = id from rfl,
    List.flatMap_id] at hall

/-- What is sent on a call of `onInput` follows what has been sent. -/
theorem onInput_sent {u s t : Http2.Impl} (hu : Begins u) {pieces : List Bytes} {piece : Bytes}
    (hruns : run pieces u = (s, none)) (hinput : onInput (s.feed piece) = .ok () t) :
    run (pieces ++ [piece]) u = (t, none) ∧ s.sent ++ t.sent.drop s.sent.length = t.sent := by
  have hall : run (pieces ++ [piece]) u = (t, none) := by
    rw [run_append [piece] hruns, run, hinput]
    rfl
  have hbefore := (hu.serves_run pieces).1
  have hafter := (hu.serves_run (pieces ++ [piece])).1
  rw [hruns] at hbefore
  rw [hall] at hafter
  have hpasses : Passes s t := by
    have hone : run [piece] s = (t, none) := by
      rw [run, hinput]
      rfl
    exact run_passes hone
  have hgrows : s.sent <+: t.sent := by
    obtain ⟨rest, hrest⟩ := handled_grows hpasses
    rw [(hbefore rfl).sent, (hafter rfl).sent, ← hrest, List.flatMap_append, List.map_append,
      ← List.append_assoc]
    exact List.prefix_append _ _
  refine ⟨hall, ?_⟩
  obtain ⟨rest, hrest⟩ := hgrows
  rw [← hrest, List.drop_left]

/-- All payloads are short if those before the first octet were. -/
theorem sent_short {u t : Http2.Impl} (hu : Begins u)
    (hbefore : ∀ payload ∈ u.sent, payload.length ≤ 17) {pieces : List Bytes}
    (hruns : run pieces u = (t, none)) : ∀ payload ∈ t.sent, payload.length ≤ 17 := by
  have hserves := (hu.serves_run pieces).1
  have hwhole := (run_sound pieces hu.sound).1
  rw [hruns] at hserves hwhole
  exact (hserves rfl).short hwhole hbefore

theorem greeting_short : ∀ payload ∈ (Http2.Impl.new {}).sent, payload.length ≤ 17 := by
  decide

/-- The octets of a client with HTTP/2 by prior knowledge. -/
theorem asked_of_part {text rest : Bytes} (h : text <+: Http2.CLIENT_PREFACE ++ rest) :
    Settles text → asked text = .http2 := by
  intro hsettles
  obtain ⟨missing, hmissing⟩ := h
  rw [← asked_append missing hsettles, hmissing, asked_iff]
  exact List.prefix_append _ _

theorem onInput2_ok {c c' : Client σ} {s : Http2.Impl} {app app' : σ}
    (h : c.onInput2 s app = (c', app', none)) :
    ∃ t, onInput s = .ok () t ∧ c'.transport_ = .http2 t := by
  unfold Client.onInput2 at h
  cases hinput : onInput s with
  | error e t =>
      rw [hinput] at h
      cases h
  | ok u t =>
      rw [hinput] at h
      cases h
      exact ⟨t, rfl, rfl⟩

theorem onInput2_none {c : Client σ} {piece : Bytes} {s t : Http2.Impl} {app : σ}
    (h : run [piece] s = (t, none)) : (c.onInput2 (s.feed piece) app).2.2 = none := by
  rw [run] at h
  unfold Client.onInput2
  cases hinput : onInput (s.feed piece) with
  | ok u t => rfl
  | error e t =>
      rw [hinput] at h
      cases h

/-- A read keeps what is spoken on a connection, and the order in which it is sent: it settles
the protocol, or is one more of the reads of HTTP/2, or is too little to say yet. -/
theorem Speaks.read {instants : Nat → Http1.Moment} {kernel : Nat → Net.Reply} {a : Addr}
    {octets piece : Bytes} {c c' : Client σ} {net net' : Net.Connection} {sent : List Bytes}
    {app app' : σ} {commands : List Command} (hspeaks : Speaks octets c sent)
    (horder : TakesWhole 17 kernel → Net.InOrder sent.flatten net)
    (hasked : Settles (octets ++ piece) → asked (octets ++ piece) = .http2)
    (hinput : c.onInput find server piece app = (c', app', none))
    (hmade : c.commands find server render instants a piece app = .ok commands)
    (hperformed : Run.run (performOn kernel) net commands = .ok net') :
    ∃ sent, Speaks (octets ++ piece) c' sent ∧
      (TakesWhole 17 kernel → Net.InOrder sent.flatten net') := by
  cases hspeaks with
  | waits unsettled transport =>
      unfold Client.commands at hmade
      rw [transport] at hmade
      simp only at hmade
      by_cases hsettles : Settles (octets ++ piece)
      · unfold Client.onInput at hinput
        rw [transport] at hinput
        simp only at hinput
        unfold Client.onInputSwitch at hinput
        rw [(protocol_eq _).1 hsettles, hasked hsettles] at hinput hmade
        simp only at hinput hmade
        cases hmade
        obtain ⟨t, hread, htransport⟩ := onInput2_ok hinput
        have hnew : run [] (Http2.Impl.new {}) = (Http2.Impl.new {}, none) := rfl
        obtain ⟨hruns, -⟩ := onInput_sent (begins_new {}) hnew hread
        have hshort := sent_short (begins_new {}) greeting_short hruns
        rw [Client.commands2, hread] at hperformed
        refine ⟨t.sent, .switched (List.flatten_singleton) ?_ hruns htransport,
          fun hwhole => ?_⟩
        · exact ((asked_iff _).mp (hasked hsettles)).length_le
        · exact sends_inOrder hwhole hshort (horder hwhole) hperformed
      · rw [onInput_waits find server transport hsettles] at hinput
        rw [(protocol_eq _).2 hsettles] at hmade
        cases hinput
        cases hmade
        cases hperformed
        exact ⟨[], .waits hsettles rfl, horder⟩
  | @switched first pieces s cut preface reads transport =>
      unfold Client.onInput at hinput
      unfold Client.commands at hmade
      rw [transport] at hinput hmade
      simp only at hinput hmade
      cases hmade
      obtain ⟨t, hread, htransport⟩ := onInput2_ok hinput
      obtain ⟨hruns, hsent⟩ := onInput_sent (begins_new {}) reads hread
      have hshort := sent_short (begins_new {}) greeting_short hruns
      rw [Client.commands2, hread] at hperformed
      refine ⟨t.sent, .switched ?_ preface hruns htransport, fun hwhole => ?_⟩
      · show (first :: pieces ++ [piece]).flatten = _
        rw [List.flatten_append, cut, List.flatten_singleton]
      · rw [← hsent, List.flatten_append]
        exact sends_inOrder hwhole (fun payload hpayload =>
          hshort payload (List.mem_of_mem_drop hpayload)) (horder hwhole) hperformed

/-- Nothing but HTTP/2 is spoken on a connection whose first octets are those of the
preface. -/
theorem Alone.speaks {instants : Nat → Http1.Moment} {kernel : Nat → Net.Reply} {a : Addr}
    {pieces : List Bytes} {c : Client σ}
    {net : Net.Connection} (h : Alone find server render instants kernel a pieces c net) :
    (Settles pieces.flatten → asked pieces.flatten = .http2) →
      ∃ sent, Speaks pieces.flatten c sent ∧
        (TakesWhole 17 kernel → Net.InOrder sent.flatten net) := by
  induction h with
  | accepted =>
      intro _
      refine ⟨[], .waits ?_ rfl, fun _ => ⟨fun _ => rfl, fun o ho => by cases ho⟩⟩
      rintro (hlong | hdiffers)
      · exact absurd hlong (by decide)
      · exact hdiffers List.nil_prefix
  | pollOut before polled ih =>
      intro hasked
      obtain ⟨sent, hspeaks, horder⟩ := ih hasked
      exact ⟨sent, hspeaks, fun hwhole => (horder hwhole).onPollOut polled⟩
  | close before ih =>
      intro hasked
      obtain ⟨sent, hspeaks, horder⟩ := ih hasked
      exact ⟨sent, hspeaks, fun hwhole => (horder hwhole).close _⟩
  | read before isOpen piece app input made performed ih =>
      intro hasked
      rw [List.flatten_append, List.flatten_singleton] at hasked ⊢
      obtain ⟨sent, hspeaks, horder⟩ := ih fun hsettles => by
        rw [← asked_append piece hsettles]
        exact hasked (settles_mono hsettles)
      exact hspeaks.read horder hasked input made performed

/-- The connection of such a client takes the next of its octets. -/
theorem Alone.takes {instants : Nat → Http1.Moment} {kernel : Nat → Net.Reply} {a : Addr}
    {pieces : List Bytes} {c : Client σ}
    {net : Net.Connection} (h : Alone find server render instants kernel a pieces c net)
    (client : Http2.ServerTransport.Client) {piece missing : Bytes}
    (hnext : pieces.flatten ++ piece ++ missing =
      Http2.CLIENT_PREFACE ++ Http2.ServerTransport.encode client.frames) (app : σ) :
    c.TakesInput find server piece app := by
  have hthere : pieces.flatten ++ piece <+:
      Http2.CLIENT_PREFACE ++ Http2.ServerTransport.encode client.frames := ⟨missing, hnext⟩
  obtain ⟨sent, hspeaks, -⟩ :=
    h.speaks (asked_of_part ((List.prefix_append _ piece).trans hthere))
  rw [← Client.onInput_thrown]
  cases hspeaks with
  | waits unsettled transport =>
      by_cases hsettles : Settles (pieces.flatten ++ piece)
      · have hasked := asked_of_part hthere hsettles
        have hlong := ((asked_iff _).mp hasked).length_le
        have hcut : ([pieces.flatten ++ piece] ++ [missing]).flatten =
            Http2.CLIENT_PREFACE ++ Http2.ServerTransport.encode client.frames := by
          rw [List.flatten_append, List.flatten_singleton, List.flatten_singleton, hnext]
        obtain ⟨u, hruns, -⟩ := client.run_handled (begins_new {}) hcut (sparesPreface_cons _ hlong)
        obtain ⟨t, hfirst, -⟩ := run_front _ hruns
        unfold Client.onInput
        rw [transport]
        simp only
        unfold Client.onInputSwitch
        rw [(protocol_eq _).1 hsettles, hasked]
        exact onInput2_none hfirst
      · rw [onInput_waits find server transport hsettles]
  | @switched first rest t cut preface reads transport =>
      have hcut : (first :: rest ++ ([piece] ++ [missing])).flatten =
          Http2.CLIENT_PREFACE ++ Http2.ServerTransport.encode client.frames := by
        rw [List.flatten_append, List.flatten_append, cut, List.flatten_singleton,
          List.flatten_singleton, ← List.append_assoc, hnext]
      obtain ⟨u, hruns, -⟩ := client.run_handled (begins_new {}) hcut (sparesPreface_cons _ preface)
      rw [run_append _ reads] at hruns
      obtain ⟨v, hone, -⟩ := run_front _ hruns
      unfold Client.onInput
      rw [transport]
      exact onInput2_none hone

end

namespace Impl

/-! ## Two clients -/

/-- All that is sent is accepted, up to the capacity of a payload. -/
def readyKernel : Addr → Nat → Net.Reply := fun _ _ => .accepts 1439

theorem readyKernel_takesWhole {size : Nat} (hsize : size ≤ Payload.capacity_) (a : Addr) :
    TakesWhole size (readyKernel a) := by
  intro i more h
  cases h
  exact hsize

open Http2 Http2.ServerTransport in
/-- What a client with HTTP/2 sends. -/
def asksTwice : Bytes := CLIENT_PREFACE ++ encode twice.frames

/-- Five octets of it come first, and then a request of another client. -/
def interleaved : List (List Event) := [
  [.listener [quiet, quiet], .connection 0 true (some ⟨[asksTwice.take 5], .again⟩)],
  [.connection 1 false
    (some ⟨[octets "GET / HTTP/1.1" ++ Http1.CRLF ++ Http1.CRLF], .again⟩)]]

/-- The read that gets all that is left of the client's octets. -/
def rest : Input := ⟨[asksTwice.drop 5], .again⟩

/-- Whether the connection is open behind some batches and a part of another one. -/
def opened (batches : List (List Event)) (front : List Event) (a : Addr) : Bool :=
  match Run.run (turn plainTransports readyKernel) noClients batches with
  | .error _ => false
  | .ok s₀ =>
      match Run.run (dispatch plainTransports readyKernel) s₀ front with
      | .error _ => false
      | .ok s => s.isOpen a

theorem opened_run {batches : List (List Event)} {front : List Event} {a : Addr}
    (h : opened batches front a = true) :
    ∃ s₀ s c, Run.run (turn plainTransports readyKernel) noClients batches = .ok s₀ ∧
      Run.run (dispatch plainTransports readyKernel) s₀ front = .ok s ∧
      s.connections a = some c ∧ c.isOpen = true := by
  unfold opened at h
  split at h
  · cases h
  · rename_i s₀ hbatches
    split at h
    · cases h
    · rename_i s hfront
      obtain ⟨c, hc, hopen⟩ := isOpen_connection h
      exact ⟨s₀, s, c, hbatches, hfront, hc, hopen⟩

theorem opened_interleaved : opened interleaved [] 0 = true := by
  decide +kernel

theorem opened_rest : opened interleaved [.connection 0 false (some rest)] 0 = true := by
  decide +kernel

/-! ## Runs of the loop -/

section

variable {clock : Addr → Nat → Http1.Moment} {kernel : Addr → Nat → Net.Reply}
  {signalfd listenfd_ : Fd} {opens : List Fd} {app : σ} {batches : List (List Event)}
  {front : List Event} {s₀ s : Impl (Backend σ)}
  (hbatches : Run.run (turn (transports find server render clock) kernel)
    (Impl.new signalfd listenfd_ opens { app := app }) batches = .ok s₀)
  (hfront : Run.run (dispatch (transports find server render clock) kernel) s₀ front = .ok s)

include hbatches hfront

/-- After any number of batches and a part of another one. -/
theorem eachAlone : ∃ next, EachAlone find server render clock kernel next
    (fun a => heard a 0 (batches.flatten ++ front)) s := by
  have hnew := EachAlone.new find server render clock kernel signalfd listenfd_ opens app
  obtain ⟨next₀, hall₀, hlater₀⟩ := hnew.turnedAll batches hbatches
  obtain ⟨next, hall, -⟩ := hall₀.batch front hfront
  exact ⟨next, hall.congr fun a => by rw [hlater₀, List.nil_append]⟩

/-- A connection and its transports are in a state that they have when the connection is
served by itself. While it is open, that is behind all that has been read from it. -/
theorem connection_alone {a : Addr} {c : Connection} (hc : s.connections a = some c) :
    ∃ pieces, pieces <+: heard a 0 (batches.flatten ++ front) ∧
      (c.isOpen = true → pieces = heard a 0 (batches.flatten ++ front)) ∧
      Alone find server render (clock a) (kernel a) a pieces (s.world.clients a) c.toConnection := by
  obtain ⟨next, hall⟩ := eachAlone hbatches hfront
  exact (hall.alone a c hc).2

omit hbatches hfront in
theorem connection_alone_rest : ∃ (c : Connection) (s : Impl (Backend Unit)),
    s.connections 0 = some c ∧
    ∃ pieces, pieces <+: heard 0 0 (interleaved.flatten ++ [.connection 0 false (some rest)]) ∧
      (c.isOpen = true →
        pieces = heard 0 0 (interleaved.flatten ++ [.connection 0 false (some rest)])) ∧
      Alone Find.first plainServer written (atNoon 0) (readyKernel 0) 0 pieces
        (s.world.clients 0) c.toConnection := by
  obtain ⟨s₀, s, c, hbatches, hfront, hc, -⟩ := opened_run opened_rest
  exact ⟨c, s, hc, connection_alone hbatches hfront hc⟩

open Http2 Http2.ServerTransport in
/-- A client with HTTP/2 by prior knowledge, of which a part at least has been read: on its
connection are replies to its frames, in their order. When all has been read, its requests
have been dispatched as it meant them, and it reads one reply after the other. -/
theorem prior_knowledge_answered {a : Addr} {c : Connection} (hc : s.connections a = some c)
    (hopen : c.isOpen = true)
    (hwhole : TakesWhole 17 (kernel a))
    (client : Http2.ServerTransport.Client)
    (hheard : (heard a 0 (batches.flatten ++ front)).flatten <+:
      CLIENT_PREFACE ++ encode client.frames) :
    c.wire ++ c.outgoing_.contents <+: encode (greeting :: client.frames.flatMap replies) ∧
      ((heard a 0 (batches.flatten ++ front)).flatten = CLIENT_PREFACE ++ encode client.frames →
        ∃ t, (s.world.clients a).transport_ = .http2 t ∧
          t.requests = client.requests.map asDispatched ∧
          Reads (c.wire ++ c.outgoing_.contents) (greeting :: client.frames.flatMap replies)) := by
  obtain ⟨next, hall⟩ := eachAlone hbatches hfront
  obtain ⟨-, pieces, -, hpieces, halone⟩ := hall.alone a c hc
  rw [← hpieces hopen] at hheard ⊢
  obtain ⟨sent, hspeaks, horder⟩ := halone.speaks (asked_of_part hheard)
  rw [(horder hwhole).stream hopen]
  cases hspeaks with
  | waits unsettled transport =>
      refine ⟨List.nil_prefix, fun hall => absurd (.inl ?_) unsettled⟩
      rw [hall, List.length_append]
      exact Nat.le_add_right _ _
  | @switched first rest t cut preface reads transport =>
      have hserves : Serves (Http2.Impl.new {}) t := by
        have hruns := ((begins_new {}).serves_run (first :: rest)).1
        rw [reads] at hruns
        exact hruns rfl
      refine ⟨?_, fun hall => ⟨t, transport, ?_⟩⟩
      · obtain ⟨missing, hmissing⟩ := hheard
        have hcut : (first :: rest ++ [missing]).flatten =
            CLIENT_PREFACE ++ encode client.frames := by
          rw [List.flatten_append, cut, List.flatten_singleton, hmissing]
        obtain ⟨u, hruns, hhandled⟩ :=
          client.run_handled (begins_new {}) hcut (sparesPreface_cons _ preface)
        rw [run_append [missing] reads] at hruns
        have hgrows := handled_grows (run_passes hruns)
        rw [hhandled] at hgrows
        rw [hserves.greets]
        exact encode_mono (List.cons_prefix_cons.mpr ⟨rfl, hgrows.flatMap replies⟩)
      · obtain ⟨u, hruns, hhandled⟩ := client.run_handled (begins_new {}) (cut.trans hall)
          (sparesPreface_cons _ preface)
        rw [reads] at hruns
        cases hruns
        have hrequests := congrArg Prod.snd hserves.served
        have hreads := hserves.reads (hhandled ▸ client.sized)
        rw [hhandled] at hrequests hreads
        exact ⟨hrequests.trans (serve_asks client.asks [] Hpack.mirrors_init), hreads⟩

omit hbatches hfront in
open Http2 Http2.ServerTransport in
theorem prior_knowledge_answered_rest : ∃ (s : Impl (Backend Unit)) (c : Connection),
    s.connections 0 = some c ∧
    c.wire ++ c.outgoing_.contents <+: encode (greeting :: twice.frames.flatMap replies) ∧
      ∃ t, (s.world.clients 0).transport_ = .http2 t ∧
        t.requests = twice.requests.map asDispatched ∧
        Reads (c.wire ++ c.outgoing_.contents) (greeting :: twice.frames.flatMap replies) := by
  obtain ⟨s₀, s, c, hbatches, hfront, hc, hopen⟩ := opened_run opened_rest
  have hheard : (heard 0 0
      (interleaved.flatten ++ [.connection 0 false (some rest)])).flatten = asksTwice := by
    show asksTwice.take 5 ++ (asksTwice.drop 5 ++ []) = asksTwice
    rw [List.append_nil, List.take_append_drop]
  obtain ⟨hpart, hwhole⟩ := prior_knowledge_answered hbatches hfront hc hopen
    (readyKernel_takesWhole (by decide) 0) twice (hheard ▸ List.prefix_rfl)
  exact ⟨s, c, hc, hpart, hwhole hheard⟩

/-! ## No exception -/

theorem run_subscribed : Inv s ∧ Subscribed s := by
  have hserves := transports_serves find server render clock
  have hkept : Inv s₀ ∧ Subscribed s₀ := by
    refine Run.invariant (P := fun s => Inv s ∧ Subscribed s)
      ⟨inv_new signalfd listenfd_ opens _, subscribed_new signalfd listenfd_ opens _⟩ ?_ batches s₀
      hbatches
    intro s₁ batch s₂ hbefore hturn
    obtain ⟨s', hrun, hremove⟩ := bind_eq_ok.mp hturn
    cases hremove
    have hinv := hbefore.1.changes (batch_changes hbefore.1 hrun)
    refine ⟨(remove_dead_clients_inv hinv).1, fun b hb => ?_⟩
    obtain ⟨hkeeps, hback⟩ := remove_dead_clients_loop_inService _ b hinv
    exact hkeeps (batch_subscribed hserves hbefore.1 hbefore.2 hrun b (hback hb))
  exact ⟨hkept.1.changes (batch_changes hkept.1 hfront),
    batch_subscribed hserves hkept.1 hkept.2 hfront⟩

omit hbatches hfront in
open Http2 Http2.ServerTransport in
/-- Of the octets of a client with HTTP/2, the next ones. -/
theorem EachAlone.takesReads {next : Addr} {a : Addr} (client : Http2.ServerTransport.Client)
    (pieces : List Bytes) : ∀ {arrived : Addr → List Bytes} {s : Impl (Backend σ)},
      EachAlone find server render clock kernel next arrived s →
      (arrived a ++ pieces).flatten <+: CLIENT_PREFACE ++ encode client.frames →
        TakesReads (transports find server render clock) kernel (Backend.Takes find server) a pieces
          s := by
  induction pieces with
  | nil => exact fun _ _ => trivial
  | cons piece pieces ih =>
      intro arrived s h hnext hopen
      have hall : (arrived a).flatten ++ piece ++ pieces.flatten =
          (arrived a ++ piece :: pieces).flatten := by
        rw [List.flatten_append, List.flatten_cons, List.append_assoc]
      constructor
      · obtain ⟨c, hc, hisOpen⟩ := isOpen_connection hopen
        obtain ⟨-, read, -, hread, halone⟩ := h.alone a c hc
        cases hread hisOpen
        obtain ⟨missing, hmissing⟩ := hnext
        have hwhole : (arrived a).flatten ++ piece ++ (pieces.flatten ++ missing) =
            CLIENT_PREFACE ++ encode client.frames := by
          rw [← List.append_assoc, hall, hmissing]
        exact halone.takes client hwhole s.world.app
      · intro s' hinput
        refine ih (h.input hopen hinput) ?_
        rw [Function.update_self, List.append_assoc]
        exact hnext

open Http2 Http2.ServerTransport in
/-- No event of such a client ends the loop, or a connection of another one. -/
theorem prior_knowledge_isolates {a : Addr} (hopen : s.isOpen a = true)
    (client : Http2.ServerTransport.Client) (out : Bool) (input : Input)
    (hheard : (heard a 0 (batches.flatten ++ front) ++ input.pieces).flatten <+:
      CLIENT_PREFACE ++ encode client.frames) :
    Isolates (transports find server render clock) a s
      (dispatch (transports find server render clock) kernel s (.connection a out (some input))) := by
  have hserves := transports_serves find server render clock
  obtain ⟨next, hall⟩ := eachAlone hbatches hfront
  obtain ⟨hinv, hsubscribed⟩ := run_subscribed hbatches hfront
  refine (isolates_iff (dispatch_connection_returns hserves hinv hopen out input)
    (fun _ _ hopen => hopen) hsubscribed fun s' hs' => ?_).mpr fun s₁ hout => ?_
  · exact ⟨hinv.changes (dispatch_changes hinv hs'), dispatch_connection_spares hserves hinv hs'⟩
  · exact (hall.polledOut hout).takesReads client input.pieces hheard

end

/-- What is left of the client's octets, behind a request of the other one. -/
theorem prior_knowledge_isolates_rest :
    ∃ s₀, Run.run (turn plainTransports readyKernel) noClients interleaved = .ok s₀ ∧
      Isolates plainTransports 0 s₀
        (dispatch plainTransports readyKernel s₀ (.connection 0 false (some rest))) := by
  obtain ⟨s₀, s, c, hbatches, hfront, hc, hopen⟩ := opened_run opened_interleaved
  cases hfront
  have hisOpen : s₀.isOpen 0 = true := by
    rw [isOpen, hc]
    exact hopen
  have hnothing : Run.run (dispatch plainTransports readyKernel) s₀ [] = .ok s₀ := rfl
  refine ⟨s₀, hbatches, prior_knowledge_isolates hbatches hnothing hisOpen
    Http2.ServerTransport.twice false rest ?_⟩
  show asksTwice.take 5 ++ (asksTwice.drop 5 ++ []) <+: asksTwice
  rw [List.append_nil, List.take_append_drop]

end Impl

end Shitty.Server
