import Shitty.Server.Logic.Dispatch
import Shitty.Server.Theorems.Isolation
import Shitty.Server.Transports

/-!
# A connection by itself

Whatever the other clients do, the state of a connection and of its transports is one that
it has when it is served alone, and reads the same octets. Of the others it sees nothing
but the state of the application.
-/

namespace Shitty.Server

open Lib

variable {σ : Type}

/-! ## Served alone -/

/-- What a command does to the connection it is for. -/
def performOn (kernel : Nat → Net.Reply) (net : Net.Connection) :
    Command → Except Exn Net.Connection
  | .send _ payload => Net.send kernel (Net.memOf payload) payload.length net
  | .close _ => .ok (Net.close net)
  | .connect _ => .ok net

/-- A connection with its transports, and what they have read. The state of the application
is any, each time. -/
inductive Alone (find : Find) (server : Http1.Server σ) (render : Rendering)
    (instants : Nat → Http1.Moment) (kernel : Nat → Net.Reply) (a : Addr) :
    List Bytes → Client σ → Net.Connection → Prop
  | accepted : Alone find server render instants kernel a [] {} Net.Connection.new
  | read {pieces : List Bytes} {c c' : Client σ} {net net' : Net.Connection} {app' : σ}
      {commands : List Command}
      (before : Alone find server render instants kernel a pieces c net)
      (isOpen : net.isOpen = true) (piece : Bytes) (app : σ)
      (input : c.onInput find server piece app = (c', app', none))
      (made : c.commands find server render instants a piece app = .ok commands)
      (performed : Run.run (performOn kernel) net commands = .ok net') :
      Alone find server render instants kernel a (pieces ++ [piece]) c' net'
  | pollOut {pieces : List Bytes} {c : Client σ} {net net' : Net.Connection}
      (before : Alone find server render instants kernel a pieces c net)
      (polled : Net.onPollOut kernel net = .ok net') :
      Alone find server render instants kernel a pieces c net'
  | close {pieces : List Bytes} {c : Client σ} {net : Net.Connection}
      (before : Alone find server render instants kernel a pieces c net) :
      Alone find server render instants kernel a pieces c (Net.close net)

/-! ## What is sent on it -/

/-- A kernel that does not take a part of a payload of that size at most. -/
def TakesWhole (size : Nat) (kernel : Nat → Net.Reply) : Prop :=
  ∀ i more, kernel i = .accepts more → size ≤ more + 1

/-- What a command is given to send. -/
def Command.octets : Command → Bytes
  | .send _ payload => payload
  | .close _ => []
  | .connect _ => []

/-- With such a kernel, all octets are sent in order. -/
theorem performs_inOrder {size : Nat} {kernel : Nat → Net.Reply} (hwhole : TakesWhole size kernel)
    (commands : List Command) (hshort : ∀ command ∈ commands, command.octets.length ≤ size) :
    ∀ {sent : Bytes} {net net' : Net.Connection}, Net.InOrder sent net →
      Run.run (performOn kernel) net commands = .ok net' →
        Net.InOrder (sent ++ commands.flatMap Command.octets) net' := by
  induction commands with
  | nil =>
      intro sent net net' h hrun
      cases hrun
      rwa [List.flatMap_nil, List.append_nil]
  | cons command commands ih =>
      intro sent net net' h hrun
      rw [List.forall_mem_cons] at hshort
      rw [Run.run_cons] at hrun
      obtain ⟨net₁, hperform, hrest⟩ := bind_eq_ok.mp hrun
      rw [List.flatMap_cons, ← List.append_assoc]
      refine ih hshort.2 ?_ hrest
      cases command with
      | send b payload =>
          have hok : Net.CallOk kernel net (.send (Net.memOf payload) payload.length) :=
            fun _ _ more hmore => Nat.le_trans hshort.1 (hwhole net.calls more hmore)
          have hstep : Net.step kernel net (.send (Net.memOf payload) payload.length) = .ok net₁ :=
            hperform
          have hsent := h.step hok hstep
          rwa [Net.Event.payload, Net.read_memOf payload (Nat.le_refl _), List.take_length] at hsent
      | close b =>
          cases hperform
          exact h.close _
      | connect descriptor =>
          cases hperform
          rwa [Command.octets, List.append_nil]

/-! ## What arrives for a connection -/

/-- What is read at once from those that are accepted, the first of which gets the given
address. -/
def heardAtOnce (a : Addr) : Addr → List Accept → List Bytes
  | _, [] => []
  | next, client :: clients =>
      (if next = a then client.input.pieces else []) ++ heardAtOnce a (next + 1) clients

/-- How many connections an event adds. -/
def Event.accepts : Event → Nat
  | .listener accepts => accepts.length
  | _ => 0

/-- What an event has for the connection. -/
def Event.brings (a next : Addr) : Event → List Bytes
  | .signal => []
  | .listener accepts => heardAtOnce a next accepts
  | .connection b _ input => if b = a then input.elim [] Input.pieces else []

/-- All that the kernel has for a connection, as the events come. -/
def heard (a : Addr) : Addr → List Event → List Bytes
  | _, [] => []
  | next, event :: events => event.brings a next ++ heard a (next + event.accepts) events

namespace Impl

variable {find : Find} {server : Http1.Server σ} {render : Rendering}
  {clock : Addr → Nat → Http1.Moment} {kernel : Addr → Nat → Net.Reply}

/-! ## What is done to one connection -/

/-- One connection has changed, and nothing behind any. -/
structure Touches (a : Addr) (c : Connection) (net : Net.Connection) (s s' : Impl (Backend σ)) :
    Prop where
  connections : s'.connections =
    Function.update s.connections a (some { c with toConnection := net })
  world : s'.world = s.world
  next : s'.next = s.next

theorem release_connections (c : Connection) (s : Impl (Backend σ)) :
    (s.release c).connections = s.connections ∧ (s.release c).world = s.world ∧
      (s.release c).next = s.next := by
  unfold release
  simp only
  split <;> exact ⟨rfl, rfl, rfl⟩

theorem call_touches {a : Addr} {f : Net.Connection → Except Exn Net.Connection}
    {s s' : Impl (Backend σ)} (h : s.call a f = .ok s') :
    ∃ c net, s.connections a = some c ∧ f c.toConnection = .ok net ∧ Touches a c net s s' := by
  obtain ⟨c, net, hc, hnet, hends⟩ := call_cases h
  refine ⟨c, net, hc, hnet, ?_⟩
  rcases hends with ⟨-, -, rfl⟩ | ⟨-, rfl⟩
  · obtain ⟨hconnections, hworld, hnext⟩ := release_connections c (s.assigned a c net)
    exact ⟨hconnections, hworld, hnext⟩
  · exact ⟨rfl, rfl, rfl⟩

theorem perform_touches {a : Addr} {command : Command} (hfor : command.IsFor a)
    {s s' : Impl (Backend σ)} (h : perform kernel s command = .ok s') :
    ∃ c net, s.connections a = some c ∧ performOn (kernel a) c.toConnection command = .ok net ∧
      Touches a c net s s' := by
  cases command with
  | send b payload =>
      cases hfor
      exact call_touches h
  | close b =>
      cases hfor
      have hcall : s.call a (fun net => .ok (Net.close net)) = .ok s' := h
      exact call_touches hcall
  | connect descriptor => cases hfor

/-- Commands for one connection, carried out one after the other, touch that connection only. -/
theorem performs_touch {a : Addr} (commands : List Command)
    (hfor : ∀ command ∈ commands, command.IsFor a) :
    ∀ {s s' : Impl (Backend σ)} {c : Connection}, s.connections a = some c →
      Run.run (perform kernel) s commands = .ok s' →
        ∃ net, Run.run (performOn (kernel a)) c.toConnection commands = .ok net ∧
          Touches a c net s s' := by
  induction commands with
  | nil =>
      intro s s' c hc h
      cases h
      refine ⟨c.toConnection, rfl, ?_, rfl, rfl⟩
      rw [eq_comm, Function.update_eq_self_iff, hc]
  | cons command commands ih =>
      intro s s' c hc h
      rw [List.forall_mem_cons] at hfor
      rw [Run.run_cons] at h
      obtain ⟨s₁, hperform, hrest⟩ := bind_eq_ok.mp h
      obtain ⟨c₁, net₁, hc₁, hnet₁, htouches⟩ := perform_touches hfor.1 hperform
      rw [hc] at hc₁
      cases hc₁
      obtain ⟨net, hnet, hrest⟩ := ih hfor.2
        (show s₁.connections a = _ by rw [htouches.connections, Function.update_self]) hrest
      refine ⟨net, ?_, ?_, hrest.world.trans htouches.world, hrest.next.trans htouches.next⟩
      · rw [Run.run_cons, hnet₁]
        exact hnet
      · rw [hrest.connections, htouches.connections, Function.update_idem]

theorem isOpen_connection {s : Impl (Backend σ)} {a : Addr} (h : s.isOpen a = true) :
    ∃ c, s.connections a = some c ∧ c.isOpen = true := by
  unfold isOpen at h
  cases hc : s.connections a with
  | none =>
      rw [hc] at h
      cases h
  | some c =>
      rw [hc] at h
      exact ⟨c, rfl, h⟩

/-! ## All connections -/

/-- Each connection is in a state of its own, with all that has been heard while it was
open; the next one has the given address. -/
structure EachAlone (find : Find) (server : Http1.Server σ) (render : Rendering)
    (clock : Addr → Nat → Http1.Moment) (kernel : Addr → Nat → Net.Reply) (next : Addr)
    (arrived : Addr → List Bytes) (s : Impl (Backend σ)) : Prop where
  next_eq : s.next = next
  alone : ∀ a c, s.connections a = some c → a < next ∧ ∃ pieces, pieces <+: arrived a ∧
    (c.isOpen = true → pieces = arrived a) ∧
      Alone find server render (clock a) (kernel a) a pieces (s.world.clients a) c.toConnection
  unheard : ∀ a, next ≤ a → arrived a = []

namespace EachAlone

variable {next : Addr} {arrived : Addr → List Bytes} {s s' : Impl (Backend σ)} {a : Addr}

/-- One connection goes a step further. -/
theorem touched (h : EachAlone find server render clock kernel next arrived s) {c : Connection}
    {net : Net.Connection} {client : Client σ} {pieces more : List Bytes} (hbefore : a < next)
    (hconnections : s'.connections =
      Function.update s.connections a (some { c with toConnection := net }))
    (hclients : s'.world.clients = Function.update s.world.clients a client)
    (hnext : s'.next = s.next) (hpart : pieces <+: arrived a ++ more)
    (hpieces : net.isOpen = true → pieces = arrived a ++ more)
    (halone : Alone find server render (clock a) (kernel a) a pieces client net) :
    EachAlone find server render clock kernel next
      (Function.update arrived a (arrived a ++ more)) s' where
  next_eq := hnext.trans h.next_eq
  alone b d hd := by
    rw [hconnections] at hd
    rw [hclients]
    by_cases hb : b = a
    · subst hb
      rw [Function.update_self] at hd
      cases hd
      rw [Function.update_self, Function.update_self]
      exact ⟨hbefore, pieces, hpart, hpieces, halone⟩
    · rw [Function.update_of_ne hb] at hd
      rw [Function.update_of_ne hb, Function.update_of_ne hb]
      exact h.alone b d hd
  unheard b hb := by
    rw [Function.update_of_ne (Nat.ne_of_gt (Nat.lt_of_lt_of_le hbefore hb))]
    exact h.unheard b hb

/-- More arrives for a connection that is closed. -/
theorem extend (h : EachAlone find server render clock kernel next arrived s) (ha : a < next)
    (hclosed : s.isOpen a ≠ true) (more : List Bytes) :
    EachAlone find server render clock kernel next
      (Function.update arrived a (arrived a ++ more)) s where
  next_eq := h.next_eq
  alone b d hd := by
    obtain ⟨hnext, pieces, hpart, hpieces, halone⟩ := h.alone b d hd
    refine ⟨hnext, pieces, ?_, fun hopen => ?_, halone⟩
    · by_cases hb : b = a
      · subst hb
        rw [Function.update_self]
        exact hpart.trans (List.prefix_append _ _)
      · rwa [Function.update_of_ne hb]
    · have hb : b ≠ a := by
        rintro rfl
        rw [isOpen, hd] at hclosed
        exact hclosed hopen
      rw [Function.update_of_ne hb]
      exact hpieces hopen
  unheard b hb := by
    rw [Function.update_of_ne (Nat.ne_of_gt (Nat.lt_of_lt_of_le ha hb))]
    exact h.unheard b hb

theorem lt_next (h : EachAlone find server render clock kernel next arrived s)
    (ha : s.connections a ≠ none) : a < next := by
  obtain ⟨c, hc⟩ := Option.ne_none_iff_exists'.mp ha
  exact (h.alone a c hc).1

/-! ## Calls of member functions -/

/-- A member function that is called from the loop. -/
theorem called (h : EachAlone find server render clock kernel next arrived s)
    {f : Net.Connection → Except Exn Net.Connection}
    (hf : ∀ {pieces c net net'}, Alone find server render (clock a) (kernel a) a pieces c net →
      f net = .ok net' → Alone find server render (clock a) (kernel a) a pieces c net')
    (hclosed : ∀ {net net'}, f net = .ok net' → net'.isOpen = true → net.isOpen = true)
    (hcall : s.call a f = .ok s') : EachAlone find server render clock kernel next arrived s' := by
  obtain ⟨c, net, hc, hnet, htouches⟩ := call_touches hcall
  obtain ⟨hbefore, pieces, hpart, hpieces, halone⟩ := h.alone a c hc
  have htouched := h.touched hbefore
    htouches.connections (by rw [htouches.world, Function.update_eq_self]) htouches.next
    (by rwa [List.append_nil])
    (fun hopen => by rw [List.append_nil]; exact hpieces (hclosed hnet hopen)) (hf halone hnet)
  rwa [List.append_nil, Function.update_eq_self] at htouched

theorem closed (h : EachAlone find server render clock kernel next arrived s)
    (hclose : perform kernel s (.close a) = .ok s') :
    EachAlone find server render clock kernel next arrived s' ∧ s'.isOpen a ≠ true ∧ a < next := by
  have hcall : s.call a (fun net => .ok (Net.close net)) = .ok s' := hclose
  refine ⟨h.called ?_ ?_ hcall, ?_⟩
  · intro pieces c net net' halone hnet
    cases hnet
    exact halone.close
  · intro net net' hnet hopen
    cases hnet
    cases hopen
  · obtain ⟨c, net, hc, hnet, htouches⟩ := call_touches hcall
    cases hnet
    refine ⟨?_, (h.alone a c hc).1⟩
    rw [isOpen, htouches.connections, Function.update_self]
    exact Bool.false_ne_true

theorem polledOut (h : EachAlone find server render clock kernel next arrived s) {out : Bool}
    (hout : dispatch_out kernel a out s = .ok s') :
    EachAlone find server render clock kernel next arrived s' := by
  unfold dispatch_out at hout
  split at hout
  · exact h.called (fun halone hnet => halone.pollOut hnet) Net.onPollOut_isOpen hout
  · cases hout
    exact h

/-! ## Reads -/

theorem input (h : EachAlone find server render clock kernel next arrived s) {piece : Bytes}
    (hopen : s.isOpen a = true)
    (hinput : onInput (transports find server render clock) kernel a piece s = .ok s') :
    EachAlone find server render clock kernel next
      (Function.update arrived a (arrived a ++ [piece])) s' := by
  obtain ⟨c, hc, hisOpen⟩ := isOpen_connection hopen
  obtain ⟨hbefore, pieces, -, hpieces, halone⟩ := h.alone a c hc
  cases hpieces hisOpen
  unfold onInput at hinput
  cases htransports : (transports find server render clock).onInput a piece s.next s.world with
  | error e =>
      rw [htransports] at hinput
      cases hinput
  | ok result =>
      rw [htransports] at hinput
      have hown := (transports_serves find server render clock).own a piece s.next s.world _ htransports
      unfold transports at htransports
      simp only at htransports
      rcases hclient : (s.world.clients a).onInput find server piece s.world.app with
        ⟨client, app, _ | e⟩
      · rw [hclient] at htransports
        obtain ⟨commands, hcommands, hresult⟩ := bind_eq_ok.mp htransports
        cases hresult
        obtain ⟨net, hnet, htouches⟩ := performs_touch _ hown
          (s := { s with
            world := { clients := Function.update s.world.clients a client, app := app } })
          hc hinput
        refine h.touched hbefore htouches.connections (by rw [htouches.world]) htouches.next
          List.prefix_rfl (fun _ => rfl) ?_
        exact halone.read hisOpen piece s.world.app hclient hcommands hnet
      · rw [hclient] at htransports
        cases htransports

theorem polledIn {last : ReadEnd} (pieces : List Bytes) :
    ∀ {arrived : Addr → List Bytes} {s s' : Impl (Backend σ)},
      EachAlone find server render clock kernel next arrived s → s.connections a ≠ none →
      onPollIn (transports find server render clock) kernel a last pieces s = .ok s' →
        EachAlone find server render clock kernel next
          (Function.update arrived a (arrived a ++ pieces)) s' := by
  induction pieces with
  | nil =>
      intro arrived s s' h ha hpoll
      rw [List.append_nil, Function.update_eq_self]
      unfold onPollIn at hpoll
      split at hpoll
      · cases hpoll
        exact h
      · exact (h.closed hpoll).1
  | cons piece pieces ih =>
      intro arrived s s' h ha hpoll
      unfold onPollIn at hpoll
      split at hpoll
      · rename_i hopen
        obtain ⟨s₁, hinput, hrest⟩ := bind_eq_ok.mp hpoll
        have hread := h.input hopen hinput
        have hthere : s₁.connections a ≠ none :=
          connections_ne_none.mpr ((onInput_changes hinput).stays.1 a (connections_ne_none.mp ha))
        split at hrest
        · have hall := ih hread hthere hrest
          rwa [Function.update_self, Function.update_idem, List.append_assoc] at hall
        · -- closed behind the first of them
          rename_i hclosed
          cases hrest
          have hall := hread.extend (hread.lt_next hthere) hclosed pieces
          rwa [Function.update_self, Function.update_idem, List.append_assoc] at hall
      · obtain ⟨hclosed, hnot, hbefore⟩ := h.closed hpoll
        exact hclosed.extend hbefore hnot _

/-! ## Events -/

theorem congr {arrived' : Addr → List Bytes}
    (h : EachAlone find server render clock kernel next arrived s)
    (heq : ∀ a, arrived a = arrived' a) :
    EachAlone find server render clock kernel next arrived' s := funext heq ▸ h

theorem accepts (h : EachAlone find server render clock kernel next arrived s) {client : Accept}
    (haccept : accept (transports find server render clock) kernel s client = .ok s') :
    EachAlone find server render clock kernel (next + 1)
      (fun a => arrived a ++ if next = a then client.input.pieces else []) s' := by
  have hnew : EachAlone find server render clock kernel (next + 1) arrived
      (accepted (transports find server render clock) s client) := by
    refine ⟨congrArg (· + 1) h.next_eq, fun b d hd => ?_,
      fun b hb => h.unheard b (Nat.le_of_succ_le hb)⟩
    change Function.update s.connections s.next _ b = some d at hd
    show b < next + 1 ∧ ∃ pieces, _ ∧ _ ∧ Alone find server render (clock b) (kernel b) b pieces
      (Function.update s.world.clients s.next {} b) _
    rw [h.next_eq] at hd ⊢
    by_cases hsame : b = next
    · subst hsame
      rw [Function.update_self] at hd ⊢
      cases hd
      rw [h.unheard b (Nat.le_refl b)]
      exact ⟨Nat.lt_succ_self b, [], List.prefix_rfl, fun _ => rfl, .accepted⟩
    · rw [Function.update_of_ne hsame] at hd ⊢
      obtain ⟨hbefore, hrest⟩ := h.alone b d hd
      exact ⟨Nat.lt_succ_of_lt hbefore, hrest⟩
  have hthere :
      (accepted (transports find server render clock) s client).connections next ≠ none := by
    show Function.update s.connections s.next _ next ≠ none
    rw [h.next_eq, Function.update_self]
    exact Option.some_ne_none _
  have hpoll : onPollIn (transports find server render clock) kernel next client.input.last
      client.input.pieces (accepted (transports find server render clock) s client) = .ok s' := by
    unfold accept at haccept
    simp only at haccept
    split at haccept
    · cases haccept
    · rw [h.next_eq] at haccept
      unfold accepted
      rw [h.next_eq]
      exact haccept
  refine (hnew.polledIn client.input.pieces hthere hpoll).congr fun b => ?_
  by_cases hb : next = b
  · subst hb
    rw [Function.update_self, if_pos rfl]
  · rw [Function.update_of_ne (Ne.symm hb), if_neg hb, List.append_nil]

theorem acceptsAll (clients : List Accept) :
    ∀ {next : Addr} {arrived : Addr → List Bytes} {s s' : Impl (Backend σ)},
      EachAlone find server render clock kernel next arrived s →
      Run.run (accept (transports find server render clock) kernel) s clients = .ok s' →
        EachAlone find server render clock kernel (next + clients.length)
          (fun a => arrived a ++ heardAtOnce a next clients) s' := by
  induction clients with
  | nil =>
      intro next arrived s s' h hrun
      cases hrun
      exact h.congr fun a => (List.append_nil _).symm
  | cons client clients ih =>
      intro next arrived s s' h hrun
      rw [Run.run_cons] at hrun
      obtain ⟨s₁, haccept, hrest⟩ := bind_eq_ok.mp hrun
      have hall := ih (h.accepts haccept) hrest
      rw [List.length_cons, Nat.add_comm clients.length 1, ← Nat.add_assoc]
      exact hall.congr fun a => List.append_assoc _ _ _

theorem dispatched (h : EachAlone find server render clock kernel next arrived s) {event : Event}
    (hdispatch : dispatch (transports find server render clock) kernel s event = .ok s') :
    EachAlone find server render clock kernel (next + event.accepts)
      (fun a => arrived a ++ event.brings a next) s' := by
  rcases event with _ | accepts | ⟨a, out, input⟩
  · cases hdispatch
    have hsame : EachAlone find server render clock kernel next arrived
        { s with keep_running_ := false } := ⟨h.next_eq, h.alone, h.unheard⟩
    exact hsame.congr fun a => (List.append_nil _).symm
  · exact h.acceptsAll accepts hdispatch
  · simp only [dispatch] at hdispatch
    split at hdispatch
    · cases hdispatch
    · rename_i hthere
      obtain ⟨s₁, hout, hin⟩ := bind_eq_ok.mp hdispatch
      have hpolled := h.polledOut hout
      have hbrings : ∀ b, Function.update arrived a (arrived a ++ input.elim [] Input.pieces) b =
          arrived b ++ (Event.connection a out input).brings b next := by
        intro b
        by_cases hb : a = b
        · subst hb
          rw [Function.update_self, Event.brings, if_pos rfl]
        · rw [Function.update_of_ne (Ne.symm hb), Event.brings, if_neg hb, List.append_nil]
      cases input with
      | none =>
          cases hin
          refine hpolled.congr fun b => ?_
          rw [← hbrings b, Option.elim_none, List.append_nil, Function.update_eq_self]
      | some input =>
          have ha : s₁.connections a ≠ none := by
            have hbefore : s.connections a ≠ none := fun hnone => hthere (by rw [hnone]; rfl)
            unfold dispatch_out at hout
            split at hout
            · obtain ⟨c, net, -, -, htouches⟩ := call_touches hout
              rw [htouches.connections, Function.update_self]
              exact Option.some_ne_none _
            · cases hout
              exact hbefore
          exact (hpolled.polledIn input.pieces ha hin).congr hbrings

theorem batch (events : List Event) :
    ∀ {next : Addr} {arrived : Addr → List Bytes} {s s' : Impl (Backend σ)},
      EachAlone find server render clock kernel next arrived s →
      Run.run (dispatch (transports find server render clock) kernel) s events = .ok s' →
        ∃ next', EachAlone find server render clock kernel next'
          (fun a => arrived a ++ heard a next events) s' ∧
          ∀ a later,
            heard a next (events ++ later) = heard a next events ++ heard a next' later := by
  induction events with
  | nil =>
      intro next arrived s s' h hrun
      cases hrun
      exact ⟨next, h.congr fun a => (List.append_nil _).symm, fun a later => rfl⟩
  | cons event events ih =>
      intro next arrived s s' h hrun
      rw [Run.run_cons] at hrun
      obtain ⟨s₁, hdispatch, hrest⟩ := bind_eq_ok.mp hrun
      obtain ⟨next', hall, hlater⟩ := ih (h.dispatched hdispatch) hrest
      refine ⟨next', hall.congr fun a => List.append_assoc _ _ _, fun a later => ?_⟩
      rw [List.cons_append, heard, heard, hlater, List.append_assoc]

/-! ## The end of a batch -/

/-- What is left is as it was. -/
theorem narrowed (h : EachAlone find server render clock kernel next arrived s)
    (hnext : s'.next = s.next)
    (hleft : ∀ a c, s'.connections a = some c →
      s.connections a = some c ∧ s'.world.clients a = s.world.clients a) :
    EachAlone find server render clock kernel next arrived s' where
  next_eq := hnext.trans h.next_eq
  alone a c hc := by
    obtain ⟨hbefore, hclient⟩ := hleft a c hc
    rw [hclient]
    exact h.alone a c hbefore
  unheard := h.unheard

theorem destroyed (h : EachAlone find server render clock kernel next arrived s) (a : Addr) :
    EachAlone find server render clock kernel next arrived
      (s.destroy (transports find server render clock) a) := by
  unfold destroy
  split
  · exact h
  · rename_i c hc
    have hreleased : (if c.isOpen then s.release c else s).connections = s.connections ∧
        (if c.isOpen then s.release c else s).world = s.world ∧
          (if c.isOpen then s.release c else s).next = s.next := by
      split
      · exact release_connections c s
      · exact ⟨rfl, rfl, rfl⟩
    obtain ⟨hconnections, hworld, hnext⟩ := hreleased
    refine h.narrowed hnext fun b d hd => ?_
    have hb : b ≠ a := by
      rintro rfl
      simp only [Function.update_self] at hd
      cases hd
    simp only [Function.update_of_ne hb, hconnections] at hd
    refine ⟨hd, ?_⟩
    simp only [transports, Function.update_of_ne hb, hworld]

theorem removed (h : EachAlone find server render clock kernel next arrived s) (fd : Fd) :
    EachAlone find server render clock kernel next arrived
      (s.remove_dead_client (transports find server render clock) fd) := by
  have hclosed : EachAlone find server render clock kernel next arrived (s.sys_close fd) :=
    h.narrowed rfl fun a c hc => ⟨hc, rfl⟩
  have hfiltered : EachAlone find server render clock kernel next arrived
      { s.sys_close fd with
        clients_ := (s.sys_close fd).clients_.filter fun entry => entry.1 ≠ fd } :=
    hclosed.narrowed rfl fun a c hc => ⟨hc, rfl⟩
  have herased : EachAlone find server render clock kernel next arrived
      ((s.sys_close fd).erase (transports find server render clock) fd) := by
    unfold erase
    split
    · exact hclosed
    · exact hfiltered.destroyed _
  exact herased.narrowed rfl fun a c hc => ⟨hc, rfl⟩

theorem removedAll (turns : Nat) :
    ∀ {s : Impl (Backend σ)}, EachAlone find server render clock kernel next arrived s →
      EachAlone find server render clock kernel next arrived
        (remove_dead_clients_loop (transports find server render clock) turns s) := by
  induction turns with
  | zero => exact fun h => h
  | succ turns ih =>
      intro s h
      unfold remove_dead_clients_loop
      split
      · exact h
      · exact ih (h.removed _)

theorem turned (h : EachAlone find server render clock kernel next arrived s) {events : List Event}
    (hturn : turn (transports find server render clock) kernel s events = .ok s') :
    ∃ next', EachAlone find server render clock kernel next'
      (fun a => arrived a ++ heard a next events) s' ∧
      ∀ a later, heard a next (events ++ later) = heard a next events ++ heard a next' later := by
  obtain ⟨s₁, hrun, hremove⟩ := bind_eq_ok.mp hturn
  cases hremove
  obtain ⟨next', hall, hlater⟩ := h.batch events hrun
  exact ⟨next', hall.removedAll _, hlater⟩

/-! ## Runs of the loop -/

theorem turnedAll (batches : List (List Event)) :
    ∀ {next : Addr} {arrived : Addr → List Bytes} {s s' : Impl (Backend σ)},
      EachAlone find server render clock kernel next arrived s →
      Run.run (turn (transports find server render clock) kernel) s batches = .ok s' →
        ∃ next', EachAlone find server render clock kernel next'
          (fun a => arrived a ++ heard a next batches.flatten) s' ∧
          ∀ a later, heard a next (batches.flatten ++ later) =
            heard a next batches.flatten ++ heard a next' later := by
  induction batches with
  | nil =>
      intro next arrived s s' h hrun
      cases hrun
      exact ⟨next, h.congr fun a => (List.append_nil _).symm, fun a later => rfl⟩
  | cons events batches ih =>
      intro next arrived s s' h hrun
      rw [Run.run_cons] at hrun
      obtain ⟨s₁, hturn, hrest⟩ := bind_eq_ok.mp hrun
      obtain ⟨next₁, hfirst, hlater₁⟩ := h.turned hturn
      obtain ⟨next', hall, hlater⟩ := ih hfirst hrest
      refine ⟨next', hall.congr fun a => ?_, fun a later => ?_⟩
      · rw [List.flatten_cons, hlater₁, List.append_assoc]
      · rw [List.flatten_cons, List.append_assoc, hlater₁, hlater₁, hlater, List.append_assoc]

theorem new (find : Find) (server : Http1.Server σ) (render : Rendering)
    (clock : Addr → Nat → Http1.Moment) (kernel : Addr → Nat → Net.Reply)
    (signalfd listenfd_ : Fd) (opens : List Fd) (app : σ) :
    EachAlone find server render clock kernel 0 (fun _ => [])
      (Impl.new signalfd listenfd_ opens { app := app }) where
  next_eq := rfl
  alone a c hc := by cases hc
  unheard _ _ := rfl

end EachAlone

end Impl

end Shitty.Server
