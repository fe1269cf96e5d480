import Mathlib.Logic.Function.Basic
import Shitty.Lib.Run
import Shitty.Net.Connection

/-!
# The event loop

`Server::Impl` of `Server.cpp`, with `onPollIn`, the constructor and the destructor
of `Connection.cpp` and the kernel's table of descriptors. The transports and what
is behind them are a parameter: they are given the input of a connection, and reach
connections by their public functions only. `Connection::send` and `onPollOut` are
those of `Net`.
-/

namespace Shitty.Server

open Lib

abbrev Fd := Nat

/-- Where a connection lies. No address is used twice, so that a connection that has
been destroyed is not taken for a new one. -/
abbrev Addr := Nat

/-! ## The kernel -/

/-- What `accept4` or `socket` returns: a descriptor that is not open. -/
structure Descriptor where
  fd : List Fd → Fd
  fresh : ∀ opens, fd opens ∉ opens

/-- How the reads of one `onPollIn` end. -/
inductive ReadEnd where
  | again
  | eof
  | failed
  deriving DecidableEq

/-- What `::read` returns during one `onPollIn`. -/
structure Input where
  pieces : List Bytes := []
  last : ReadEnd := .again

/-- A connection `accept4` returns, and what is read from it at once. -/
structure Accept where
  descriptor : Descriptor
  input : Input

inductive Receiver where
  | signal
  | listener
  | connection (a : Addr)
  deriving DecidableEq

/-- An `epoll_event`, with what the kernel has to say while it is dispatched. There is
no `EPOLLERR`, for which nothing is done. -/
inductive Event where
  | signal
  | listener (accepts : List Accept)
  | connection (a : Addr) (out : Bool) (input : Option Input)

def Event.receiver : Event → Receiver
  | .signal => .signal
  | .listener _ => .listener
  | .connection a _ _ => .connection a

/-- What becomes of the descriptor of a connection. -/
inductive Call where
  /-- `accept4` has returned it. -/
  | accept (fd : Fd)
  /-- `socket` has returned it. -/
  | socket (fd : Fd)
  /-- `removeConnection` has put it into the queue of those to be closed. -/
  | remove (fd : Fd)
  /-- `::close` has been called for it, as its connection had no manager. -/
  | close (fd : Fd)
  deriving DecidableEq

def Call.fd : Call → Fd
  | .accept fd => fd
  | .socket fd => fd
  | .remove fd => fd
  | .close fd => fd

/-! ## The transports -/

/-- What is done to connections from behind them. -/
inductive Command where
  | send (a : Addr) (payload : Bytes)
  | close (a : Addr)
  /-- `ClientTransportSource::newTransport`, which opens a connection to the backend. -/
  | connect (descriptor : Descriptor)

/-- The transports of all connections and what is behind them, over their state. -/
structure Transports (σ : Type) where
  /-- `setTransport` on a connection that has just been accepted. -/
  setTransport : Addr → σ → σ
  /-- `onInput` on a connection that has read something, with the address the next
  connection will have. -/
  onInput : Addr → Bytes → (next : Addr) → σ → Except Exn (List Command × σ)
  /-- What the transports make of the end of a connection. -/
  destroy : Addr → σ → σ

/-- What ends the loop other than by a signal: an exception from a handler or from
`epoll_ctl`, "Accepted new connection with existing fd", and the use of a connection
that has been destroyed, by the loop or by a transport. -/
inductive Stop where
  | thrown (e : Exn)
  | existingFd
  | destroyedReceiver
  | destroyedConnection
  deriving DecidableEq

/-! ## The server -/

structure Connection extends Net.Connection where
  /-- `fd_` while the connection is open. It is -1 behind that, which is `isOpen`. -/
  fd : Fd
  /-- There is a connection manager, the server. -/
  manager_ : Bool

/-- `Server::Impl`, with the connections, the kernel's table and the transports. -/
structure Impl (σ : Type) where
  clients_ : List (Fd × Addr) := []
  remove_clients_ : List Fd := []
  keep_running_ : Bool := true
  listenfd_ : Fd
  /-- The connections that have not been destroyed, by their addresses. -/
  connections : Addr → Option Connection := fun _ => none
  next : Addr := 0
  /-- The descriptors that are open in the kernel's table. -/
  opens : List Fd
  /-- The interest list of `epfd_`, with the receiver of each descriptor. -/
  registered : List (Fd × Receiver)
  calls : List Call := []
  world : σ

namespace Impl

variable {σ : Type}

/-- The server after `setup`, which listens and has no clients. -/
def new (signalfd listenfd_ : Fd) (opens : List Fd) (world : σ) : Impl σ where
  listenfd_ := listenfd_
  opens := signalfd :: listenfd_ :: opens
  registered := [(signalfd, .signal), (listenfd_, .listener)]
  world := world

def isOpen (s : Impl σ) (a : Addr) : Bool := (s.connections a).any fun c => c.isOpen

/-- `::close`, which also ends a registration. -/
def sys_close (fd : Fd) (s : Impl σ) : Impl σ :=
  { s with
    opens := s.opens.filter fun other => other ≠ fd
    registered := s.registered.filter fun entry => entry.1 ≠ fd
    calls := s.calls ++ [.close fd] }

def removeConnection (fd : Fd) (s : Impl σ) : Impl σ :=
  { s with remove_clients_ := s.remove_clients_ ++ [fd], calls := s.calls ++ [.remove fd] }

/-- What `Connection::close` does to a connection that is open. -/
def release (c : Connection) (s : Impl σ) : Impl σ :=
  let s := { s with registered := s.registered.filter fun entry => entry.1 ≠ c.fd }
  if c.manager_ then s.removeConnection c.fd else s.sys_close c.fd

/-- A member function of `Net` called on a connection. Where it closes the connection,
this is the last thing it does. -/
def call (a : Addr) (f : Net.Connection → Except Exn Net.Connection) (s : Impl σ) :
    Except Stop (Impl σ) :=
  match s.connections a with
  | none => .error .destroyedConnection
  | some c =>
      match f c.toConnection with
      | .error e => .error (.thrown e)
      | .ok net =>
          let s' := { s with
            connections := Function.update s.connections a (some { c with toConnection := net }) }
          .ok (if c.isOpen && !net.isOpen then s'.release c else s')

/-- The constructor of `Connection`, on a descriptor the kernel has just returned. -/
def construct (fd : Fd) (manager_ : Bool) (call : Call) (s : Impl σ) : Impl σ :=
  { s with
    connections := Function.update s.connections s.next
      (some { toConnection := Net.Connection.new, fd := fd, manager_ := manager_ })
    next := s.next + 1
    opens := fd :: s.opens
    registered := s.registered ++ [(fd, .connection s.next)]
    calls := s.calls ++ [call] }

section

variable (t : Transports σ) (kernel : Addr → Nat → Net.Reply)

def perform (s : Impl σ) : Command → Except Stop (Impl σ)
  | .send a payload =>
      s.call a (Net.send (kernel a) (Net.memOf payload) payload.length)
  | .close a => s.call a fun net => .ok (Net.close net)
  | .connect descriptor =>
      let fd := descriptor.fd s.opens
      .ok (s.construct fd false (.socket fd))

def onInput (a : Addr) (piece : Bytes) (s : Impl σ) : Except Stop (Impl σ) :=
  match t.onInput a piece s.next s.world with
  | .error e => .error (.thrown e)
  | .ok (commands, world) => Run.run (perform kernel) { s with world := world } commands

/-- A read of a closed connection fails. -/
def onPollIn (a : Addr) (last : ReadEnd) : List Bytes → Impl σ → Except Stop (Impl σ)
  | [], s => if s.isOpen a ∧ last = .again then .ok s else perform kernel s (.close a)
  | piece :: pieces, s =>
      if s.isOpen a then do
        let s ← onInput t kernel a piece s
        -- edge-triggered: there may be more to read
        if s.isOpen a then onPollIn a last pieces s else return s
      else perform kernel s (.close a)

def accept (s : Impl σ) (client : Accept) : Except Stop (Impl σ) :=
  let client_fd := client.descriptor.fd s.opens
  let a := s.next
  let s := s.construct client_fd true (.accept client_fd)
  let s := { s with world := t.setTransport a s.world }
  if s.clients_.any fun entry => entry.1 = client_fd then .error .existingFd
  else
    onPollIn t kernel a client.input.last client.input.pieces
      { s with clients_ := s.clients_ ++ [(client_fd, a)] }

/-- What is done for `EPOLLOUT`, when the event has it. -/
def dispatch_out (a : Addr) (out : Bool) (s : Impl σ) : Except Stop (Impl σ) :=
  if out then s.call a (Net.onPollOut (kernel a)) else .ok s

/-- What is done for `EPOLLIN`, when the event has it. -/
def dispatch_in (a : Addr) : Option Input → Impl σ → Except Stop (Impl σ)
  | some input, s => onPollIn t kernel a input.last input.pieces s
  | none, s => .ok s

def dispatch (s : Impl σ) : Event → Except Stop (Impl σ)
  | .signal => .ok { s with keep_running_ := false }
  | .listener accepts => Run.run (accept t kernel) s accepts
  | .connection a out input =>
      if (s.connections a).isNone then .error .destroyedReceiver
      else dispatch_out kernel a out s >>= dispatch_in t kernel a input

/-! ## The end of a batch -/

/-- The destructor of `Connection`, which closes it and takes its transport with it. -/
def destroy (a : Addr) (s : Impl σ) : Impl σ :=
  match s.connections a with
  | none => s
  | some c =>
      let s := if c.isOpen then s.release c else s
      { s with
        connections := Function.update s.connections a none
        world := t.destroy a s.world }

/-- `clients_.erase`, by which the client is destroyed, if there is one. -/
def erase (fd : Fd) (s : Impl σ) : Impl σ :=
  match s.clients_.lookup fd with
  | none => s
  | some a => ({ s with clients_ := s.clients_.filter fun entry => entry.1 ≠ fd }).destroy t a

/-- What is done for the descriptor at the front of the queue. -/
def remove_dead_client (fd : Fd) (s : Impl σ) : Impl σ :=
  let s := (s.sys_close fd).erase t fd
  { s with remove_clients_ := s.remove_clients_.tail }

/-- The loop, for at most the given number of turns. -/
def remove_dead_clients_loop : Nat → Impl σ → Impl σ
  | 0, s => s
  | turns + 1, s =>
      match s.remove_clients_ with
      | [] => s
      | fd :: _ => remove_dead_clients_loop turns (s.remove_dead_client t fd)

/-- A turn that adds to the queue takes a client away, so there are no more turns than
there are of both. -/
def remove_dead_clients (s : Impl σ) : Impl σ :=
  remove_dead_clients_loop t (s.remove_clients_.length + s.clients_.length) s

/-- A turn of the loop: the batch of events is dispatched, and dead clients are removed. -/
def turn (s : Impl σ) (batch : List Event) : Except Stop (Impl σ) := do
  let s ← Run.run (dispatch t kernel) s batch
  return s.remove_dead_clients t

/-- `clients_.clear`, by which all clients are destroyed. -/
def close_all_clients (s : Impl σ) : Impl σ :=
  { s.clients_.foldl (fun s client => s.destroy t client.2) s with clients_ := [] }

/-- What is done behind the loop: the listening descriptor and all clients are closed. -/
def cleanup (s : Impl σ) : Impl σ :=
  ({ s with
    opens := s.opens.filter fun fd => fd ≠ s.listenfd_
    registered := s.registered.filter fun entry => entry.1 ≠ s.listenfd_ }).close_all_clients t

end

end Impl

end Shitty.Server
