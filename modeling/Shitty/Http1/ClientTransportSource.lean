import Mathlib.Logic.Function.Basic
import Shitty.Core.Message

/-!
# Transports to backends

`http1/ClientTransport.cpp` and `http1/ClientTransportSource.cpp`, over what a
`resp_handler_t` refers to. A transport is the one of its connection, which is kept
alive by one of the two containers of the source, so both have one address. What the
kernel does on the way, and the octets that are sent, are left out; that the calls throw
where the source does is not.
-/

namespace Shitty.Http1

/-- With the connection, and the requests its peer has received and not answered, each
with the handler that was set when it was sent. -/
structure ClientTransport (η : Type) where
  handler_ : Option η := none
  /-- The connection has not been closed. -/
  isOpen : Bool := true
  unanswered : List (η × Request) := []

/-- With all transports. The last connection in `spare_connections_` is at its front. -/
structure ClientTransportSource (η : Type) where
  spare_connections_ : List Nat := []
  in_use_connections_ : List Nat := []
  transports : Nat → ClientTransport η := fun _ => {}
  /-- The address of the next transport. -/
  next : Nat := 0

namespace ClientTransportSource

variable {η : Type}

/-- A member function of a transport. -/
def modify (source : ClientTransportSource η) (t : Nat)
    (f : ClientTransport η → ClientTransport η) : ClientTransportSource η :=
  { source with transports := Function.update source.transports t (f (source.transports t)) }

def setHandler (source : ClientTransportSource η) (t : Nat) (handler : η) :
    ClientTransportSource η :=
  source.modify t fun transport => { transport with handler_ := some handler }

def resetHandler (source : ClientTransportSource η) (t : Nat) : ClientTransportSource η :=
  source.modify t fun transport => { transport with handler_ := none }

/-- On a connection that has been closed, `::send` fails. -/
def sendRequest (t : Nat) (request : Request) : EStateM Exn (ClientTransportSource η) Unit :=
  fun source =>
    match (source.transports t).handler_ with
    | none =>
        .error (.invalid_argument
          "ClientTransport requires a non-null Handler when sending request") source
    | some handler =>
        .ok () (source.modify t fun transport =>
          if transport.isOpen then
            { transport with unanswered := transport.unanswered ++ [(handler, request)] }
          else transport)

/-- `try_emplace` of a transport at the address `t`, which the allocator has chosen. -/
def emplace (source : ClientTransportSource η) (t : Nat) : ClientTransportSource η :=
  if t ∈ source.in_use_connections_ then source
  else { source with in_use_connections_ := t :: source.in_use_connections_ }

/-- The spare transport that has been put back last. -/
def spareTransport (source : ClientTransportSource η) (top : Nat) (rest : List Nat) :
    Nat × ClientTransportSource η :=
  (top, { source with spare_connections_ := rest }.emplace top)

/-- A new connection, at an address of its own. -/
def newTransport (source : ClientTransportSource η) : Nat × ClientTransportSource η :=
  let t := source.next
  let transports := Function.update source.transports t {}
  (t, { source with transports := transports, next := t + 1 }.emplace t)

def getTransport (source : ClientTransportSource η) (resp_handler : η) :
    Nat × ClientTransportSource η :=
  let (t, source) :=
    match source.spare_connections_ with
    | top :: rest => source.spareTransport top rest
    | [] => source.newTransport
  (t, source.setHandler t resp_handler)

def putTransport (t : Nat) : EStateM Exn (ClientTransportSource η) Unit := fun source =>
  let source := source.resetHandler t
  if t ∈ source.in_use_connections_ then
    .ok () { source with
      spare_connections_ := t :: source.spare_connections_
      in_use_connections_ := source.in_use_connections_.erase t }
  else .error (.logic_error "Tried to remove unknown transport") source

end ClientTransportSource

end Shitty.Http1
