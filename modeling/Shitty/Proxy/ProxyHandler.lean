import Shitty.Http1.ClientTransportSource
import Shitty.Http1.ServerTransport
import Shitty.Server.Routes

/-!
# The proxy

`ProxyHandler.cpp` and `ProxyServer.cpp`. A handler is made for each request and
destroys itself behind the backend's response. It knows its `Responder`, which refers to
the server transport of a client, and its backend transport, by their addresses.
Handlers are numbered in the order in which they are made, and which client each of them
was made for is written down.
-/

namespace Shitty.Proxy

open Http1

structure PerRequestProxyHandler where
  responder_ : Nat
  backendTransport_ : Option Nat := none

/-- What there is behind the clients of a proxy: the source of backend transports, the
handlers that have not been destroyed, and which requests have been dispatched: the
handler that was made for each, and the client. -/
structure State where
  source : ClientTransportSource Nat := {}
  handlers : Nat → Option PerRequestProxyHandler := fun _ => none
  /-- The address of the next handler. -/
  next : Nat := 0
  dispatched : List (Nat × Nat) := []

namespace State

/-- `sendBackendRequest`, in the constructor of the handler at `handler`. -/
def sendBackendRequest (handler responder : Nat) (request : Request) : EStateM Exn State Unit :=
  fun p =>
    let (t, source) := p.source.getTransport handler
    let p := { p with
      handlers := Function.update p.handlers handler
        (some { responder_ := responder, backendTransport_ := some t }) }
    match ClientTransportSource.sendRequest t request source with
    | .ok _ source => .ok () { p with source := source }
    | .error e source => .error e { p with source := source }

/-- `new PerRequestProxyHandler`, at an address that no handler has had, and what its
constructor does. -/
def construct (responder : Nat) (request : Request) : EStateM Exn State Unit := fun p =>
  sendBackendRequest p.next responder request { p with
    next := p.next + 1
    dispatched := p.dispatched ++ [(p.next, responder)] }

/-- `releaseBackendTransport`, which puts the handler's transport back into the pool. -/
def releaseBackendTransport (handler : Nat) : EStateM Exn State Unit := fun p =>
  match p.handlers handler with
  | some { responder_ := responder, backendTransport_ := some t } =>
      match ClientTransportSource.putTransport t p.source with
      | .ok _ source =>
          .ok () { p with
            source := source
            handlers := Function.update p.handlers handler (some { responder_ := responder }) }
      | .error e source => .error e { p with source := source }
  | _ => .error .useAfterDestroy p

end State

/-- The handler, for the server transport a `Responder` is made for. -/
def MakeProxyHandler (responder : Nat) : RequestHandler State := fun request p =>
  match State.construct responder request p with
  | .ok _ p => .ok ([], p)
  | .error e _ => .error e

/-- The routes of the proxy server. -/
def routes (responder : Nat) : Routes State :=
  Routes.addHandler {} (octets "/") (MakeProxyHandler responder)

/-- The server, as the transport of a client sees it. -/
def server (fb64 : Http2.Fb64) (find : Find) (responder : Nat) : Server State where
  dispatch := (routes responder).dispatch
  upgrade := HTTP2Upgrader.upgrade fb64 find

end Shitty.Proxy
