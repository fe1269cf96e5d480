import Shitty.Http1.Logic.Pipeline
import Shitty.Lib.Run
import Shitty.Proxy.ProxyHandler

/-!
# Clients, the proxy and its backends

A proxy with any number of HTTP/1 clients, which is what the event loop makes of them:
a message of a client is dispatched, a message of a backend arrives, a connection is
closed by its peer, and dead clients are removed at the end of a batch of events.
-/

namespace Shitty.Proxy

open Lib Http1 Http1.Transport Http1.ServerTransport

/-! ## Messages -/

/-- What a transport has its derived class do with one message. A transport that has been
replaced is not touched any more. -/
def serve {ω : Type} (find : Find) (virtual : Virtual ω) (msg : IncomingMessage) :
    EStateM Exn ω Unit := do
  virtual.onEndOfMessageHeaders msg.message.headers_
  virtual.handleIncomingMessage msg
  if virtual.replaced (← get) then return
  else if closes find msg then modify virtual.close
  else return

/-- Whether a response is final, and not an informational one from 100 to 199. -/
def isFinal (response : Response) : Bool :=
  response.status_code_ < 100 || 200 ≤ response.status_code_

/-- Whether a response has the field `Connection: close`, as `find` finds it. -/
def closing (find : Find) (response : Response) : Bool :=
  (response.message.headers_.get find (octets "connection")).2 == octets "close"

/-! ## The system -/

/-- The server transports of clients, which are destroyed with their connections, the
proxy, and which backend response was given to which request. -/
structure System where
  clients : Nat → Option (World Unit) := fun _ => none
  /-- The address of the next client. -/
  next : Nat := 0
  proxy : State := {}
  replies : List (Nat × Response) := []

inductive Event where
  /-- A client connection that speaks HTTP/1. -/
  | connect
  /-- A message has been read to its end. There may have been more of them in the buffer
  than one, and not all of them dispatched when the connection is closed. -/
  | request (client : Nat) (msg : IncomingMessage)
  /-- A backend's answer to the first request it has not given a final answer to. -/
  | reply (backend : Nat) (response : Response)
  | clientClose (client : Nat)
  | backendClose (backend : Nat)
  | remove_dead_clients

/-- The world of one client, over another application. -/
def withApp {σ τ : Type} (w : World σ) (app : τ) : World τ where
  isOpen := w.isOpen
  replacedBy := w.replacedBy
  sent := w.sent
  app := app

namespace System

/-- `onBackendResponse`, called through the handler of a transport. -/
def onBackendResponse (handler : Nat) (response : Response) (s : System) : Except Exn System :=
  match s.proxy.handlers handler with
  | none => .error .useAfterDestroy
  | some perRequest =>
      match State.releaseBackendTransport handler s.proxy with
      | .error e _ => .error e
      | .ok _ proxy =>
          match s.clients perRequest.responder_ with
          | none => .error .useAfterDestroy
          | some w =>
              if w.replacedBy.isSome then .error .useAfterDestroy
              else
                match sendResponse response w with
                | .error e _ => .error e
                | .ok _ w =>
                    .ok { s with
                      clients := Function.update s.clients perRequest.responder_ (some w)
                      -- delete this
                      proxy := { proxy with
                        handlers := Function.update proxy.handlers handler none } }

/-- `Transport::handleMessage` of a backend transport, with the message it has read. -/
def handleResponse (find : Find) (backend : Nat) (response : Response) (s : System) :
    Except Exn System :=
  match (s.proxy.source.transports backend).handler_ with
  | none => .error .bad_function_call
  | some handler => do
      let s ← onBackendResponse handler response s
      if closing find response then
        let source := s.proxy.source.modify backend fun transport =>
          { transport with isOpen := false }
        return { s with proxy := { s.proxy with source := source } }
      else return s

/-- The backend has answered. A final answer is the answer to a request. -/
def answer (backend : Nat) (handler : Nat) (response : Response) (s : System) : System :=
  if isFinal response then
    { s with
      replies := s.replies ++ [(handler, response)]
      proxy := { s.proxy with
        source := s.proxy.source.modify backend fun transport =>
          { transport with unanswered := transport.unanswered.tail } } }
  else s

/-- Nothing is read from a connection that is closed, and no backend speaks without
having been asked. -/
def reply (find : Find) (backend : Nat) (response : Response) (s : System) : Except Exn System :=
  let transport := s.proxy.source.transports backend
  match transport.unanswered with
  | [] => .ok s
  | (handler, _) :: _ =>
      if transport.isOpen then handleResponse find backend response (answer backend handler response s)
      else .ok s

section

variable (fb64 : Http2.Fb64) (find : Find)

/-- A transport that has been replaced reads nothing. -/
def request (client : Nat) (msg : IncomingMessage) (s : System) : Except Exn System :=
  match s.clients client with
  | none => .ok s
  | some w =>
      if w.replacedBy.isSome then .ok s
      else
        match serve find (virtual find (server fb64 find client)) msg (withApp w s.proxy) with
        | .error e _ => .error e
        | .ok _ w =>
            .ok { s with
              clients := Function.update s.clients client (some (withApp w ()))
              proxy := w.app }

def step (s : System) : Event → Except Exn System
  | .connect =>
      .ok { s with
        clients := Function.update s.clients s.next (some { app := () })
        next := s.next + 1 }
  | .request client msg => request fb64 find client msg s
  | .reply backend response => reply find backend response s
  | .clientClose client =>
      .ok { s with
        clients := Function.update s.clients client
          ((s.clients client).map fun w => { w with isOpen := false }) }
  | .backendClose backend =>
      if backend < s.proxy.source.next then
        let source := s.proxy.source.modify backend fun transport =>
          { transport with isOpen := false }
        .ok { s with proxy := { s.proxy with source := source } }
      else .ok s
  | .remove_dead_clients =>
      .ok { s with clients := fun client => (s.clients client).filter fun w => w.isOpen }

/-- From the start of the proxy on. -/
def run (events : List Event) : Except Exn System := Run.run (step fb64 find) {} events

end

end System

end Shitty.Proxy
