import Shitty.Http1.Sending
import Shitty.Lib.Returns
import Shitty.Server.Clients
import Shitty.Server.Loop

/-!
# The transports of a server

What the event loop finds behind its connections: their `SwitchTransport`s, the
transports put in the place of those, and the handlers. A handler responds before it
returns and has no connections of its own.

How a response is written is a parameter. `sendMessage` and `sendHeaders` put the date of
the moment into it, so that each response comes with the moment at which it is sent; and
they are not reached with a code for which `statusLine` throws.
-/

namespace Shitty.Server

open Lib
open Http1 (Moment Sendable)
open Http1.ServerTransport (World)

/-- How the HTTP/1 transport writes a response. It may throw for a code without a status
line, and for no other one. -/
structure Rendering where
  text : Moment → Response → Except Exn Bytes
  text_ok : ∀ moment response, Sendable response → ∃ octets, text moment response = .ok octets

/-- The rendering that `sendResponse` of the HTTP/1 transport makes of a response. -/
def Rendering.sendResponse (find : Find) (order : Http1.Order) : Rendering where
  text moment response := Http1.Sending.responseText find order moment response
  text_ok moment _ h := Http1.Sending.responseText_ok find order moment h

/-- What is sent for some responses, of which the first one is the given one of its
connection. -/
def Rendering.texts (render : Rendering) (instants : Nat → Moment) :
    Nat → List Response → Except Exn (List Bytes)
  | _, [] => .ok []
  | n, response :: responses => do
      let text ← render.text (instants n) response
      let rest ← render.texts instants (n + 1) responses
      return text :: rest

/-- The clients, by the addresses of their connections, and the application. -/
structure Backend (σ : Type) where
  clients : Addr → Client σ := fun _ => {}
  app : σ

section

variable {σ : Type} (find : Find) (server : Http1.Server σ) (render : Rendering)

namespace Client

/-- What a call of `onInput` of an HTTP/1 transport does to its connection. No response is
sent behind `close`, and a transport that has been replaced does not call it. -/
def commands1 (instants : Nat → Moment) (a : Addr) (t : Http1.Transport (World σ)) :
    Except Exn (List Command) := do
  let t' := endState (Http1.Transport.onInput find (Http1.ServerTransport.virtual find server) t)
  let before := t.world.sent.length
  let responses ← render.texts instants before (t'.world.sent.drop before)
  let closes := if t'.world.isOpen then [] else [.close a]
  let payloads := t'.world.replacedBy.elim [] Http2.Impl.sent
  return responses.map (.send a) ++ closes ++ payloads.map (.send a)

/-- What a call of `onInput` of an HTTP/2 transport does to its connection: it sends the
payloads that are new. -/
def commands2 (a : Addr) (t : Http2.Impl) (before : Nat) : List Command :=
  let t' := endState (Http2.ServerTransport.onInput t)
  (t'.sent.drop before).map (.send a)

/-- What a call of `onInput` of the transport there is does to the connection. A transport
that is new has sent its preface. -/
def commands (instants : Nat → Moment) (a : Addr) (c : Client σ) (more : Bytes) (app : σ) :
    Except Exn (List Command) :=
  match c.transport_ with
  | .switch incoming_ =>
      match SwitchTransport.protocol (incoming_ ++ more) with
      | none => .ok []
      | some .http1 =>
          commands1 find server render instants a
            ((Http1.ServerTransport.new app).feed (incoming_ ++ more))
      | some .http2 => .ok (commands2 a ((Http2.Impl.new {}).feed (incoming_ ++ more)) 0)
  | .http1 t => commands1 find server render instants a (withApp (t.feed more) app)
  | .http2 t => .ok (commands2 a (t.feed more) t.sent.length)

end Client

/-- The clock tells at which moment a connection sends its first response, its second one,
and so on. -/
def transports (clock : Addr → Nat → Moment) : Transports (Backend σ) where
  setTransport a backend := { backend with clients := Function.update backend.clients a {} }
  onInput a piece _ backend :=
    let client := backend.clients a
    match client.onInput find server piece backend.app with
    | (_, _, some e) => .error e
    | (client', app, none) => do
        let commands ← client.commands find server render (clock a) a piece backend.app
        return (commands,
          { clients := Function.update backend.clients a client', app := app })
  destroy a backend := { backend with clients := Function.update backend.clients a {} }

end

/-! ## Texts -/

namespace Rendering

variable (render : Rendering) (instants : Nat → Moment)

/-- Of responses that have a status line, all are written. -/
theorem texts_ok {responses : List Response} (h : ∀ response ∈ responses, Sendable response) :
    ∀ n, ∃ texts, render.texts instants n responses = .ok texts := by
  induction responses with
  | nil => exact fun n => ⟨[], rfl⟩
  | cons response responses ih =>
      intro n
      rw [List.forall_mem_cons] at h
      obtain ⟨text, htext⟩ := render.text_ok (instants n) response h.1
      obtain ⟨rest, hrest⟩ := ih h.2 (n + 1)
      exact ⟨text :: rest, by rw [texts, htext, hrest]; rfl⟩

theorem texts_append {responses : List Response} (more : List Response) {rest : List Bytes} :
    ∀ {n : Nat} {texts : List Bytes}, render.texts instants n responses = .ok texts →
      render.texts instants (n + responses.length) more = .ok rest →
        render.texts instants n (responses ++ more) = .ok (texts ++ rest) := by
  induction responses with
  | nil =>
      intro n texts h hrest
      cases h
      exact hrest
  | cons response responses ih =>
      intro n texts h hrest
      rw [Rendering.texts] at h
      obtain ⟨text, htext, h⟩ := bind_eq_ok.mp h
      obtain ⟨texts₁, htexts₁, h⟩ := bind_eq_ok.mp h
      cases h
      rw [List.length_cons, Nat.add_comm responses.length 1, ← Nat.add_assoc] at hrest
      rw [List.cons_append, Rendering.texts, htext, ih htexts₁ hrest]
      rfl

end Rendering

end Shitty.Server
