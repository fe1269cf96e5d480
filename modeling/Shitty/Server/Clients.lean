import Shitty.Http1.ServerTransport

/-!
# The transports of a client's connection

`SwitchTransport.cpp`, the transports it can be replaced by, and the upgrade from the
one to the other. The buffer is the connection's; the state of the application is that
of the server. The buffer is handed on as it is when one transport takes the place of
another. Which transports have been put there is written down beside them.
-/

namespace Shitty.Server

open Http1.ServerTransport (World)

inductive Protocol where
  | http1
  | http2
  deriving DecidableEq, Repr

/-- The transport of a connection, with what is in its buffer. -/
inductive Current (σ : Type) where
  | switch (incoming_ : Bytes)
  | http1 (t : Http1.Transport (World σ))
  | http2 (t : Http2.Impl)

/-- A connection that has been accepted, with the transports its `SwitchTransport` has put in
its place, and what was in the buffer when they were first called. -/
structure Client (σ : Type) where
  transport_ : Current σ := .switch []
  started : List (Protocol × Bytes) := []

namespace SwitchTransport

/-- The transport to switch to, unless it takes more data to be sure. -/
def protocol (buf : Bytes) : Option Protocol :=
  let maybeHTTP2 := buf == Http2.CLIENT_PREFACE.take buf.length
  let definitelyHTTP2 := buf.take Http2.CLIENT_PREFACE.length == Http2.CLIENT_PREFACE
  if buf.length < Http2.CLIENT_PREFACE.length then
    if maybeHTTP2 then none else some .http1
  else some (if definitelyHTTP2 then .http2 else .http1)

end SwitchTransport

namespace Client

variable {σ : Type} (find : Find) (server : Http1.Server σ)

/-- The state of the application as the transport sees it. -/
def withApp (t : Http1.Transport (World σ)) (app : σ) : Http1.Transport (World σ) :=
  { t with world := { t.world with app := app } }

/-- A call of `onInput` of an HTTP/1 transport; another one may have taken its place. -/
def onInput1 (c : Client σ) (t : Http1.Transport (World σ)) : Client σ × σ × Option Exn :=
  match Http1.Transport.onInput find (Http1.ServerTransport.virtual find server) t with
  | .error e t => ({ c with transport_ := .http1 t }, t.world.app, some e)
  | .ok _ t =>
      match t.world.replacedBy with
      | some h2Transport =>
          ({ c with transport_ := .http2 (h2Transport.feed t.buf) }, t.world.app, none)
      | none => ({ c with transport_ := .http1 t }, t.world.app, none)

/-- A call of `onInput` of an HTTP/2 transport. -/
def onInput2 (c : Client σ) (t : Http2.Impl) (app : σ) : Client σ × σ × Option Exn :=
  match Http2.ServerTransport.onInput t with
  | .error e t => ({ c with transport_ := .http2 t }, app, some e)
  | .ok _ t => ({ c with transport_ := .http2 t }, app, none)

/-- `SwitchTransport::onInput`, which calls the transport it puts in its place on the same
buffer. -/
def onInputSwitch (c : Client σ) (buf : Bytes) (app : σ) : Client σ × σ × Option Exn :=
  match SwitchTransport.protocol buf with
  | none => ({ c with transport_ := .switch buf }, app, none)
  | some .http1 =>
      onInput1 find server { c with started := c.started ++ [(.http1, buf)] }
        ((Http1.ServerTransport.new app).feed buf)
  | some .http2 =>
      onInput2 { c with started := c.started ++ [(.http2, buf)] } ((Http2.Impl.new {}).feed buf) app

/-- `onInput` of the transport there is, when more has been read. -/
def onInput (c : Client σ) (more : Bytes) (app : σ) : Client σ × σ × Option Exn :=
  match c.transport_ with
  | .switch incoming_ => onInputSwitch find server c (incoming_ ++ more) app
  | .http1 t => onInput1 find server c (withApp (t.feed more) app)
  | .http2 t => onInput2 c (t.feed more) app

/-- The reads of a connection, one call of `onInput` each, up to the first exception. -/
def run : List Bytes → Client σ → σ → Client σ × σ × Option Exn
  | [], c, app => (c, app, none)
  | piece :: pieces, c, app =>
      let (c, app, thrown) := onInput find server c piece app
      if thrown.isSome then (c, app, thrown) else run pieces c app

end Client

end Shitty.Server
