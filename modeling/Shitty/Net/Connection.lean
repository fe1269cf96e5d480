import Shitty.Core.StreamBuf

/-!
# Sending and reading on a connection

`Connection::send`, `onPollOut`, `close` and the read of `onPollIn`, of
`Connection.cpp`. The kernel is an oracle that answers each call of `::send`; what it
accepted and what it was offered is written down beside the connection's own fields.
Offers to the kernel are kept with the octets that belong to the caller's message, so
that an offer of anything else can be seen in the history.
-/

namespace Shitty.Net

/-! ## The kernel -/

/-- An answer to `::send`: some of the octets offered, at least one, `EAGAIN`, or
another error. -/
inductive Reply where
  | accepts (more : Nat)
  | again
  | failed
  deriving DecidableEq, Repr

/-- What `::send` has returned: a number of octets, or that it failed, or would have blocked. -/
inductive Sent where
  | count (n : Nat)
  | again
  | failed
  deriving DecidableEq, Repr

/-- The octets offered to the kernel in one call, as an offset into the
caller's data and a count, and how long that data is. -/
structure Offer where
  offset : Nat
  count : Nat
  size : Nat
  deriving DecidableEq, Repr

/-- Nothing outside the data was offered. -/
def Offer.Inside (o : Offer) : Prop := o.offset + o.count ≤ o.size

/-! ## The connection -/

structure Connection where
  /-- Whether `fd_ != -1`: the connection has not been closed. -/
  isOpen : Bool := true
  outgoing_ : StreamBuf := {}
  /-- Whether the epoll registration of the connection includes `EPOLLOUT`. -/
  pollOut : Bool := false
  /-- How often `::send` has been called. -/
  calls : Nat := 0
  /-- What the kernel has accepted, from the first call of `::send` on. -/
  wire : Bytes := []
  offers : List Offer := []

/-- A connection that is open and on which nothing has been sent yet. -/
def Connection.new : Connection where
  outgoing_ := { inside := Nat.zero_le 0 }

/-- `::send(fd_, &data[offset], count, 0)`, where `data` is `size` octets long.
Closed descriptors are answered with `EBADF`, and an offer of nothing with 0. -/
def sys_send (kernel : Nat → Reply) (c : Connection) (data : Mem) (o : Offer) :
    Sent × Connection :=
  if c.isOpen then
    let c := { c with calls := c.calls + 1, offers := c.offers ++ [o] }
    match kernel (c.calls - 1) with
    | .accepts more =>
        let n := min o.count (more + 1)
        (.count n, { c with wire := c.wire ++ data.read o.offset n })
    | .again => (.again, c)
    | .failed => (.failed, c)
  else (.failed, c)

/-- `epoll_ctl` with `EPOLL_CTL_MOD`, which only fails after `close`. -/
def updateSubscription (c : Connection) : Except Exn Connection :=
  if c.isOpen then .ok { c with pollOut := !c.outgoing_.empty }
  else .error (.runtime_error "Failed to modify connection's epoll")

def close (c : Connection) : Connection := { c with isOpen := false, pollOut := false }

/-- The memory behind a pointer to some octets. -/
def memOf (bs : Bytes) : Mem := fun i => bs.getD i 0

/-- The loop of `onPollOut`, for at most the given number of turns, and what the
last call returned. -/
def onPollOut_loop (kernel : Nat → Reply) : Nat → Connection → Except Exn (Sent × Connection)
  | 0, c => .ok (.count 0, c)
  | turns + 1, c =>
      let (sent, c) := sys_send kernel c (memOf c.outgoing_.contents)
        { offset := 0, count := c.outgoing_.size, size := c.outgoing_.size }
      match sent with
      | .count n =>
          if 0 < n then do
            let outgoing_ ← c.outgoing_.advance n
            let c := { c with outgoing_ := outgoing_ }
            if outgoing_.empty then return (sent, c)
            else onPollOut_loop kernel turns c
          else .ok (sent, c)
      | _ => .ok (sent, c)

/-- Every turn but the last sends an octet at least, so there are no more turns
than octets. -/
def onPollOut (kernel : Nat → Reply) (c : Connection) : Except Exn Connection :=
  if c.outgoing_.empty then updateSubscription c
  else do
    let (sent, c) ← onPollOut_loop kernel c.outgoing_.size c
    if sent = .failed then return close c
    else if c.outgoing_.empty then updateSubscription c
    else return c

/-- The loop of `send_immediate`, for at most the given number of turns: what the
last call returned, and `total_sent`. -/
def send_immediate_loop (kernel : Nat → Reply) (data : Mem) (len : Nat) :
    Nat → (total_sent : Nat) → Connection → Sent × Nat × Connection
  | 0, total_sent, c => (.count 0, total_sent, c)
  | turns + 1, total_sent, c =>
      let (sent, c) := sys_send kernel c data
        { offset := total_sent, count := len + total_sent, size := len }
      match sent with
      | .count n =>
          let total_sent := total_sent + n
          if 0 < n ∧ total_sent < len then
            send_immediate_loop kernel data len turns total_sent c
          else (sent, total_sent, c)
      | _ => (sent, total_sent, c)

def send_immediate (kernel : Nat → Reply) (data : Mem) (len : Nat) (c : Connection) :
    Connection :=
  let (sent, total_sent, c) := send_immediate_loop kernel data len (len + 1) 0 c
  if sent = .count 0 ∨ sent = .failed then close c
  else if total_sent < len then
    { c with outgoing_ := c.outgoing_.write (data.read total_sent (len - total_sent)) }
  else c

def queue_and_send (kernel : Nat → Reply) (data : Mem) (len : Nat) (c : Connection) :
    Except Exn Connection :=
  onPollOut kernel { c with outgoing_ := c.outgoing_.write (data.read 0 len) }

def send (kernel : Nat → Reply) (data : Mem) (len : Nat) (c : Connection) :
    Except Exn Connection :=
  if c.outgoing_.empty then .ok (send_immediate kernel data len c)
  else queue_and_send kernel data len c

/-! ## Reading -/

/-- `onPollIn` as far as `onInput`: `::read` takes as many of the octets that have arrived
as it is asked for at most, and `close` is called (`none`) where that is none. -/
def onPollIn_read (incoming_ : StreamBuf) (arrived : Bytes) : Option StreamBuf :=
  let incoming_ := incoming_.grow
  let read := arrived.take incoming_.tailroom
  if 0 < read.length then some (incoming_.fillTail read (List.length_take_le _ _)) else none

end Shitty.Net
