import Shitty.Core.StreamBuf

/-!
# `Payload`

`Payload-inl.h`: a buffer of 1440 octets in front of the `StreamBuf` it overflows into.
What it holds is behind what the target holds, whichever way the octets went. Each call
is given the octets it writes, and a run of calls is a list of them. In the end, what is
queued is what has been written, in the order of the calls, whatever has been flushed in
between.
-/

namespace Shitty

/-- `capacity_`, for which the source takes a common TCP/IPv6 MSS. -/
def Payload.capacity_ : Nat := 1440

/-- A payload, which has its buffer and the stream it overflows into. `data_` is not
initialised. -/
structure Payload where
  len_ : Nat := 0
  data_ : Bytes
  target_ : StreamBuf
  length_data_ : data_.length = Payload.capacity_
  inside : len_ ≤ Payload.capacity_ := by decide

namespace Payload

def size (p : Payload) : Nat := p.len_

/-- What has been written and not flushed: the `size()` octets at `data()`. -/
def contents (p : Payload) : Bytes := p.data_.take p.len_

def clear (p : Payload) : Payload := { p with len_ := 0, inside := Nat.zero_le _ }

theorem length_contents (p : Payload) : p.contents.length = p.size := by
  have := p.inside
  rw [contents, List.length_take, p.length_data_, Nat.min_eq_left this, size]

def flush (p : Payload) : Payload :=
  let ensured := p.target_.ensure p.size
  let target_ := ensured.fillTail p.contents (p.length_contents ▸ p.target_.tailroom_ensure p.size)
  { p with target_ := target_ }.clear

/-- What comes first in `write`: a payload in which there is no room for more is flushed. -/
def makeRoom (p : Payload) (len : Nat) : Payload :=
  if capacity_ < p.size + len then p.flush else p

theorem makeRoom_inside (p : Payload) {len : Nat} (h : len ≤ capacity_) :
    (p.makeRoom len).len_ + len ≤ capacity_ := by
  unfold makeRoom
  split
  · show 0 + len ≤ capacity_
    omega
  · rename_i hroom
    exact Nat.not_lt.mp hroom

/-- `memcpy` behind the octets there are. -/
def append (p : Payload) (buf : Bytes) (h : p.len_ + buf.length ≤ capacity_) : Payload where
  len_ := p.len_ + buf.length
  data_ := p.data_.take p.len_ ++ buf ++ p.data_.drop (p.len_ + buf.length)
  target_ := p.target_
  length_data_ := by
    have := p.length_data_
    simp only [List.length_append, List.length_take, List.length_drop]
    omega
  inside := h

/-- More than the capacity goes to the target at once. -/
def write (p : Payload) (buf : Bytes) : Payload :=
  if h : capacity_ < buf.length then
    let p := p.makeRoom buf.length
    { p with target_ := p.target_.write buf }
  else (p.makeRoom buf.length).append buf (p.makeRoom_inside (Nat.not_lt.mp h))

def writeOctet (p : Payload) (octet : Octet) : Payload := p.write [octet]

def send (p : Payload) (buf : Bytes) : Payload := p.write buf

/-! ## What has been written -/

/-- What the target holds, and behind it what the payload holds. -/
def queued (p : Payload) : Bytes := p.target_.contents ++ p.contents

/-- The same octets and more are queued, and what the target held is in front still. -/
structure Extends (p p' : Payload) (more : Bytes) : Prop where
  queued : p'.queued = p.queued ++ more
  target : p.target_.contents <+: p'.target_.contents

theorem Extends.trans {p p' p'' : Payload} {more more' : Bytes} (h : Extends p p' more)
    (h' : Extends p' p'' more') : Extends p p'' (more ++ more') where
  queued := by rw [h'.queued, h.queued, List.append_assoc]
  target := h.target.trans h'.target

theorem flush_target (p : Payload) : p.flush.target_.contents = p.queued := by
  rw [flush, clear, StreamBuf.contents_fillTail, StreamBuf.contents_ensure, queued]

theorem flush_extends (p : Payload) : Extends p p.flush [] where
  queued := by
    have hempty : p.flush.contents = [] := rfl
    rw [queued, hempty, flush_target]
  target := by
    rw [flush_target]
    exact List.prefix_append _ _

theorem makeRoom_extends (p : Payload) (len : Nat) : Extends p (p.makeRoom len) [] := by
  unfold makeRoom
  split
  · exact p.flush_extends
  · exact ⟨(List.append_nil _).symm, List.prefix_rfl⟩

theorem append_extends (p : Payload) (buf : Bytes) (h : p.len_ + buf.length ≤ capacity_) :
    Extends p (p.append buf h) buf where
  queued := by
    have hlen : (p.data_.take p.len_ ++ buf).length = p.len_ + buf.length := by
      have := p.inside
      rw [List.length_append, List.length_take, p.length_data_, Nat.min_eq_left this]
    have hcontents : (p.append buf h).contents = p.contents ++ buf := List.take_left' hlen
    rw [queued, hcontents, ← List.append_assoc]
    rfl
  target := List.prefix_rfl

/-- Behind a flush the payload holds nothing that octets given to the target could
overtake. -/
theorem makeRoom_contents (p : Payload) {len : Nat} (h : capacity_ < len) :
    (p.makeRoom len).contents = [] := by
  rw [makeRoom, if_pos (by omega)]
  rfl

theorem write_extends (p : Payload) (buf : Bytes) : Extends p (p.write buf) buf := by
  have hroom := p.makeRoom_extends buf.length
  unfold write
  split
  · rename_i hlarge
    have hempty := p.makeRoom_contents hlarge
    refine hroom.trans ⟨?_, ?_⟩
    · show ((p.makeRoom buf.length).target_.write buf).contents ++
        (p.makeRoom buf.length).contents = _
      rw [queued, hempty, StreamBuf.contents_write, List.append_nil, List.append_nil]
    · show _ <+: ((p.makeRoom buf.length).target_.write buf).contents
      rw [StreamBuf.contents_write]
      exact List.prefix_append _ _
  · exact hroom.trans (append_extends _ buf _)

/-! ## Runs -/

inductive Call where
  | write (buf : Bytes)
  | send (buf : Bytes)
  | writeOctet (octet : Octet)

namespace Call

def octets : Call → Bytes
  | .write buf => buf
  | .send buf => buf
  | .writeOctet octet => [octet]

def apply (p : Payload) : Call → Payload
  | .write buf => p.write buf
  | .send buf => p.send buf
  | .writeOctet octet => p.writeOctet octet

theorem apply_extends (p : Payload) (call : Call) : Extends p (call.apply p) call.octets := by
  cases call with
  | write buf => exact p.write_extends buf
  | send buf => exact p.write_extends buf
  | writeOctet octet => exact p.write_extends [octet]

end Call

theorem calls_extend (calls : List Call) (p : Payload) :
    Extends p (calls.foldl Call.apply p) (calls.flatMap Call.octets) := by
  induction calls generalizing p with
  | nil => exact ⟨(List.append_nil _).symm, List.prefix_rfl⟩
  | cons call calls ih =>
      rw [List.foldl_cons, List.flatMap_cons]
      exact (Call.apply_extends p call).trans (ih _)

/-- After any calls what is queued is what was queued, and what has been written since in
its order. No more than 1440 octets are in the payload, and the target has only grown at
its end. -/
theorem calls_keep_order (p : Payload) (calls : List Call) :
    (calls.foldl Call.apply p).queued = p.queued ++ calls.flatMap Call.octets ∧
      (calls.foldl Call.apply p).size ≤ 1440 ∧
      p.target_.contents <+: (calls.foldl Call.apply p).target_.contents :=
  ⟨(calls_extend calls p).queued, (calls.foldl Call.apply p).inside, (calls_extend calls p).target⟩

end Payload

end Shitty
