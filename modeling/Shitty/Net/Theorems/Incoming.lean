import Mathlib.Data.List.Infix
import Shitty.Net.Connection

/-!
# What goes through a `StreamBuf`

Octets come out of a `StreamBuf` in the order in which they were put in, whatever is
called on it, and there is always room to read into behind `grow`. The history of a
buffer is kept beside it: what has been put in, and how much has been taken. The
invariant relates the two, and one lemma for each call keeps it.
-/

namespace Shitty

open StreamBuf (SIZE_MAX)

/-! ## Calls -/

inductive StreamBufCall where
  | write (data : Bytes)
  | writeOctet (octet : Octet)
  | advance (amount : Nat)
  | grow
  | ensure (extra_capacity : Nat)
  | shrink_to_fit
  /-- No more than `tailroom()` octets of what is offered, to `tail()`, and
  `addTailContent` of their number. -/
  | read (offered : Bytes)
  deriving DecidableEq, Repr

/-- A buffer, the octets that have been put in, and how many of them were advanced over. -/
structure BufSession where
  buf : StreamBuf
  put : Bytes
  taken : Nat

namespace BufSession

/-- A buffer into which nothing has been put yet, and its history. -/
def new : BufSession where
  buf := { in_use_ := 0, buf_ := [], inside := StreamBuf.inside_nil }
  put := []
  taken := 0

/-- What is thrown, and the buffer behind the call. -/
def call (s : BufSession) : StreamBufCall → Option Exn × BufSession
  | .write data => (none, { s with buf := s.buf.write data, put := s.put ++ data })
  | .writeOctet octet => (none, { s with buf := s.buf.writeOctet octet, put := s.put ++ [octet] })
  | .advance amount =>
      match s.buf.advance amount with
      | .error e => (some e, s)
      | .ok buf => (none, { s with buf := buf, taken := s.taken + amount })
  | .grow => (none, { s with buf := s.buf.grow })
  | .ensure extra_capacity => (none, { s with buf := s.buf.ensure_size_t extra_capacity })
  | .shrink_to_fit => (none, { s with buf := s.buf.shrink_to_fit })
  | .read offered =>
      let data := offered.take s.buf.tailroom
      (none, { s with
        buf := s.buf.fillTail data (List.length_take_le _ _)
        put := s.put ++ data })

def after (s : BufSession) (c : StreamBufCall) : BufSession := (s.call c).2

/-- The calls one behind the other; the caller goes on when one throws. -/
def reached (calls : List StreamBufCall) : BufSession := calls.foldl after new

/-- The vector never gets so large that `grow` could not make it larger. -/
def Within (calls : List StreamBufCall) : Prop :=
  ∀ p, p <+: calls → (reached p).buf.capacity < SIZE_MAX / 4

/-- First in, first out: the contents are what has been put in, without what has been taken. -/
structure Fifo (s : BufSession) : Prop where
  taken : s.taken ≤ s.put.length
  contents : s.buf.contents = s.put.drop s.taken

/-- A buffer with room to grow. -/
structure Serves (s : BufSession) : Prop extends Fifo s where
  inside : s.buf.size ≤ s.buf.capacity
  throws : ∀ amount, (s.call (.advance amount)).1 ≠ none ↔ s.buf.size < amount
  unchanged : ∀ amount, (s.call (.advance amount)).1 ≠ none → (s.call (.advance amount)).2 = s
  grown : (s.call .grow).2.buf.contents = s.buf.contents
  room : 1 ≤ (s.call .grow).2.buf.tailroom
  /-- `onPollIn` closes at the end of the file only. -/
  reads : ∀ arrived, Net.onPollIn_read s.buf arrived = none ↔ arrived = []

/-! ## One call -/

theorem call_advance_ok {s : BufSession} {amount : Nat} (h : amount ≤ s.buf.size) :
    ∃ buf, s.call (.advance amount) = (none, { s with buf := buf, taken := s.taken + amount }) ∧
      buf.contents = s.buf.contents.drop amount := by
  obtain ⟨buf, hadvance, hcontents⟩ := StreamBuf.advance_ok h
  refine ⟨buf, ?_, hcontents⟩
  simp only [call, hadvance]

theorem call_advance_throws {s : BufSession} {amount : Nat} (h : s.buf.size < amount) :
    s.call (.advance amount) =
      (some (.length_error "StreamBuf::advance out of range"), s) := by
  have hadvance : s.buf.advance amount =
      .error (.length_error "StreamBuf::advance out of range") := if_pos h
  simp only [call, hadvance]

theorem call_advance_throws_iff {s : BufSession} (amount : Nat) :
    (s.call (.advance amount)).1 ≠ none ↔ s.buf.size < amount := by
  by_cases hthrows : s.buf.size < amount
  · rw [call_advance_throws hthrows]
    exact iff_of_true (by simp) hthrows
  · obtain ⟨buf, hcall, -⟩ := call_advance_ok (Nat.le_of_not_lt hthrows)
    rw [hcall]
    exact iff_of_false (by simp) hthrows

theorem Fifo.put {s : BufSession} (h : Fifo s) {buf : StreamBuf} {data : Bytes}
    (hbuf : buf.contents = s.buf.contents ++ data) :
    Fifo { s with buf := buf, put := s.put ++ data } := by
  constructor
  · show s.taken ≤ (s.put ++ data).length
    have := h.taken
    rw [List.length_append]
    omega
  · show buf.contents = (s.put ++ data).drop s.taken
    rw [hbuf, h.contents, List.drop_append_of_le_length h.taken]

theorem Fifo.same {s : BufSession} (h : Fifo s) {buf : StreamBuf}
    (hbuf : buf.contents = s.buf.contents) : Fifo { s with buf := buf } :=
  ⟨h.taken, hbuf.trans h.contents⟩

theorem Fifo.call {s : BufSession} (h : Fifo s) (c : StreamBufCall) : Fifo (s.call c).2 := by
  cases c with
  | write data => exact h.put (s.buf.contents_write data)
  | writeOctet octet => exact h.put (s.buf.contents_write [octet])
  | advance amount =>
      by_cases hthrows : s.buf.size < amount
      · rw [call_advance_throws hthrows]
        exact h
      · obtain ⟨buf, hcall, hcontents⟩ := call_advance_ok (Nat.le_of_not_lt hthrows)
        -- no more is taken than is there
        have hsize : s.buf.size = s.put.length - s.taken := by
          rw [← StreamBuf.length_contents, h.contents, List.length_drop]
        rw [hcall]
        constructor
        · show s.taken + amount ≤ s.put.length
          have := h.taken
          omega
        · show buf.contents = s.put.drop (s.taken + amount)
          rw [hcontents, h.contents, List.drop_drop]
  | grow => exact h.same s.buf.contents_grow
  | ensure extra_capacity => exact h.same (s.buf.contents_reserve _)
  | shrink_to_fit => exact h.same s.buf.contents_shrink_to_fit
  | read offered => exact h.put (s.buf.contents_fillTail _ _)

/-! ## Any calls -/

theorem fifo_reached (calls : List StreamBufCall) : Fifo (reached calls) := by
  have hrun : ∀ s, Fifo s → Fifo (calls.foldl after s) := by
    induction calls with
    | nil => exact fun s h => h
    | cons c calls ih => exact fun s h => ih _ (h.call c)
  exact hrun new ⟨Nat.le_refl 0, rfl⟩

/-- A read of no octets has met the end of the file, for there was room for one. -/
theorem onPollIn_read_none {b : StreamBuf} (h : b.capacity < SIZE_MAX) (arrived : Bytes) :
    Net.onPollIn_read b arrived = none ↔ arrived = [] := by
  have hroom := StreamBuf.tailroom_grow h
  unfold Net.onPollIn_read
  dsimp only
  cases arrived with
  | nil => simp
  | cons octet arrived =>
      rw [if_pos]
      · simp
      · rw [List.length_take, List.length_cons]
        omega

/-- Calls in any order, of any octets, on a buffer that does not get too large: first in,
first out, and room behind `grow`. -/
theorem streamBuf_serves (calls : List StreamBufCall) (h : Within calls) :
    Serves (reached calls) := by
  have hcap : (reached calls).buf.capacity < SIZE_MAX := by
    have := h calls (List.prefix_refl _)
    omega
  exact
    { fifo_reached calls with
      inside := (reached calls).buf.inside
      throws := call_advance_throws_iff
      unchanged := fun amount hne => by
        rw [call_advance_throws ((call_advance_throws_iff amount).mp hne)]
      grown := StreamBuf.contents_grow _
      room := StreamBuf.tailroom_grow hcap
      reads := onPollIn_read_none hcap }

/-- Two octets in, one out, room for more, and an `advance` over too many. -/
theorem streamBuf_serves_pair :
    Serves (reached [.write [0x61, 0x62], .advance 1, .grow, .read [0x63], .advance 3]) := by
  have hwithin : ∀ p ∈ [.write [0x61, 0x62], .advance 1, .grow, .read [0x63], .advance 3].inits,
      (reached p).buf.capacity < SIZE_MAX / 4 := by decide +kernel
  exact streamBuf_serves _ fun p hp => hwithin p ((List.mem_inits _ _).mpr hp)

end BufSession

end Shitty
