import Shitty.Core.Octet

/-!
# `StreamBuf`

A buffer that is written at its end and read from its front: `in_use_` octets of `buf_`,
with room behind them. Its contents are what the functions on top of it work with. The
invariant, that what is in use is inside, is a field, so that no buffer can be built
without it. Where memory is to grow, the source computes in `size_t`, and so does the
version with the wrap-around.
-/

namespace Shitty

structure StreamBuf where
  in_use_ : Nat := 0
  buf_ : Bytes := []
  inside : in_use_ ≤ buf_.length := by decide

/-- What is left of `data` behind its first `amount` octets, when there are that
many: `StreamBuf::advance` as far as the contents go. -/
def advance (amount : Nat) (data : Bytes) : Except Exn Bytes :=
  if data.length < amount then .error (.length_error "StreamBuf::advance out of range")
  else .ok (data.drop amount)

namespace StreamBuf

theorem inside_nil : 0 ≤ ([] : Bytes).length := Nat.zero_le 0

def contents (b : StreamBuf) : Bytes := b.buf_.take b.in_use_

def size (b : StreamBuf) : Nat := b.in_use_

def capacity (b : StreamBuf) : Nat := b.buf_.length

def tailroom (b : StreamBuf) : Nat := b.capacity - b.size

def empty (b : StreamBuf) : Bool := b.size == 0

def clear (b : StreamBuf) : StreamBuf where
  in_use_ := 0
  buf_ := b.buf_
  inside := Nat.zero_le _

/-- `memmove` to the front of the vector; what was behind it stays. -/
def advance (b : StreamBuf) (amount : Nat) : Except Exn StreamBuf :=
  if b.size < amount then .error (.length_error "StreamBuf::advance out of range")
  else if amount = b.size then .ok b.clear
  else
    let in_use_ := b.in_use_ - amount
    .ok
      { in_use_ := in_use_
        buf_ := (b.buf_.drop amount).take in_use_ ++ b.buf_.drop in_use_
        inside := by
          have := b.inside
          simp only [List.length_append, List.length_take, List.length_drop]
          omega }

def reserve (b : StreamBuf) (new_size : Nat) : StreamBuf :=
  if new_size < b.buf_.length then b
  else
    { in_use_ := b.in_use_
      buf_ := b.buf_ ++ List.replicate (new_size - b.buf_.length) 0
      inside := by
        have := b.inside
        rw [List.length_append]
        omega }

def ensure (b : StreamBuf) (extra_capacity : Nat) : StreamBuf :=
  b.reserve (b.size + extra_capacity)

/-- The largest `size_t`, behind which additions wrap around. -/
def SIZE_MAX : Nat := 2 ^ 64 - 1

/-- `ensure`, where the sum of two `size_t` may be too large for one. -/
def ensure_size_t (b : StreamBuf) (extra_capacity : Nat) : StreamBuf :=
  b.reserve ((b.size + extra_capacity) % (SIZE_MAX + 1))

def GROWTH_FACTOR : Nat := 4

def grow (b : StreamBuf) : StreamBuf :=
  if b.size < 4096 / GROWTH_FACTOR then b.reserve 4096
  else if b.capacity / 2 < b.size then
    b.reserve
      (if SIZE_MAX / GROWTH_FACTOR < b.capacity then SIZE_MAX else b.capacity * GROWTH_FACTOR)
  else b

/-- What is behind the contents goes. -/
def shrink_to_fit (b : StreamBuf) : StreamBuf where
  in_use_ := b.in_use_
  buf_ := b.buf_.take b.in_use_
  inside := by
    rw [List.length_take, Nat.min_eq_left b.inside]

theorem size_reserve (b : StreamBuf) (n : Nat) : (b.reserve n).in_use_ = b.in_use_ := by
  unfold reserve
  split <;> rfl

/-- `memcpy` of `data` to `tail()`, and `addTailContent`. -/
def fillTail (b : StreamBuf) (data : Bytes) (h : data.length ≤ b.tailroom) : StreamBuf where
  in_use_ := b.in_use_ + data.length
  buf_ := b.buf_.take b.in_use_ ++ data ++ b.buf_.drop (b.in_use_ + data.length)
  inside := by
    have := b.inside
    have hroom : data.length ≤ b.buf_.length - b.in_use_ := h
    simp only [List.length_append, List.length_take]
    omega

theorem tailroom_ensure (b : StreamBuf) (n : Nat) : n ≤ (b.ensure n).tailroom := by
  have hsize : (b.reserve (b.size + n)).size = b.size := b.size_reserve _
  unfold tailroom ensure capacity
  rw [hsize]
  unfold reserve
  split
  · omega
  · simp only [List.length_append, List.length_replicate]
    omega

/-- The octets of `data` behind the contents. -/
def write (b : StreamBuf) (data : Bytes) : StreamBuf :=
  let e := b.ensure data.length
  { in_use_ := e.in_use_ + data.length
    buf_ := e.buf_.take e.in_use_ ++ data ++ e.buf_.drop (e.in_use_ + data.length)
    inside := by
      have h := e.inside
      simp only [List.length_append, List.length_take]
      omega }

def writeOctet (b : StreamBuf) (octet : Octet) : StreamBuf := b.write [octet]

/-! ## Contents -/

@[simp] theorem length_contents (b : StreamBuf) : b.contents.length = b.size := by
  have := b.inside
  rw [contents, List.length_take, Nat.min_eq_left this, size]

theorem empty_iff (b : StreamBuf) : b.empty = true ↔ b.contents = [] := by
  rw [empty, beq_iff_eq, ← length_contents, List.length_eq_zero_iff]

@[simp] theorem contents_clear (b : StreamBuf) : b.clear.contents = [] := rfl

theorem contents_reserve (b : StreamBuf) (n : Nat) : (b.reserve n).contents = b.contents := by
  have := b.inside
  unfold reserve
  split
  · rfl
  · rw [contents, List.take_append_of_le_length this]
    rfl

theorem capacity_reserve (b : StreamBuf) (n : Nat) :
    (b.reserve n).capacity = max b.capacity n := by
  unfold reserve capacity
  split
  · omega
  · rw [List.length_append, List.length_replicate]
    omega

theorem contents_grow (b : StreamBuf) : b.grow.contents = b.contents := by
  unfold grow
  split
  · exact b.contents_reserve _
  · split
    · exact b.contents_reserve _
    · rfl

/-- There is room behind the contents: more of it was made, or only half of the buffer is
in use. -/
theorem tailroom_grow {b : StreamBuf} (hcap : b.capacity < SIZE_MAX) : 1 ≤ b.grow.tailroom := by
  have hsize : ∀ n, (b.reserve n).size = b.size := b.size_reserve
  have hinside : b.size ≤ b.capacity := b.inside
  unfold grow tailroom
  split
  · rename_i hfew
    simp only [GROWTH_FACTOR] at hfew
    rw [hsize, capacity_reserve]
    omega
  · rename_i hmany
    simp only [GROWTH_FACTOR] at hmany
    split
    · -- four times the capacity, or as much as there can be
      have hmore : b.capacity < if SIZE_MAX / GROWTH_FACTOR < b.capacity then SIZE_MAX
          else b.capacity * GROWTH_FACTOR := by
        by_cases hlarge : SIZE_MAX / GROWTH_FACTOR < b.capacity
        · rw [if_pos hlarge]
          exact hcap
        · rw [if_neg hlarge]
          simp only [GROWTH_FACTOR]
          omega
      rw [hsize, capacity_reserve]
      omega
    · omega

theorem contents_shrink_to_fit (b : StreamBuf) : b.shrink_to_fit.contents = b.contents := by
  rw [contents, shrink_to_fit, List.take_take, Nat.min_self]
  rfl

theorem contents_fillTail (b : StreamBuf) (data : Bytes) (h : data.length ≤ b.tailroom) :
    (b.fillTail data h).contents = b.contents ++ data := by
  have hlen : (b.buf_.take b.in_use_ ++ data).length = b.in_use_ + data.length := by
    rw [List.length_append, List.length_take, Nat.min_eq_left b.inside]
  simp only [contents, fillTail]
  rw [← hlen, List.take_left]

/-- `write` makes room and fills it. -/
theorem write_eq (b : StreamBuf) (data : Bytes) :
    b.write data = (b.ensure data.length).fillTail data (b.tailroom_ensure data.length) := rfl

theorem contents_ensure (b : StreamBuf) (n : Nat) : (b.ensure n).contents = b.contents :=
  b.contents_reserve _

theorem contents_write (b : StreamBuf) (data : Bytes) :
    (b.write data).contents = b.contents ++ data := by
  rw [write_eq, contents_fillTail, contents_ensure]

/-- `StreamBuf::advance` is `advance` on the contents. -/
theorem advance_contents (b : StreamBuf) (amount : Nat) :
    (b.advance amount).map contents = Shitty.advance amount b.contents := by
  unfold advance Shitty.advance
  rw [length_contents]
  by_cases hle : b.size < amount
  · rw [if_pos hle, if_pos hle]
    rfl
  · rw [if_neg hle, if_neg hle]
    by_cases heq : amount = b.size
    · rw [if_pos heq, List.drop_eq_nil_of_le (by rw [length_contents]; omega)]
      rfl
    · rw [if_neg heq]
      have hinside := b.inside
      simp only [size] at hle
      have hlen : ((b.buf_.drop amount).take (b.in_use_ - amount)).length = b.in_use_ - amount := by
        rw [List.length_take, List.length_drop]
        omega
      show Except.ok (List.take (b.in_use_ - amount) _) = Except.ok ((b.buf_.take b.in_use_).drop amount)
      rw [List.take_left' hlen, List.drop_take]

theorem advance_ok {b : StreamBuf} {amount : Nat} (h : amount ≤ b.size) :
    ∃ b', b.advance amount = .ok b' ∧ b'.contents = b.contents.drop amount := by
  have hmap := b.advance_contents amount
  rw [Shitty.advance, if_neg (by rw [length_contents]; omega)] at hmap
  cases hadv : b.advance amount with
  | error e =>
      rw [hadv] at hmap
      cases hmap
  | ok b' =>
      rw [hadv] at hmap
      exact ⟨b', rfl, Except.ok.inj hmap⟩

end StreamBuf

end Shitty
