import Mathlib.Data.List.Basic
import Mathlib.Tactic.Ring

/-!
# Octets, memory and exceptions

Octet strings stand for `std::string`, `std::vector<char>` and spans; `Mem` is the
memory a raw pointer gives access to, with no bound of its own, so that a write past the
end of a buffer is visible as a change there. What may be thrown is one type for all of
the program. Computations that throw are taken apart at their binds, by the lemmas that
stand here.
-/

namespace Shitty

abbrev Octet := BitVec 8

abbrev Bytes := List Octet

/-- The octets of an ASCII text. -/
def octets (text : String) : Bytes :=
  text.toList.map fun c => BitVec.ofNat 8 c.toNat

/-- What can leave a function other than by returning: the C++ exceptions the
server throws, a failed `assert`, a call on an object already destroyed, and a
read behind the contents of a buffer. `bad_function_call` is the call of an empty
`std::function`. -/
inductive Exn where
  | runtime_error (what : String)
  | logic_error (what : String)
  | out_of_range (what : String)
  | length_error (what : String)
  | invalid_argument (what : String)
  | ProtocolError (what : String)
  | bad_function_call
  | assertion (expr : String)
  | useAfterDestroy
  | overread
  deriving DecidableEq, Repr

/-! ## Computations that may throw -/

@[simp] theorem ok_bind {ε α β : Type} (a : α) (f : α → Except ε β) :
    ((.ok a : Except ε α) >>= f) = f a := rfl

@[simp] theorem error_bind {ε α β : Type} (e : ε) (f : α → Except ε β) :
    ((.error e : Except ε α) >>= f) = .error e := rfl

theorem bind_eq_ok {ε α β : Type} {x : Except ε α} {f : α → Except ε β} {r : β} :
    (x >>= f) = .ok r ↔ ∃ a, x = .ok a ∧ f a = .ok r := by
  cases x <;> simp [bind, Except.bind]

theorem bind_eq_error {ε α β : Type} {x : Except ε α} {f : α → Except ε β} {e : ε} :
    (x >>= f) = .error e ↔ x = .error e ∨ ∃ a, x = .ok a ∧ f a = .error e := by
  cases x <;> simp [bind, Except.bind]

/-- When a computation with a state and what follows it return: the first of them does, and the
second one from the state it leaves. -/
theorem act_bind_eq_ok {ε σ α β : Type} {x : EStateM ε σ α} {f : α → EStateM ε σ β} {s t : σ}
    {b : β} : (x >>= f) s = .ok b t ↔ ∃ a u, x s = .ok a u ∧ f a u = .ok b t := by
  show EStateM.bind x f s = .ok b t ↔ _
  unfold EStateM.bind
  cases x s <;> simp

theorem act_bind_of_ok {ε σ α β : Type} {x : EStateM ε σ α} {f : α → EStateM ε σ β} {s u : σ} {a : α}
    (h : x s = .ok a u) : (x >>= f) s = f a u := by
  show EStateM.bind x f s = _
  unfold EStateM.bind
  rw [h]

theorem act_bind_of_error {ε σ α β : Type} {x : EStateM ε σ α} {f : α → EStateM ε σ β} {s u : σ}
    {e : ε} (h : x s = .error e u) : (x >>= f) s = .error e u := by
  show EStateM.bind x f s = _
  unfold EStateM.bind
  rw [h]

theorem act_get_bind {ε σ β : Type} (f : σ → EStateM ε σ β) (s : σ) : (get >>= f) s = f s s := rfl

theorem act_modify_bind {ε σ β : Type} (g : σ → σ) (f : PUnit → EStateM ε σ β) (s : σ) :
    (modify g >>= f) s = f ⟨⟩ (g s) := rfl

/-! ## Memory behind a pointer -/

/-- The octets at the addresses from a pointer on. -/
def Mem := Nat → Octet

namespace Mem

/-- `p[i] = b`. -/
def store (m : Mem) (i : Nat) (b : Octet) : Mem := fun j => if j = i then b else m j

/-- Consecutive octets written from offset `off` on. -/
def write (m : Mem) (off : Nat) (bs : Bytes) : Mem :=
  fun j => if h : off ≤ j ∧ j - off < bs.length then bs[j - off] else m j

/-- The `n` octets from offset `off` on. -/
def read (m : Mem) (off n : Nat) : Bytes := (List.range n).map fun i => m (off + i)

@[simp] theorem length_read (m : Mem) (off n : Nat) : (m.read off n).length = n := by
  simp [read]

theorem getElem_read (m : Mem) (off n i : Nat) (h : i < (m.read off n).length) :
    (m.read off n)[i] = m (off + i) := by
  simp [read]

theorem write_inside (m : Mem) (off : Nat) (bs : Bytes) (i : Nat) (h : i < bs.length) :
    m.write off bs (off + i) = bs[i] := by
  simp [write, h]

theorem write_before (m : Mem) {off j : Nat} (bs : Bytes) (h : j < off) :
    m.write off bs j = m j := by
  rw [write, dif_neg (by omega)]

theorem write_after (m : Mem) {off j : Nat} (bs : Bytes) (h : off + bs.length ≤ j) :
    m.write off bs j = m j := by
  rw [write, dif_neg (by omega)]

@[simp] theorem write_nil (m : Mem) (off : Nat) : m.write off [] = m := by
  funext j
  simp [write]

/-- One store in front of a run of stores. -/
theorem write_cons (m : Mem) (off : Nat) (b : Octet) (bs : Bytes) :
    m.write off (b :: bs) = (m.store off b).write (off + 1) bs := by
  funext j
  rcases Nat.lt_trichotomy j off with h | h | h
  · rw [write_before _ _ h, write_before _ _ (by omega), store, if_neg (by omega)]
  · subst h
    rw [write_before (m.store j b) bs (Nat.lt_succ_self j), store, if_pos rfl]
    exact write_inside m j (b :: bs) 0 (by simp)
  · by_cases hj : j - off < (b :: bs).length
    · obtain ⟨i, rfl⟩ : ∃ i, j = off + (i + 1) := ⟨j - off - 1, by omega⟩
      have hi : i < bs.length := by
        simp only [List.length_cons] at hj
        omega
      rw [write_inside m off (b :: bs) (i + 1) (by simpa using hi),
        show off + (i + 1) = off + 1 + i by omega,
        write_inside _ (off + 1) bs i hi, List.getElem_cons_succ]
    · simp only [List.length_cons] at hj
      rw [write_after _ _ (by simp only [List.length_cons]; omega),
        write_after _ _ (by omega), store, if_neg (by omega)]

/-- A run of stores and one store behind it. -/
theorem store_write (m : Mem) (off : Nat) (bs : Bytes) (b : Octet) :
    (m.write off bs).store (off + bs.length) b = m.write off (bs ++ [b]) := by
  induction bs generalizing m off with
  | nil => rw [List.nil_append, write_nil, write_cons, write_nil, List.length_nil, Nat.add_zero]
  | cons c bs ih =>
      rw [List.cons_append, write_cons, write_cons, ← ih, List.length_cons,
        show off + (bs.length + 1) = off + 1 + bs.length by omega]

/-- Reading back what was just written. -/
theorem read_write (m : Mem) (off : Nat) (bs : Bytes) :
    (m.write off bs).read off bs.length = bs := by
  apply List.ext_getElem
  · simp
  · intro i h1 h2
    rw [getElem_read, write_inside m off bs i h2]

/-- Two reads next to each other. -/
theorem read_add (m : Mem) (off n k : Nat) :
    m.read off (n + k) = m.read off n ++ m.read (off + n) k := by
  unfold read
  rw [List.range_add, List.map_append, List.map_map]
  congr 1
  apply List.map_congr_left
  intro i _
  simp [Nat.add_assoc]

/-- A read only sees the octets it covers. -/
theorem read_congr {m m' : Mem} {off n : Nat}
    (h : ∀ j, off ≤ j → j < off + n → m j = m' j) : m.read off n = m'.read off n := by
  apply List.ext_getElem
  · simp
  · intro i h1 h2
    simp only [length_read] at h1
    rw [getElem_read, getElem_read]
    exact h _ (by omega) (by omega)

/-- Octets written right in front of others that are already there. -/
theorem read_write_append {m : Mem} {front back : Bytes}
    (h : m.read front.length back.length = back) :
    (m.write 0 front).read 0 (front.length + back.length) = front ++ back := by
  rw [read_add, read_write, Nat.zero_add]
  congr 1
  rw [← h, length_read]
  apply read_congr
  intro j hj _
  exact write_after m front (by omega)

/-- The first of the octets just written is overwritten. -/
theorem store_write_first (m : Mem) (off : Nat) (b c : Octet) (bs : Bytes) :
    (m.write off (b :: bs)).store off c = m.write off (c :: bs) := by
  funext j
  by_cases hj : j = off
  · subst hj
    rw [store, if_pos rfl]
    exact (write_inside m j (c :: bs) 0 (by simp)).symm
  · rw [store, if_neg hj, write, write]
    by_cases hin : off ≤ j ∧ j - off < (b :: bs).length
    · obtain ⟨k, hk⟩ : ∃ k, j - off = k + 1 := ⟨j - off - 1, by omega⟩
      rw [dif_pos hin, dif_pos (by simpa using hin)]
      simp only [hk, List.getElem_cons_succ]
    · rw [dif_neg hin, dif_neg (by simpa using hin)]

end Mem

end Shitty
