import Mathlib.Data.List.Basic

/-!
# Computations that return

When a computation with a state does not throw, and when a loop does not whose turns say
whether it goes on; and what holds of the state however a computation ends. Binds,
conditions and loops have their lemmas, in both forms: that nothing is thrown, as an
equivalence with what has to hold in front, and that something is kept at all times.
-/

namespace Lib

variable {ε σ α β : Type}

/-- The computation throws no exception from this state, and so returns something. -/
def Returns (x : EStateM ε σ α) (s : σ) : Prop := ∃ a t, x s = .ok a t

namespace Returns

theorem bind_iff {x : EStateM ε σ α} {f : α → EStateM ε σ β} {s : σ} :
    Returns (x >>= f) s ↔ ∃ a t, x s = .ok a t ∧ Returns (f a) t := by
  unfold Returns
  show (∃ b u, EStateM.bind x f s = .ok b u) ↔ _
  unfold EStateM.bind
  cases x s <;> simp

theorem bind_of_ok {x : EStateM ε σ α} {f : α → EStateM ε σ β} {s t : σ} {a : α}
    (h : x s = .ok a t) : Returns (x >>= f) s ↔ Returns (f a) t := by
  rw [bind_iff]
  constructor
  · rintro ⟨a', t', h', hf⟩
    rw [h] at h'
    cases h'
    exact hf
  · exact fun hf => ⟨a, t, h, hf⟩

theorem get_bind {f : σ → EStateM ε σ β} {s : σ} : Returns (get >>= f) s ↔ Returns (f s) s :=
  Iff.rfl

theorem modify_bind {g : σ → σ} {f : PUnit → EStateM ε σ β} {s : σ} :
    Returns (modify g >>= f) s ↔ Returns (f ⟨⟩) (g s) := Iff.rfl

@[simp] theorem of_pure (a : α) (s : σ) : Returns (pure a : EStateM ε σ α) s := ⟨a, s, rfl⟩

@[simp] theorem of_modify (g : σ → σ) (s : σ) : Returns (modify g : EStateM ε σ PUnit) s :=
  ⟨⟨⟩, g s, rfl⟩

@[simp] theorem not_throw (e : ε) (s : σ) : ¬ Returns (throw e : EStateM ε σ α) s := by
  rintro ⟨a, t, h⟩
  cases h

/-- A computation behind which there is nothing that throws. -/
theorem bind_always {x : EStateM ε σ α} {f : α → EStateM ε σ β} {s : σ}
    (h : ∀ a t, x s = .ok a t → Returns (f a) t) : Returns (x >>= f) s ↔ Returns x s := by
  rw [bind_iff]
  constructor
  · rintro ⟨a, t, hx, -⟩
    exact ⟨a, t, hx⟩
  · rintro ⟨a, t, hx⟩
    exact ⟨a, t, hx, h a t hx⟩

theorem throw_else_iff {p : Prop} [Decidable p] {e : ε} {x : EStateM ε σ α} {s : σ} :
    Returns (if p then throw e else x) s ↔ ¬ p ∧ Returns x s := by
  by_cases hp : p
  · rw [if_pos hp]
    exact iff_of_false (not_throw e s) fun h => h.1 hp
  · rw [if_neg hp]
    exact (and_iff_right hp).symm

theorem return_else_iff {p : Prop} [Decidable p] {a : α} {x : EStateM ε σ α} {s : σ} :
    Returns (if p then pure a else x) s ↔ (¬ p → Returns x s) := by
  by_cases hp : p
  · rw [if_pos hp]
    exact iff_of_true (of_pure a s) fun h => absurd hp h
  · rw [if_neg hp]
    exact ⟨fun h _ => h, fun h => h hp⟩

end Returns

/-- No exception is thrown in any state. -/
def Always (x : EStateM ε σ α) : Prop := ∀ s, Returns x s

theorem Always.bind {x : EStateM ε σ α} {f : α → EStateM ε σ β} (hx : Always x)
    (hf : ∀ a, Always (f a)) : Always (x >>= f) := by
  intro s
  obtain ⟨a, t, h⟩ := hx s
  exact (Returns.bind_of_ok h).mpr (hf a t)

/-! ## What is kept -/

/-- The state behind a computation that returns or throws. -/
def endState : EStateM.Result ε σ α → σ
  | .ok _ t => t
  | .error _ t => t

/-- The property holds afterwards if it did before, whether there is an exception or not. -/
def Keeps (x : EStateM ε σ α) (P : σ → Prop) : Prop := ∀ s, P s → P (endState (x s))

namespace Keeps

variable {P : σ → Prop}

theorem bind {x : EStateM ε σ α} {f : α → EStateM ε σ β} (hx : Keeps x P)
    (hf : ∀ a, Keeps (f a) P) : Keeps (x >>= f) P := by
  intro s hs
  have hfirst := hx s hs
  show P (endState (EStateM.bind x f s))
  unfold EStateM.bind
  cases h : x s with
  | ok a t =>
      rw [h] at hfirst
      exact hf a t hfirst
  | error e t =>
      rw [h] at hfirst
      exact hfirst

theorem get_bind {f : σ → EStateM ε σ β} (hf : ∀ s, Keeps (f s) P) : Keeps (get >>= f) P :=
  fun s hs => hf s s hs

theorem pure (a : α) : Keeps (Pure.pure a : EStateM ε σ α) P := fun _ hs => hs

theorem throw (e : ε) : Keeps (MonadExcept.throw e : EStateM ε σ α) P := fun _ hs => hs

theorem modify {g : σ → σ} (h : ∀ s, P s → P (g s)) : Keeps (modify g : EStateM ε σ PUnit) P := h

theorem ite {p : Prop} [Decidable p] {x y : EStateM ε σ α} (hx : Keeps x P) (hy : Keeps y P) :
    Keeps (if p then x else y) P := by
  split
  · exact hx
  · exact hy

theorem of_ok {x : EStateM ε σ α} {s t : σ} {a : α} (h : Keeps x P) (hs : P s)
    (hx : x s = .ok a t) : P t := by
  have hend := h s hs
  rw [hx] at hend
  exact hend

theorem of_error {x : EStateM ε σ α} {s t : σ} {e : ε} (h : Keeps x P) (hs : P s)
    (hx : x s = .error e t) : P t := by
  have hend := h s hs
  rw [hx] at hend
  exact hend

end Keeps

/-! ## Loops -/

section

variable (turn : EStateM ε σ Bool) (more : σ → Prop) [DecidablePred more]

/-- Turns are taken while they say so and there is more, at most the given number. -/
def loop : Nat → EStateM ε σ Unit
  | 0 => pure ()
  | turns + 1 => do
      let continu ← turn
      if continu ∧ more (← get) then loop turns else return

/-- The states the turns of the loop start from. -/
def visited : Nat → σ → List σ
  | 0, _ => []
  | turns + 1, s =>
      s :: match turn s with
        | .ok true t => if more t then visited turns t else []
        | _ => []

end

variable {turn : EStateM ε σ Bool} {more : σ → Prop} [DecidablePred more]

/-- When nothing follows the first turn, it is the only one that is visited. -/
theorem visited_stop {s : σ} (turns : Nat) (h : ∀ t, turn s = .ok true t → ¬ more t) :
    visited turn more (turns + 1) s = [s] := by
  rw [visited]
  cases hs : turn s with
  | error e t => rfl
  | ok continu t =>
      cases continu with
      | false => rfl
      | true => simp only [if_neg (h t hs)]

theorem visited_again {s t : σ} (turns : Nat) (h : turn s = .ok true t) (hmore : more t) :
    visited turn more (turns + 1) s = s :: visited turn more turns t := by
  rw [visited, h]
  simp only [if_pos hmore]

/-- A loop returns when each of its turns does. -/
theorem loop_returns_iff {Fine : σ → Prop} (hturn : ∀ s, Returns turn s ↔ Fine s) (turns : Nat) :
    ∀ s, Returns (loop turn more turns) s ↔ ∀ t ∈ visited turn more turns s, Fine t := by
  induction turns with
  | zero => exact fun s => iff_of_true (Returns.of_pure () s) fun _ h => by cases h
  | succ turns ih =>
      intro s
      rw [loop, visited, List.forall_mem_cons, ← hturn s]
      cases hs : turn s with
      | error e t =>
          refine iff_of_false ?_ ?_
          · rw [Returns.bind_iff]
            rintro ⟨b, u, hu, -⟩
            rw [hs] at hu
            cases hu
          · rintro ⟨⟨b, u, hu⟩, -⟩
            rw [hs] at hu
            cases hu
      | ok continu t =>
          rw [Returns.bind_of_ok hs, Returns.get_bind]
          have hreturns : Returns turn s := ⟨continu, t, hs⟩
          rw [and_iff_right hreturns]
          cases continu with
          | false => simp
          | true =>
              by_cases hmore : more t
              · simpa [hmore] using ih t
              · simp [hmore]

end Lib
