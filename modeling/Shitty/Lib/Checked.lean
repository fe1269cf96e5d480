import Mathlib.Data.List.Basic

/-!
# Programs whose accesses are checked

A program that may throw, and faults where it would reach outside of what it may. A loop
is given the number of its turns, and faults when they are used up: a measure of the
state that every turn makes smaller bounds them.
-/

namespace Lib

/-- How a program ends without a value. -/
inductive Halt (φ ε : Type) where
  | fault (f : φ)
  | thrown (e : ε)
  deriving DecidableEq, Repr

abbrev Checked (φ ε α : Type) := Except (Halt φ ε) α

namespace Checked

variable {φ ε σ α β : Type}

/-- The access is allowed where the condition holds, and a fault everywhere else. -/
def check (f : φ) (p : Prop) [Decidable p] : Checked φ ε Unit :=
  if p then .ok () else .error (.fault f)

/-- A program that has no accesses to check. -/
def lift (x : Except ε α) : Checked φ ε α := x.mapError .thrown

/-- The program makes no fault, whether it returns or throws. -/
def Safe (x : Checked φ ε α) : Prop := ∀ f, x ≠ .error (.fault f)

/-- There is no fault, and a value is one of these. -/
def Gives (x : Checked φ ε α) (Q : α → Prop) : Prop := Safe x ∧ ∀ a, x = .ok a → Q a

/-! ## Without a fault -/

theorem check_of {f : φ} {p : Prop} [Decidable p] (h : p) :
    (check f p : Checked φ ε Unit) = .ok () := if_pos h

/-- In front of an access that is allowed, the check does nothing. -/
theorem check_bind {f : φ} {p : Prop} [Decidable p] (h : p) (g : Unit → Checked φ ε β) :
    (check f p >>= g) = g () := by
  rw [check_of h]
  rfl

@[simp] theorem lift_ok (a : α) : (lift (.ok a) : Checked φ ε α) = .ok a := rfl

@[simp] theorem lift_error (e : ε) : (lift (.error e) : Checked φ ε α) = .error (.thrown e) := rfl

theorem lift_bind (x : Except ε α) (g : α → Except ε β) :
    (lift (x >>= g) : Checked φ ε β) = lift x >>= fun a => lift (g a) := by
  cases x <;> rfl

@[simp] theorem lift_eq_ok {x : Except ε α} {a : α} :
    (lift x : Checked φ ε α) = .ok a ↔ x = .ok a := by
  cases x <;> simp [lift, Except.mapError]

theorem safe_lift (x : Except ε α) : Safe (lift x : Checked φ ε α) := by
  intro f h
  cases x <;> cases h

theorem gives_lift (x : Except ε α) : Gives (lift x : Checked φ ε α) fun a => x = .ok a :=
  ⟨safe_lift x, fun _ h => lift_eq_ok.mp h⟩

theorem safe_ok (a : α) : Safe (.ok a : Checked φ ε α) := by
  intro f h
  cases h

theorem gives_ok {Q : α → Prop} {a : α} (h : Q a) : Gives (.ok a : Checked φ ε α) Q := by
  refine ⟨safe_ok a, fun b hb => ?_⟩
  cases hb
  exact h

theorem gives_thrown {Q : α → Prop} (e : ε) : Gives (.error (.thrown e) : Checked φ ε α) Q := by
  constructor
  · intro f hf
    cases hf
  · intro b hb
    cases hb

theorem Gives.bind {x : Checked φ ε α} {g : α → Checked φ ε β} {Q : α → Prop} {R : β → Prop}
    (hx : Gives x Q) (hg : ∀ a, Q a → Gives (g a) R) : Gives (x >>= g) R := by
  cases x with
  | error e =>
      cases e with
      | fault f => exact absurd rfl (hx.1 f)
      | thrown e => exact gives_thrown e
  | ok a => exact hg a (hx.2 a rfl)

/-! ## Loops -/

/-- `while (cond) body;` and what comes out of it, for at most the given number of turns. A
turn goes on with another state or leaves the loop with a value. -/
def whileLoop (cond : σ → Bool) (body : σ → Checked φ ε (σ ⊕ β)) (exit : σ → β) (endless : φ) :
    (turns : Nat) → σ → Checked φ ε β
  | 0, s => if cond s then .error (.fault endless) else .ok (exit s)
  | turns + 1, s =>
      if cond s then
        body s >>= Sum.elim (fun s => whileLoop cond body exit endless turns s) .ok
      else .ok (exit s)

variable {cond : σ → Bool} {body : σ → Checked φ ε (σ ⊕ β)} {exit : σ → β} {endless : φ}

/-- An invariant, a measure that gets smaller with every turn, and what is true of the
values. -/
theorem whileLoop_gives (Inv : σ → Prop) (μ : σ → Nat) {Q : β → Prop}
    (hexit : ∀ s, Inv s → cond s = false → Q (exit s))
    (hbody : ∀ s, Inv s → cond s = true →
      0 < μ s ∧ Gives (body s) (Sum.elim (fun s' => Inv s' ∧ μ s' < μ s) Q)) :
    ∀ turns s, Inv s → μ s ≤ turns → Gives (whileLoop cond body exit endless turns s) Q := by
  intro turns
  induction turns with
  | zero =>
      intro s hs hle
      rw [whileLoop]
      cases hcond : cond s with
      | false => exact gives_ok (hexit s hs hcond)
      | true => exact absurd (hbody s hs hcond).1 (by omega)
  | succ turns ih =>
      intro s hs hle
      rw [whileLoop]
      cases hcond : cond s with
      | false => exact gives_ok (hexit s hs hcond)
      | true =>
          refine (hbody s hs hcond).2.bind fun next hnext => ?_
          cases next with
          | inl s' => exact ih s' hnext.1 (by have := hnext.2; omega)
          | inr b => exact gives_ok hnext

/-- A turn, for what the loop is to compute: the same from the next state on, or at once. -/
def TurnOf (Inv : σ → Prop) (μ : σ → Nat) (g : σ → Checked φ ε β) (s : σ) :
    Checked φ ε (σ ⊕ β) → Prop
  | .ok (.inl s') => g s = g s' ∧ Inv s' ∧ μ s' < μ s
  | .ok (.inr b) => g s = .ok b
  | .error e => g s = .error e

theorem whileLoop_eq (Inv : σ → Prop) (μ : σ → Nat) (g : σ → Checked φ ε β)
    (hexit : ∀ s, Inv s → cond s = false → g s = .ok (exit s))
    (hbody : ∀ s, Inv s → cond s = true → 0 < μ s ∧ TurnOf Inv μ g s (body s)) :
    ∀ turns s, Inv s → μ s ≤ turns → whileLoop cond body exit endless turns s = g s := by
  intro turns
  induction turns with
  | zero =>
      intro s hs hle
      rw [whileLoop]
      cases hcond : cond s with
      | false => exact (hexit s hs hcond).symm
      | true => exact absurd (hbody s hs hcond).1 (by omega)
  | succ turns ih =>
      intro s hs hle
      rw [whileLoop]
      cases hcond : cond s with
      | false => exact (hexit s hs hcond).symm
      | true =>
          have hturn := (hbody s hs hcond).2
          rcases hnext : body s with e | s' | b <;> rw [hnext] at hturn
          · exact hturn.symm
          · obtain ⟨hg, hs', hlt⟩ := hturn
            rw [hg]
            exact ih s' hs' (by omega)
          · exact hturn.symm

end Checked

end Lib
