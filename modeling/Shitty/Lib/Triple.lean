import Shitty.Lib.Returns

/-!
# Conditions before and behind

What holds behind a computation with a state that started where a condition held: one
thing when it returns, another when it throws. The rules are those of such triples:
consequence, binds, conditions and loops. They are used where only the kind of an
exception matters, and the state in which it is thrown.
-/

namespace Lib

variable {ε σ α β : Type}

/-- What holds of a result: one thing of a value and its state, another one of an exception and
its state. -/
def Meets (Q : α → σ → Prop) (E : ε → σ → Prop) : EStateM.Result ε σ α → Prop
  | .ok a t => Q a t
  | .error e t => E e t

/-- From where `P` holds, the computation returns where `Q` holds of what it returns,
or throws where `E` holds of the exception. -/
def Triple (P : σ → Prop) (x : EStateM ε σ α) (Q : α → σ → Prop) (E : ε → σ → Prop) : Prop :=
  ∀ s, P s → Meets Q E (x s)

namespace Triple

variable {P P' : σ → Prop} {Q Q' : α → σ → Prop} {R : β → σ → Prop} {E : ε → σ → Prop}

theorem of_ok {x : EStateM ε σ α} {s t : σ} {a : α} (h : Triple P x Q E) (hs : P s)
    (hx : x s = .ok a t) : Q a t := by
  have hmeets := h s hs
  rw [hx] at hmeets
  exact hmeets

theorem of_error {x : EStateM ε σ α} {s t : σ} {e : ε} (h : Triple P x Q E) (hs : P s)
    (hx : x s = .error e t) : E e t := by
  have hmeets := h s hs
  rw [hx] at hmeets
  exact hmeets

theorem pure {a : α} (h : ∀ s, P s → Q a s) : Triple P (Pure.pure a : EStateM ε σ α) Q E := h

theorem throw {e : ε} (h : ∀ s, P s → E e s) :
    Triple P (MonadExcept.throw e : EStateM ε σ α) Q E := h

theorem modify {g : σ → σ} {Q : PUnit → σ → Prop} (h : ∀ s, P s → Q ⟨⟩ (g s)) :
    Triple P (modify g : EStateM ε σ PUnit) Q E := h

theorem bind {x : EStateM ε σ α} {f : α → EStateM ε σ β} (hx : Triple P x Q E)
    (hf : ∀ a, Triple (Q a) (f a) R E) : Triple P (x >>= f) R E := by
  intro s hs
  show Meets R E (EStateM.bind x f s)
  unfold EStateM.bind
  cases h : x s with
  | ok a t => exact hf a t (hx.of_ok hs h)
  | error e t => exact hx.of_error hs h

/-- What is read of the state can be used behind. -/
theorem get_bind {f : σ → EStateM ε σ β} (hf : ∀ s, P s → Triple (fun t => t = s) (f s) R E) :
    Triple P (get >>= f) R E := fun s hs => hf s hs s rfl

theorem weaken {x : EStateM ε σ α} (h : Triple P x Q E) (hpre : ∀ s, P' s → P s)
    (hpost : ∀ a s, Q a s → Q' a s) : Triple P' x Q' E := by
  intro s hs
  have hmeets := h s (hpre s hs)
  cases hx : x s with
  | ok a t =>
      rw [hx] at hmeets
      exact hpost a t hmeets
  | error e t =>
      rw [hx] at hmeets
      exact hmeets

/-- What does not depend on the state is known beforehand. -/
theorem assume {φ : Prop} {x : EStateM ε σ α} (h : φ → Triple P x Q E) :
    Triple (fun s => φ ∧ P s) x Q E := fun s hs => h hs.1 s hs.2

theorem ite {p : Prop} [Decidable p] {x y : EStateM ε σ α} (hx : p → Triple P x Q E)
    (hy : ¬ p → Triple P y Q E) : Triple P (if p then x else y) Q E := by
  split
  · exact hx ‹_›
  · exact hy ‹_›

/-- A loop whose turns keep an invariant keeps it. -/
theorem loop {turn : EStateM ε σ Bool} {more : σ → Prop} [DecidablePred more] {I : σ → Prop}
    (hturn : Triple I turn (fun _ => I) E) (turns : Nat) :
    Triple I (Lib.loop turn more turns) (fun _ => I) E := by
  induction turns with
  | zero => exact pure fun s hs => hs
  | succ turns ih =>
      refine hturn.bind fun continu => get_bind fun s hs => ?_
      refine weaken (P := I) ?_ (fun t ht => ht ▸ hs) fun _ _ h => h
      exact ite (fun _ => ih) fun _ => pure fun s hs => hs

end Triple

/-! ## Exceptions without a state -/

/-- The exceptions a computation can end with. -/
def Raises (x : Except ε α) (E : ε → Prop) : Prop := ∀ e, x = .error e → E e

namespace Raises

variable {E : ε → Prop}

theorem ok (a : α) : Raises (.ok a : Except ε α) E := fun e h => by cases h

theorem error {e : ε} (h : E e) : Raises (.error e : Except ε α) E := by
  intro e' he
  cases he
  exact h

theorem bind {x : Except ε α} {f : α → Except ε β} (hx : Raises x E) (hf : ∀ a, Raises (f a) E) :
    Raises (x >>= f) E := by
  cases x with
  | error e => exact error (hx e rfl)
  | ok a => exact hf a

theorem ite {p : Prop} [Decidable p] {x y : Except ε α} (hx : Raises x E) (hy : Raises y E) :
    Raises (if p then x else y) E := by
  split
  · exact hx
  · exact hy

end Raises

end Lib
