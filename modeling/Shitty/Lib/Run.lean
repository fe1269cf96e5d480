import Mathlib.Data.List.Induction
import Mathlib.Data.List.Infix

/-!
# Runs of a step function

Histories of inputs, the state a partial step function reaches on them, and how facts
about one step carry over to every state of a run. Runs can be cut at any point and put
together there. An invariant is proved for the step alone, and what always holds along a
run is told by its steps.
-/

namespace Lib.Run

variable {σ ε ι : Type*}

/-- The state reached from `s`, unless a step fails. -/
def run (step : σ → ι → Except ε σ) (s : σ) (es : List ι) : Except ε σ := es.foldlM step s

/-- All inputs are as they should be, or there is a first one that is not. -/
theorem all_or_first (P : ι → Prop) (es : List ι) :
    (∀ e ∈ es, P e) ∨ ∃ p e rest, es = p ++ e :: rest ∧ (∀ e' ∈ p, P e') ∧ ¬ P e := by
  induction es with
  | nil => exact .inl nofun
  | cons e es ih =>
      by_cases he : P e
      · rcases ih with hall | ⟨p, e', rest, rfl, hp, he'⟩
        · exact .inl (List.forall_mem_cons.mpr ⟨he, hall⟩)
        · exact .inr ⟨e :: p, e', rest, rfl, List.forall_mem_cons.mpr ⟨he, hp⟩, he'⟩
      · exact .inr ⟨[], e, es, rfl, nofun, he⟩

variable {step : σ → ι → Except ε σ} {s : σ}

@[simp] theorem run_nil : run step s [] = .ok s := rfl

theorem run_cons (e : ι) (es : List ι) :
    run step s (e :: es) = step s e >>= fun s' => run step s' es := rfl

theorem run_append (p es : List ι) :
    run step s (p ++ es) = run step s p >>= fun s' => run step s' es := by
  unfold run
  rw [List.foldlM_append]

theorem run_snoc (p : List ι) (e : ι) :
    run step s (p ++ [e]) = run step s p >>= fun s' => step s' e := by
  rw [run_append]
  cases run step s p with
  | error err => rfl
  | ok s' =>
      show (step s' e >>= fun s'' => .ok s'') = step s' e
      cases step s' e <;> rfl

/-- A run of one more step has a run in front of it. -/
theorem run_snoc_ok {p : List ι} {e : ι} {s' : σ} (h : run step s (p ++ [e]) = .ok s') :
    ∃ s₁, run step s p = .ok s₁ ∧ step s₁ e = .ok s' := by
  rw [run_snoc] at h
  cases hp : run step s p with
  | error err =>
      rw [hp] at h
      cases h
  | ok s₁ =>
      rw [hp] at h
      exact ⟨s₁, rfl, h⟩

theorem run_snoc_of_ok {p : List ι} {e : ι} {s₁ s' : σ} (hp : run step s p = .ok s₁)
    (he : step s₁ e = .ok s') : run step s (p ++ [e]) = .ok s' := by
  rw [run_snoc, hp]
  exact he

/-- A run that fails does so at some step, behind a run that does not. -/
theorem run_error {es : List ι} {err : ε} (h : run step s es = .error err) :
    ∃ p e rest s₁, es = p ++ e :: rest ∧ run step s p = .ok s₁ ∧ step s₁ e = .error err := by
  induction es generalizing s with
  | nil => cases h
  | cons e es ih =>
      rw [run_cons] at h
      cases he : step s e with
      | error err' =>
          rw [he] at h
          cases h
          exact ⟨[], e, es, s, rfl, rfl, he⟩
      | ok s₁ =>
          rw [he] at h
          obtain ⟨p, e', rest, s₂, rfl, hp, he'⟩ := ih h
          refine ⟨e :: p, e', rest, s₂, rfl, ?_, he'⟩
          rw [run_cons, he]
          exact hp

/-- What every step preserves holds in every state reached. -/
theorem invariant {P : σ → Prop} (h0 : P s)
    (hstep : ∀ s e s', P s → step s e = .ok s' → P s') (es : List ι) :
    ∀ s', run step s es = .ok s' → P s' := by
  induction es using List.reverseRecOn with
  | nil =>
      intro s' h
      cases h
      exact h0
  | append_singleton p e ih =>
      intro s' h
      obtain ⟨s₁, hp, he⟩ := run_snoc_ok h
      exact hstep s₁ e s' (ih s₁ hp) he

/-- What every step of some kind preserves holds in every state reached by such steps. -/
theorem invariant_of {P : σ → Prop} {Q : ι → Prop} (h0 : P s)
    (hstep : ∀ s e s', Q e → P s → step s e = .ok s' → P s') (es : List ι) (hes : ∀ e ∈ es, Q e) :
    ∀ s', run step s es = .ok s' → P s' := by
  induction es using List.reverseRecOn with
  | nil =>
      intro s' h
      cases h
      exact h0
  | append_singleton p e ih =>
      intro s' h
      obtain ⟨s₁, hp, he⟩ := run_snoc_ok h
      rw [List.forall_mem_append, List.forall_mem_singleton] at hes
      exact hstep s₁ e s' hes.2 (ih hes.1 s₁ hp) he

/-- A property of histories holds all along exactly when each step is right, if
that is so for each step after which it has held so far. -/
theorem always_iff {Q : List ι → Prop} {Right : List ι → ι → Prop} {es : List ι} (h0 : Q [])
    (hstep : ∀ p e, p ++ [e] <+: es → (∀ q, q <+: p → Q q) → (Q (p ++ [e]) ↔ Right p e)) :
    (∀ p, p <+: es → Q p) ↔ ∀ p e, p ++ [e] <+: es → Right p e := by
  constructor
  · intro hall p e hp
    have hpre := (List.prefix_append p [e]).trans hp
    exact (hstep p e hp fun q hq => hall q (hq.trans hpre)).mp (hall _ hp)
  · intro hright
    -- from a history to one that is a step longer
    have hlonger : ∀ p, p <+: es → ∀ q, q <+: p → Q q := by
      intro p
      induction p using List.reverseRecOn with
      | nil =>
          intro _ q hq
          rw [List.prefix_nil.mp hq]
          exact h0
      | append_singleton p e ih =>
          intro hp q hq
          have hbefore := ih ((List.prefix_append p [e]).trans hp)
          rcases List.prefix_concat_iff.mp hq with rfl | hq
          · exact (hstep p e hp hbefore).mpr (hright p e hp)
          · exact hbefore q hq
    exact fun p hp => hlonger es List.prefix_rfl p hp

end Lib.Run
