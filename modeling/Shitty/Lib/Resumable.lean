import Mathlib.Data.List.Basic
import Mathlib.Logic.Relation

/-!
# Resumable consumers

A consumer works on the input it has been fed so far and waits for more when
that is not enough. If a step once taken is not changed by what is fed later,
it makes no difference how the input is cut into pieces.
-/

namespace Lib.Resumable

variable {σ α ε : Type*}

/-- What a consumer does with what it has been fed. -/
inductive Verdict (σ ε : Type*) where
  | wait
  | next (s : σ)
  | fail (s : σ) (e : ε)

/-- How input reaches a consumer, and its next step. -/
structure Consumer (σ α ε : Type*) where
  feed : σ → List α → σ
  step : σ → Verdict σ ε
  feed_nil : ∀ s, feed s [] = s
  feed_feed : ∀ s a b, feed (feed s a) b = feed s (a ++ b)
  next_feed : ∀ s s' more, step s = .next s' → step (feed s more) = .next (feed s' more)
  fail_feed : ∀ s s' e more, step s = .fail s' e → step (feed s more) = .fail (feed s' more) e

variable (C : Consumer σ α ε)

/-- Steps are taken until the consumer waits or fails. -/
inductive Drains : σ → σ × Option ε → Prop
  | wait {s} : C.step s = .wait → Drains s (s, none)
  | next {s s' o} : C.step s = .next s' → Drains s' o → Drains s o
  | fail {s s' e} : C.step s = .fail s' e → Drains s (s', some e)

/-- The pieces are fed one after the other, and what is there is drained after
each. At the first failure the others are left behind what is left. -/
inductive Feeds : σ → List (List α) → σ × Option ε → Prop
  | nil {s} : Feeds s [] (s, none)
  | drained {s s' piece pieces o} : Drains C (C.feed s piece) (s', none) → Feeds s' pieces o →
      Feeds s (piece :: pieces) o
  | failed {s s' piece pieces e} : Drains C (C.feed s piece) (s', some e) →
      Feeds s (piece :: pieces) (C.feed s' pieces.flatten, some e)

/-- A state the consumer passes through. -/
abbrev Reaches : σ → σ → Prop := Relation.ReflTransGen fun s s' => C.step s = .next s'

variable {C}

/-- Nothing is drained in two ways. -/
theorem Drains.unique {s : σ} {o o' : σ × Option ε} (h : Drains C s o) (h' : Drains C s o') :
    o = o' := by
  induction h with
  | wait hs =>
      cases h' with
      | wait _ => rfl
      | next hs' _ => rw [hs] at hs'; cases hs'
      | fail hs' => rw [hs] at hs'; cases hs'
  | next hs _ ih =>
      cases h' with
      | wait hs' => rw [hs] at hs'; cases hs'
      | next hs' hd =>
          rw [hs] at hs'
          cases hs'
          exact ih hd
      | fail hs' => rw [hs] at hs'; cases hs'
  | fail hs =>
      cases h' with
      | wait hs' => rw [hs] at hs'; cases hs'
      | next hs' _ => rw [hs] at hs'; cases hs'
      | fail hs' =>
          rw [hs] at hs'
          cases hs'
          rfl

theorem Drains.of_next {s s' : σ} {o : σ × Option ε} (hs : C.step s = .next s')
    (h : Drains C s o) : Drains C s' o := by
  cases h with
  | wait hs' => rw [hs] at hs'; cases hs'
  | next hs' hd =>
      rw [hs] at hs'
      cases hs'
      exact hd
  | fail hs' => rw [hs] at hs'; cases hs'

/-- A consumer that has been drained without an error waits for more input. -/
theorem Drains.waits {s : σ} {o : σ × Option ε} (h : Drains C s o) (ho : o.2 = none) :
    C.step o.1 = .wait := by
  induction h with
  | wait hs => exact hs
  | next _ _ ih => exact ih ho
  | fail _ => cases ho

/-- What comes after a drained consumer is drained as if it had been there from
the first. -/
theorem Drains.feed_drained {s s' : σ} {more : List α} {o : σ × Option ε}
    (h : Drains C s (s', none)) (ho : Drains C (C.feed s' more) o) :
    Drains C (C.feed s more) o := by
  generalize hd : (s', (none : Option ε)) = d at h
  induction h with
  | wait _ =>
      cases hd
      exact ho
  | next hs _ ih => exact .next (C.next_feed _ _ _ hs) (ih hd)
  | fail _ => cases hd

theorem Drains.feed_failed {s s' : σ} {e : ε} (more : List α) (h : Drains C s (s', some e)) :
    Drains C (C.feed s more) (C.feed s' more, some e) := by
  generalize hd : (s', some e) = d at h
  induction h with
  | wait _ => cases hd
  | next hs _ ih => exact .next (C.next_feed _ _ _ hs) (ih hd)
  | fail hs =>
      cases hd
      exact .fail (C.fail_feed _ _ _ _ hs)

/-- However the input is cut, the outcome is that of draining all of it. -/
theorem Feeds.drains {s : σ} {pieces : List (List α)} {o : σ × Option ε}
    (h : Feeds C s pieces o) (hs : C.step s = .wait) : Drains C (C.feed s pieces.flatten) o := by
  induction h with
  | nil =>
      rw [List.flatten_nil, C.feed_nil]
      exact .wait hs
  | drained hd _ ih =>
      rw [List.flatten_cons, ← C.feed_feed]
      exact hd.feed_drained (ih (hd.waits rfl))
  | failed hd =>
      rw [List.flatten_cons, ← C.feed_feed]
      exact hd.feed_failed _

/-- Draining passes through states until it waits in the last one, or fails there. -/
theorem Drains.reaches {s : σ} {o : σ × Option ε} (h : Drains C s o) :
    ∃ t, Reaches C s t ∧ ((o = (t, none) ∧ C.step t = .wait) ∨
      ∃ s' e, o = (s', some e) ∧ C.step t = .fail s' e) := by
  induction h with
  | wait hs => exact ⟨_, .refl, .inl ⟨rfl, hs⟩⟩
  | next hs _ ih =>
      obtain ⟨t, ht, ho⟩ := ih
      exact ⟨t, .head hs ht, ho⟩
  | fail hs => exact ⟨_, .refl, .inr ⟨_, _, rfl, hs⟩⟩

/-- Two consumers that take the same steps drain alike. -/
theorem Drains.congr {D : Consumer σ α ε} {s : σ} {o : σ × Option ε} (h : Drains C s o)
    (hsame : ∀ t, Reaches C s t → D.step t = C.step t) : Drains D s o := by
  induction h with
  | wait hs => exact .wait ((hsame _ .refl).trans hs)
  | next hs _ ih =>
      exact .next ((hsame _ .refl).trans hs) (ih fun t ht => hsame t (.head hs ht))
  | fail hs => exact .fail ((hsame _ .refl).trans hs)

/-- If different steps make different outcomes, two consumers with one outcome pass
through the same states. -/
theorem Drains.together {D : Consumer σ α ε} {s : σ} {o : σ × Option ε} (h : Drains C s o)
    (h' : Drains D s o)
    (hdiff : ∀ t, Reaches C s t → Drains C t o → Drains D t o → D.step t = C.step t) :
    ∀ t, Reaches C s t → Drains C t o ∧ Drains D t o := by
  intro t ht
  induction ht with
  | refl => exact ⟨h, h'⟩
  | tail hreached hstep ih =>
      obtain ⟨hC, hD⟩ := ih
      exact ⟨hC.of_next hstep, hD.of_next ((hdiff _ hreached hC hD).trans hstep)⟩

/-- What is passed through on the way makes no difference to the outcome. -/
theorem Drains.iff_of_reaches {s t : σ} {o : σ × Option ε} (h : Reaches C s t) :
    Drains C s o ↔ Drains C t o := by
  induction h with
  | refl => exact Iff.rfl
  | tail _ hstep ih => exact ih.trans ⟨fun h => h.of_next hstep, fun h => .next hstep h⟩

/-! ## Consumers that count -/

/-- The same verdict about a state with a number beside it. -/
def Verdict.beside (received : Nat) : Verdict σ ε → Verdict (σ × Nat) ε
  | .wait => .wait
  | .next s => .next (s, received)
  | .fail s e => .fail (s, received) e

/-- A verdict that more input does not change, about the state with and without it. -/
def Settled (feed : σ → List α → σ) (more : List α) : Verdict σ ε → Verdict σ ε → Prop
  | .wait, _ => True
  | .next s, v => v = .next (feed s more)
  | .fail s e, v => v = .fail (feed s more) e

/-- A consumer whose steps may depend on how much it has been fed. -/
structure Counting (σ α ε : Type*) where
  feed : σ → List α → σ
  step : σ → Nat → Verdict σ ε
  feed_nil : ∀ s, feed s [] = s
  feed_feed : ∀ s a b, feed (feed s a) b = feed s (a ++ b)
  settled : ∀ s received more,
    Settled feed more (step s received) (step (feed s more) (received + more.length))

namespace Counting

/-- The count is part of the state. -/
def consumer (C : Counting σ α ε) : Consumer (σ × Nat) α ε where
  feed x more := (C.feed x.1 more, x.2 + more.length)
  step x := (C.step x.1 x.2).beside x.2
  feed_nil x := by rw [C.feed_nil, List.length_nil, Nat.add_zero]
  feed_feed x a b := by rw [C.feed_feed, List.length_append, Nat.add_assoc]
  next_feed x x' more h := by
    have hsettled := C.settled x.1 x.2 more
    cases hstep : C.step x.1 x.2 with
    | next s =>
        rw [hstep] at hsettled h
        cases h
        rw [show C.step (C.feed x.1 more) (x.2 + more.length) = _ from hsettled]
        rfl
    | wait => rw [hstep] at h; cases h
    | fail s e => rw [hstep] at h; cases h
  fail_feed x x' e more h := by
    have hsettled := C.settled x.1 x.2 more
    cases hstep : C.step x.1 x.2 with
    | fail s e =>
        rw [hstep] at hsettled h
        cases h
        rw [show C.step (C.feed x.1 more) (x.2 + more.length) = _ from hsettled]
        rfl
    | wait => rw [hstep] at h; cases h
    | next s => rw [hstep] at h; cases h

variable {C : Counting σ α ε} {x y : σ × Nat} {e : ε}

theorem wait_iff : C.consumer.step x = .wait ↔ C.step x.1 x.2 = .wait := by
  show (C.step x.1 x.2).beside x.2 = _ ↔ _
  cases C.step x.1 x.2 <;> simp [Verdict.beside]

theorem next_iff : C.consumer.step x = .next y ↔ C.step x.1 x.2 = .next y.1 ∧ x.2 = y.2 := by
  show (C.step x.1 x.2).beside x.2 = _ ↔ _
  cases C.step x.1 x.2 <;> simp [Verdict.beside, Prod.ext_iff]

theorem fail_iff :
    C.consumer.step x = .fail y e ↔ C.step x.1 x.2 = .fail y.1 e ∧ x.2 = y.2 := by
  show (C.step x.1 x.2).beside x.2 = _ ↔ _
  cases C.step x.1 x.2 <;> simp [Verdict.beside, Prod.ext_iff, and_right_comm]

end Counting

/-! ## Where the pieces end -/

/-- How much has been fed after each piece. -/
def ends (start : Nat) : List (List α) → List Nat
  | [] => []
  | piece :: pieces => (start + piece.length) :: ends (start + piece.length) pieces

theorem ends_append (start : Nat) (front pieces : List (List α)) :
    ends start (front ++ pieces) =
      ends start front ++ ends (start + front.flatten.length) pieces := by
  induction front generalizing start with
  | nil => rfl
  | cons piece front ih =>
      rw [List.cons_append, ends, ih, ends, List.cons_append, List.flatten_cons, List.length_append,
        Nat.add_assoc]

theorem le_of_mem_ends {start c : Nat} {pieces : List (List α)} (h : c ∈ ends start pieces) :
    c ≤ start + pieces.flatten.length := by
  induction pieces generalizing start with
  | nil => cases h
  | cons piece pieces ih =>
      rw [List.flatten_cons, List.length_append]
      rcases List.mem_cons.mp h with rfl | h
      · omega
      · have := ih h
        omega

/-- Pieces that are not empty end one behind the other. -/
theorem lt_of_mem_ends {start c : Nat} {pieces : List (List α)}
    (hne : ∀ piece ∈ pieces, piece ≠ []) (h : c ∈ ends start pieces) : start < c := by
  induction pieces generalizing start with
  | nil => cases h
  | cons piece pieces ih =>
      have hpos := List.length_pos_iff.mpr (hne piece List.mem_cons_self)
      rcases List.mem_cons.mp h with rfl | h
      · omega
      · have := ih (fun q hq => hne q (List.mem_cons_of_mem _ hq)) h
        omega

theorem ends_pairwise {pieces : List (List α)} (start : Nat)
    (hne : ∀ piece ∈ pieces, piece ≠ []) : (ends start pieces).Pairwise (· < ·) := by
  induction pieces generalizing start with
  | nil => exact .nil
  | cons piece pieces ih =>
      have hne' : ∀ q ∈ pieces, q ≠ [] := fun q hq => hne q (List.mem_cons_of_mem _ hq)
      exact .cons (fun c hc => lt_of_mem_ends hne' hc) (ih _ hne')

end Lib.Resumable
