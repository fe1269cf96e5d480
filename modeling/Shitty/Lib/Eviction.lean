import Mathlib.Data.List.Basic
import Mathlib.Tactic.Ring

/-!
# Tables that evict

Lists of weighted entries, newest first, whose total weight is kept under a limit by
dropping the oldest entries, no more of them than needed. The table carries the bound as
a field. What is kept is characterised by what it is: as many of the newest entries as
fit together, and so it does not matter in which order others are dropped.
-/

namespace Lib.Eviction

variable {α : Type*} (weight : α → Nat)

/-- The weight of all entries together, by which the table is limited. -/
def total (l : List α) : Nat := (l.map weight).sum

@[simp] theorem total_nil : total weight [] = 0 := rfl

@[simp] theorem total_cons (a : α) (l : List α) :
    total weight (a :: l) = weight a + total weight l := rfl

@[simp] theorem total_append (l m : List α) :
    total weight (l ++ m) = total weight l + total weight m := by
  simp [total]

theorem total_prefix_le {l m : List α} (h : l <+: m) : total weight l ≤ total weight m := by
  obtain ⟨t, rfl⟩ := h
  rw [total_append]
  omega

theorem weight_le_total {a : α} {l : List α} (h : a ∈ l) : weight a ≤ total weight l := by
  obtain ⟨front, back, rfl⟩ := List.append_of_mem h
  rw [total_append, total_cons]
  omega

theorem length_le_total {c : Nat} (h : ∀ a, c ≤ weight a) (l : List α) :
    l.length * c ≤ total weight l := by
  induction l with
  | nil => simp
  | cons a l ih =>
      have := h a
      rw [List.length_cons, total_cons, Nat.add_mul]
      omega

theorem front_dropLast {p l : List α} (h : p <+: l) (hne : p ≠ l) : p <+: l.dropLast := by
  rw [List.dropLast_eq_take]
  refine List.prefix_take_iff.mpr ⟨h, ?_⟩
  have hlt : p.length < l.length := by
    rcases Nat.lt_or_eq_of_le h.length_le with hlt | heq
    · exact hlt
    · exact absurd (h.eq_of_length heq) hne
  omega

/-- The newest entries that fit under the limit together. -/
def keep : (limit : Nat) → List α → List α
  | _, [] => []
  | limit, a :: l => if weight a ≤ limit then a :: keep (limit - weight a) l else []

theorem keep_front {limit : Nat} {l : List α} : keep weight limit l <+: l := by
  induction l generalizing limit with
  | nil => exact List.prefix_rfl
  | cons a l ih =>
      rw [keep]
      split
      · exact (List.prefix_cons_inj a).mpr ih
      · exact List.nil_prefix

theorem total_keep_le (limit : Nat) (l : List α) : total weight (keep weight limit l) ≤ limit := by
  induction l generalizing limit with
  | nil => simp [keep]
  | cons a l ih =>
      rw [keep]
      split
      · have := ih (limit - weight a)
        rw [total_cons]
        omega
      · simp

/-- No more entries are dropped than needed. -/
theorem front_keep {limit : Nat} {l m : List α} (h : m <+: l) (ht : total weight m ≤ limit) :
    m <+: keep weight limit l := by
  induction l generalizing limit m with
  | nil =>
      rw [List.prefix_nil.mp h]
      exact List.nil_prefix
  | cons a l ih =>
      cases m with
      | nil => exact List.nil_prefix
      | cons b m =>
          obtain ⟨rfl, hm⟩ := List.cons_prefix_cons.mp h
          rw [total_cons] at ht
          rw [keep, if_pos (by omega)]
          exact (List.prefix_cons_inj _).mpr (ih hm (by omega))

/-- A list that fits is kept whole. -/
theorem keep_of_total_le {limit : Nat} {l : List α} (h : total weight l ≤ limit) :
    keep weight limit l = l :=
  (keep_front weight).eq_of_length_le (front_keep weight List.prefix_rfl h).length_le

/-- What is kept is the only prefix that fits and that no longer one outdoes. -/
theorem eq_keep {limit : Nat} {l m : List α} (h : m <+: l) (ht : total weight m ≤ limit)
    (hmax : ∀ p, p <+: l → total weight p ≤ limit → p.length ≤ m.length) :
    m = keep weight limit l :=
  (front_keep weight h ht).eq_of_length_le
    (hmax _ (keep_front weight) (total_keep_le weight limit l))

/-- Dropping the oldest entry of a list that does not fit changes nothing. -/
theorem keep_dropLast {limit : Nat} {l : List α} (h : limit < total weight l) :
    keep weight limit l.dropLast = keep weight limit l := by
  refine eq_keep weight ((keep_front weight).trans (List.dropLast_prefix l))
    (total_keep_le weight limit _) ?_
  intro p hp ht
  have hne : p ≠ l := by
    rintro rfl
    omega
  exact (front_keep weight (front_dropLast hp hne) ht).length_le

/-- Two limits keep the same entries exactly when no prefix fits under one of
them only. -/
theorem keep_eq_iff {small large : Nat} (hle : small ≤ large) (l : List α) :
    keep weight large l = keep weight small l ↔
      ∀ m, m <+: l → total weight m ≤ large → total weight m ≤ small := by
  constructor
  · intro h m hm ht
    have hpre := front_keep weight hm ht
    rw [h] at hpre
    exact Nat.le_trans (total_prefix_le weight hpre) (total_keep_le weight small l)
  · intro h
    refine eq_keep weight (keep_front weight) ?_ ?_
    · exact h _ (keep_front weight) (total_keep_le weight large l)
    · intro p hp ht
      exact (front_keep weight hp (Nat.le_trans ht hle)).length_le

/-- Eviction only looks at the weights. -/
theorem map_keep {β : Type*} {weight' : β → Nat} {f : α → β} (h : ∀ a, weight' (f a) = weight a)
    (limit : Nat) (l : List α) : (keep weight limit l).map f = keep weight' limit (l.map f) := by
  induction l generalizing limit with
  | nil => rfl
  | cons a l ih =>
      rw [keep, List.map_cons, keep, h]
      split
      · rw [List.map_cons, ih]
      · rfl

/-! ## The table -/

/-- A table that never holds more than its limit. -/
structure Table where
  limit : Nat
  entries : List α
  fits : total weight entries ≤ limit

namespace Table

variable {weight}

/-- The newest entry goes in front; what does not fit beside it is evicted, and
an entry that does not fit at all leaves the table empty. -/
def insert (t : Table weight) (a : α) : Table weight where
  limit := t.limit
  entries := if weight a ≤ t.limit then a :: keep weight (t.limit - weight a) t.entries else []
  fits := by
    split
    · have := total_keep_le weight (t.limit - weight a) t.entries
      rw [total_cons]
      omega
    · simp

/-- The table with a new limit, from which the oldest entries are dropped until it fits. -/
def resize (t : Table weight) (limit : Nat) : Table weight where
  limit := limit
  entries := keep weight limit t.entries
  fits := total_keep_le weight limit t.entries

@[simp] theorem insert_limit (t : Table weight) (a : α) : (t.insert a).limit = t.limit := rfl

@[simp] theorem resize_limit (t : Table weight) (limit : Nat) :
    (t.resize limit).limit = limit := rfl

end Table

end Lib.Eviction
