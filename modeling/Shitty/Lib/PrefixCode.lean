import Shitty.Lib.Bits

/-!
# Prefix codes

Codes no word of which begins another, the coding of a string of symbols, and what a
decoder may conclude from the front of a bit stream. What a stream shows at an offset is
a string of symbols. Two strings that are shown at the same offset can be compared: one
of them begins the other.
-/

namespace Lib

open Bits

/-- Code words for the symbols of `α`, none of which begins another. -/
structure PrefixCode (α : Type*) where
  code : α → List Bool
  prefixFree : ∀ a b, code a <+: code b → a = b

namespace PrefixCode

variable {α : Type*} (C : PrefixCode α)

/-- The coding of a string of symbols. -/
def encode (l : List α) : List Bool := l.flatMap C.code

@[simp] theorem encode_nil : C.encode [] = [] := rfl

@[simp] theorem encode_cons (a : α) (l : List α) :
    C.encode (a :: l) = C.code a ++ C.encode l := rfl

@[simp] theorem encode_append (l m : List α) :
    C.encode (l ++ m) = C.encode l ++ C.encode m := by
  simp [encode]

/-- The stream `s` shows the code word of `a` at offset `o`. -/
def ShowsAt (s : Nat → Bool) (o : Nat) (a : α) : Prop :=
  slice s o (C.code a).length = C.code a

/-- At most one symbol is shown at an offset. -/
theorem ShowsAt.unique {s : Nat → Bool} {o : Nat} {a b : α} (ha : C.ShowsAt s o a)
    (hb : C.ShowsAt s o b) : a = b := by
  unfold ShowsAt at ha hb
  rcases Nat.le_total (C.code a).length (C.code b).length with h | h
  · apply C.prefixFree
    rw [← ha, ← hb, ← take_slice s o h]
    exact List.take_prefix _ _
  · apply Eq.symm
    apply C.prefixFree
    rw [← ha, ← hb, ← take_slice s o h]
    exact List.take_prefix _ _

/-- The next symbol of a coded string is shown where the coding so far ends,
whatever is appended to the coding. -/
theorem showsAt_encode (l : List α) (a : α) (m : List α) (rest : List Bool) :
    C.ShowsAt (extend (C.encode (l ++ a :: m) ++ rest)) (C.encode l).length a := by
  unfold ShowsAt
  have hsplit : C.encode (l ++ a :: m) ++ rest =
      C.encode l ++ C.code a ++ (C.encode m ++ rest) := by
    simp
  rw [hsplit]
  exact slice_extend_inside _ _ _

/-! ## Symbols one behind the other -/

/-- From offset `o` on, `s` shows the code words of the string one behind the
other, and each of them starts in front of `bound`. -/
def Shows (s : Nat → Bool) (bound : Nat) : Nat → List α → Prop
  | _, [] => True
  | o, a :: l => o < bound ∧ C.ShowsAt s o a ∧ Shows s bound (o + (C.code a).length) l

variable {s : Nat → Bool} {bound : Nat}

/-- Two strings shown at one offset: one begins the other. -/
theorem Shows.comparable {l : List α} :
    ∀ {m : List α} {o : Nat}, C.Shows s bound o l → C.Shows s bound o m →
      l <+: m ∨ m <+: l := by
  induction l with
  | nil =>
      intro m o _ _
      exact Or.inl (List.nil_prefix)
  | cons a l ih =>
      intro m o hl hm
      cases m with
      | nil => exact Or.inr List.nil_prefix
      | cons b m =>
          obtain rfl := hl.2.1.unique C hm.2.1
          rcases ih hl.2.2 hm.2.2 with h | h
          · exact Or.inl ((List.prefix_cons_inj a).mpr h)
          · exact Or.inr ((List.prefix_cons_inj a).mpr h)

/-- What is shown behind the front part of a string. -/
theorem Shows.drop_front {l m : List α} :
    ∀ {o : Nat}, C.Shows s bound o (l ++ m) → C.Shows s bound (o + (C.encode l).length) m := by
  induction l with
  | nil =>
      intro o h
      simpa using h
  | cons a l ih =>
      intro o h
      have := ih h.2.2
      rwa [Nat.add_assoc, ← List.length_append, ← encode_cons] at this

/-- Where each symbol of a string is shown. -/
theorem Shows.at {l : List α} {o : Nat} (h : C.Shows s bound o l) {j : Nat} (hj : j < l.length) :
    o + (C.encode (l.take j)).length < bound ∧
      C.ShowsAt s (o + (C.encode (l.take j)).length) l[j] := by
  have hsplit : l.take j ++ l[j] :: l.drop (j + 1) = l := by
    rw [← List.drop_eq_getElem_cons hj, List.take_append_drop]
  have hshows := Shows.drop_front (l := l.take j) (m := l[j] :: l.drop (j + 1)) C (by rwa [hsplit])
  exact ⟨hshows.1, hshows.2.1⟩

/-- The bits from the offset on are those of the coding. -/
theorem Shows.slice_encode {l : List α} :
    ∀ {o : Nat}, C.Shows s bound o l → slice s o (C.encode l).length = C.encode l := by
  induction l with
  | nil =>
      intro o _
      rfl
  | cons a l ih =>
      intro o h
      rw [encode_cons, List.length_append, slice_add, ih h.2.2]
      exact congrArg (· ++ C.encode l) h.2.1

/-- Another stream with the same bits at some place shows the string there as well. -/
theorem Shows.of_slice {s' : Nat → Bool} {bound' : Nat} (hbound : bound ≤ bound') {l : List α} :
    ∀ {o : Nat}, C.Shows s bound o l → slice s' o (C.encode l).length = C.encode l →
      C.Shows s' bound' o l := by
  induction l with
  | nil =>
      intro o _ _
      trivial
  | cons a l ih =>
      intro o h hslice
      rw [encode_cons, List.length_append, slice_add] at hslice
      obtain ⟨hfirst, hrest⟩ := List.append_inj hslice (by simp)
      exact ⟨Nat.lt_of_lt_of_le h.1 hbound, hfirst, ih h.2.2 hrest⟩

/-- A coded string, whatever is appended to it. -/
theorem shows_encode (bound : Nat) (hpos : ∀ a, 0 < (C.code a).length) (m : List α)
    (rest : List Bool) :
    ∀ l : List α, (C.encode (l ++ m)).length ≤ bound →
      C.Shows (extend (C.encode (l ++ m) ++ rest)) bound (C.encode l).length m := by
  induction m with
  | nil =>
      intro l _
      trivial
  | cons a m ih =>
      intro l hbound
      have hsplit : l ++ a :: m = (l ++ [a]) ++ m := by simp
      refine ⟨?_, C.showsAt_encode l a m rest, ?_⟩
      · have := hpos a
        rw [encode_append, encode_cons, List.length_append, List.length_append] at hbound
        omega
      · have hlen : (C.encode l).length + (C.code a).length = (C.encode (l ++ [a])).length := by
          simp
        rw [hlen, hsplit]
        exact ih (l ++ [a]) (by rwa [← hsplit])

end PrefixCode

end Lib
