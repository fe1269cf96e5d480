import Shitty.Core.StringUtils

/-!
# What is trimmed off

`trimLWS` is to leave what is between the white space at the two ends of a string. With
white space at its back, the last octet in front of that goes as well. The string in
between is said to be without white space at its ends, and the only one of that kind.
The function is right on exactly those strings that have none at their back, or nothing
else.
-/

namespace Shitty

/-- `t` is `s` from its first octet that is no white space to its last. -/
structure IsTrimmed (s t : Bytes) : Prop where
  substring : ∃ w w', s = w ++ t ++ w' ∧ (∀ c ∈ w, isLWS c = true) ∧ ∀ c ∈ w', isLWS c = true
  front : ∀ c, t.head? = some c → isLWS c = false
  back : ∀ c, t.getLast? = some c → isLWS c = false

/-- Trimming of a string as it is meant. -/
structure Trims (s : Bytes) : Prop where
  trimmed : IsTrimmed s (trimLWS s)
  idempotent : trimLWS (trimLWS s) = trimLWS s
  commute : trimTrailingLWS (trimLeadingLWS s) = trimLeadingLWS (trimTrailingLWS s)

/-- White space only, or none at the back. -/
def BackClean (s : Bytes) : Prop :=
  (∀ c ∈ s, isLWS c = true) ∨ ∀ c, s.getLast? = some c → isLWS c = false

/-! ## The two ends -/

theorem trimLeadingLWS_eq (s : Bytes) : trimLeadingLWS s = s.dropWhile isLWS :=
  calc s.drop (s.takeWhile isLWS).length
      = (s.takeWhile isLWS ++ s.dropWhile isLWS).drop (s.takeWhile isLWS).length := by
        rw [List.takeWhile_append_dropWhile]
    _ = s.dropWhile isLWS := List.drop_left

/-- A string is white, or it has a last octet that is not. -/
theorem white_or_last (s : Bytes) :
    (∀ c ∈ s, isLWS c = true) ∨
      ∃ front c w, s = front ++ c :: w ∧ isLWS c = false ∧ ∀ c ∈ w, isLWS c = true := by
  induction s with
  | nil => exact .inl (by simp)
  | cons d s ih =>
      rcases ih with hwhite | ⟨front, c, w, rfl, hc, hw⟩
      · cases hd : isLWS d with
        | true => exact .inl (List.forall_mem_cons.mpr ⟨hd, hwhite⟩)
        | false => exact .inr ⟨[], d, s, rfl, hd, hwhite⟩
      · exact .inr ⟨d :: front, c, w, rfl, hc, hw⟩

/-- The white space in front of an octet goes, and nothing behind it. -/
theorem trimLeadingLWS_front (front : Bytes) {c : Octet} (w : Bytes) (hc : isLWS c = false) :
    trimLeadingLWS (front ++ c :: w) = trimLeadingLWS front ++ c :: w := by
  have hrest : (c :: w).dropWhile isLWS = c :: w := by simp [hc]
  rw [trimLeadingLWS_eq, trimLeadingLWS_eq, List.dropWhile_append, hrest]
  cases front.dropWhile isLWS <;> rfl

theorem trimTrailingLWS_trimLeadingLWS (s : Bytes) :
    trimTrailingLWS (trimLeadingLWS s) = trimLeadingLWS (trimTrailingLWS s) := by
  rcases white_or_last s with hwhite | ⟨front, c, w, rfl, hc, hw⟩
  · have hleading : trimLeadingLWS s = [] := by
      rw [trimLeadingLWS_eq]
      exact List.dropWhile_eq_nil_iff.mpr hwhite
    rw [hleading]
    exact (trimLWS_white hwhite).symm
  · rw [trimLeadingLWS_front front w hc, trimTrailingLWS_append _ hc hw,
      trimTrailingLWS_append _ hc hw]
    by_cases hne : w = []
    · rw [if_pos hne, trimLeadingLWS_front front [] hc]
    · rw [if_neg hne, List.append_nil, List.append_nil]

/-- Nothing is trimmed off what is trimmed. -/
theorem IsTrimmed.trimLWS_eq {s t : Bytes} (h : IsTrimmed s t) : trimLWS t = t := by
  have htrailing : trimTrailingLWS t = t := by
    rcases List.eq_nil_or_concat t with rfl | ⟨front, c, rfl⟩
    · rfl
    · have hc := h.back c
      rw [List.concat_eq_append] at hc ⊢
      exact trimTrailingLWS_of_back (hc List.getLast?_concat)
  rw [trimLWS, htrailing, trimLeadingLWS_of_front h.front]

/-! ## With a clean back, and without -/

theorem isTrimmed_white {s : Bytes} (hwhite : ∀ c ∈ s, isLWS c = true) :
    IsTrimmed s (trimLWS s) := by
  rw [trimLWS_white hwhite]
  exact ⟨⟨s, [], by simp, hwhite, by simp⟩, by simp, by simp⟩

theorem isTrimmed_concat (front : Bytes) {c : Octet} (hc : isLWS c = false) :
    IsTrimmed (front ++ [c]) (trimLWS (front ++ [c])) := by
  rw [trimLWS, trimTrailingLWS_of_back hc]
  refine ⟨⟨(front ++ [c]).takeWhile isLWS, [], ?_, ?_, by simp⟩, ?_, ?_⟩
  · rw [trimLeadingLWS_eq, List.takeWhile_append_dropWhile, List.append_nil]
  · exact fun d hd => List.mem_takeWhile_imp hd
  · intro d hd
    rw [trimLeadingLWS_eq] at hd
    have := List.head?_dropWhile_not isLWS (front ++ [c])
    rw [hd] at this
    simpa using this
  · intro d hd
    rw [trimLeadingLWS_front front [] hc, List.getLast?_concat] at hd
    cases hd
    exact hc

/-- With the octets counted that are no white space, too few are left. -/
theorem not_isTrimmed_cut (front : Bytes) {c : Octet} {w : Bytes} (hc : isLWS c = false)
    (hw : ∀ c ∈ w, isLWS c = true) (hne : w ≠ []) :
    ¬ IsTrimmed (front ++ c :: w) (trimLWS (front ++ c :: w)) := by
  intro h
  have hcount : ∀ w : Bytes, (∀ c ∈ w, isLWS c = true) → w.countP (fun c => !isLWS c) = 0 := by
    intro w hw
    rw [List.countP_eq_zero]
    intro c hmem
    simp [hw c hmem]
  rw [trimLWS, trimTrailingLWS_cut front hc hw hne] at h
  obtain ⟨u, u', heq, hu, hu'⟩ := h.substring
  -- `c` counts in the string, and is not in what is left
  have hcounts := congrArg (List.countP fun c => !isLWS c) heq
  have hle : (trimLeadingLWS front).countP (fun c => !isLWS c) ≤
      front.countP fun c => !isLWS c := (List.drop_sublist _ front).countP_le
  rw [List.countP_append, List.countP_append, List.countP_append,
    List.countP_cons_of_pos (by simp [hc]), hcount w hw, hcount u hu, hcount u' hu'] at hcounts
  omega

/-- Strings are trimmed as they are meant to be when there is no white space behind their
last other octet, and only then. -/
theorem trims_iff (s : Bytes) : Trims s ↔ BackClean s := by
  constructor
  · intro h
    rcases white_or_last s with hwhite | ⟨front, c, w, rfl, hc, hw⟩
    · exact .inl hwhite
    · right
      have hnil : w = [] := by
        by_contra hne
        exact not_isTrimmed_cut front hc hw hne h.trimmed
      subst hnil
      intro d hd
      rw [List.getLast?_concat] at hd
      cases hd
      exact hc
  · intro h
    have htrimmed : IsTrimmed s (trimLWS s) := by
      rcases h with hwhite | hback
      · exact isTrimmed_white hwhite
      · rcases List.eq_nil_or_concat s with rfl | ⟨front, c, rfl⟩
        · exact isTrimmed_white (by simp)
        · rw [List.concat_eq_append] at hback ⊢
          exact isTrimmed_concat front (hback c List.getLast?_concat)
    exact ⟨htrimmed, htrimmed.trimLWS_eq, trimTrailingLWS_trimLeadingLWS s⟩

/-- Of an octet with a space behind it nothing is left. -/
theorem last_octet_lost : ¬ ∀ s, Trims s := by
  intro h
  have hempty : trimLWS [0x61, 0x20] = [] := by decide
  obtain ⟨w, w', heq, hw, hw'⟩ := (h [0x61, 0x20]).trimmed.substring
  have hmem : 0x61 ∈ w ++ trimLWS [0x61, 0x20] ++ w' := by
    rw [← heq]
    exact List.mem_cons_self
  have hwhite : isLWS 0x61 = true := by
    rw [hempty, List.append_nil] at hmem
    rcases List.mem_append.mp hmem with hmem | hmem
    · exact hw _ hmem
    · exact hw' _ hmem
  exact absurd hwhite (by decide)

end Shitty
