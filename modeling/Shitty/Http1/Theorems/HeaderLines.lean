import Shitty.Http1.Logic.Lines

/-!
# Header lines

A value that does not follow a space is stored with its colon, and one that white space
follows without its last octet. A continuation line goes to whichever field of the last
name the map finds. Which values are kept as they are is read off the two trimmings, for
any name, any value and any white space around it.
-/

namespace Shitty.Http1.Transport

variable {ω : Type} {s : Transport ω} {msg : IncomingMessage}

/-! ## Values -/

/-- The white space around a value is such that it is stored as it is: an empty value has
some, any other a space before it and nothing behind it. (Of colons alone, with white
space behind them only, one is lost and one added.) -/
def ValueKept (w v w' : Bytes) : Prop :=
  if v = [] then w ++ w' ≠ []
  else (w.head? = some SP ∧ w' = []) ∨ (w = [] ∧ w' ≠ [] ∧ ∀ c ∈ v, c = 0x3a)

theorem isLWS_colon : isLWS 0x3a = false := by decide

theorem cons_eq_concat_iff {α : Type} (a c : α) (l : List α) :
    a :: l = l ++ [c] ↔ ∀ b ∈ l ++ [c], b = a := by
  induction l generalizing a with
  | nil => simp [eq_comm]
  | cons b l ih =>
      rw [List.cons_append, List.cons.injEq, ih b, List.forall_mem_cons]
      constructor
      · rintro ⟨rfl, hall⟩
        exact ⟨rfl, hall⟩
      · rintro ⟨rfl, hall⟩
        exact ⟨rfl, hall⟩

theorem storedValue_empty {w : Bytes} (hw : ∀ c ∈ w, isLWS c = true) :
    storedValue w = [] ↔ w ≠ [] := by
  unfold storedValue
  by_cases hspace : w.head? = some SP
  · rw [if_pos hspace]
    refine iff_of_true (trimLWS_white hw) ?_
    rintro rfl
    cases hspace
  · rw [if_neg hspace]
    by_cases hne : w = []
    · subst hne
      refine iff_of_false ?_ (by simp)
      decide
    · have hcut := trimTrailingLWS_cut [] isLWS_colon hw hne
      rw [List.nil_append] at hcut
      refine iff_of_true ?_ hne
      rw [trimLWS, hcut]
      rfl

/-- What is left in front of the white space behind a value. -/
theorem storedValue_concat (rest : Bytes) {c : Octet} {w : Bytes} (hc : isLWS c = false)
    (hw : ∀ c ∈ w, isLWS c = true) :
    storedValue (rest ++ c :: w) = trimLeadingLWS
      ((if (rest ++ [c]).head? = some SP then rest else 0x3a :: rest) ++
        if w = [] then [c] else []) := by
  have hhead : (rest ++ c :: w).head? = (rest ++ [c]).head? := by cases rest <;> rfl
  unfold storedValue trimLWS
  rw [hhead]
  split
  · rw [trimTrailingLWS_append rest hc hw]
  · rw [← List.cons_append, trimTrailingLWS_append (0x3a :: rest) hc hw]

theorem storedValue_iff {w v w' : Bytes} (hw : ∀ c ∈ w, isLWS c = true)
    (hw' : ∀ c ∈ w', isLWS c = true) (hfront : ∀ c, v.head? = some c → isLWS c = false)
    (hback : ∀ c, v.getLast? = some c → isLWS c = false) :
    storedValue (w ++ v ++ w') = v ↔ ValueKept w v w' := by
  rcases List.eq_nil_or_concat v with rfl | ⟨front, c, rfl⟩
  · -- an empty value
    have hall : ∀ c ∈ w ++ w', isLWS c = true := by
      intro c hc
      rcases List.mem_append.mp hc with hc | hc
      · exact hw c hc
      · exact hw' c hc
    rw [List.append_nil, storedValue_empty hall, ValueKept, if_pos rfl]
  · rw [List.concat_eq_append] at hfront hback ⊢
    have hc : isLWS c = false := hback c List.getLast?_concat
    have hleading : ∀ c, front.head? = some c → isLWS c = false := by
      intro d hd
      refine hfront d ?_
      rw [List.head?_append, hd]
      rfl
    have hsplit : w ++ (front ++ [c]) ++ w' = (w ++ front) ++ c :: w' := by simp
    have hspace : ((w ++ front) ++ [c]).head? = some SP ↔ w.head? = some SP := by
      cases w with
      | cons d w => simp
      | nil =>
          refine iff_of_false (fun hsp => ?_) (by simp)
          have hsp' := hfront SP hsp
          revert hsp'
          decide
    have hvalue : front ++ [c] ≠ [] := by simp
    rw [hsplit, storedValue_concat _ hc hw', ValueKept, if_neg hvalue]
    by_cases hsp : w.head? = some SP
    · -- behind a space: the value is kept when there is nothing behind it
      rw [if_pos (hspace.mpr hsp), List.append_assoc]
      by_cases hnone : w' = []
      · rw [if_pos hnone, trimLeadingLWS_append hw hfront]
        exact iff_of_true rfl (.inl ⟨hsp, hnone⟩)
      · rw [if_neg hnone, List.append_nil, trimLeadingLWS_append hw hleading]
        refine iff_of_false (fun heq => ?_) ?_
        · have hlen := congrArg List.length heq
          simp at hlen
        · rintro (⟨-, hnil⟩ | ⟨rfl, -⟩)
          · exact hnone hnil
          · cases hsp
    · rw [if_neg (mt hspace.mp hsp)]
      -- otherwise the colon is stored with it
      have hcolon : ∀ line : Bytes, trimLeadingLWS (0x3a :: line) = 0x3a :: line := fun line =>
        trimLeadingLWS_of_front fun d hd => by cases hd; exact isLWS_colon
      rw [List.cons_append, hcolon]
      by_cases hnone : w' = []
      · rw [if_pos hnone]
        refine iff_of_false (fun heq => ?_) (by tauto)
        have hlen := congrArg List.length heq
        simp only [List.length_append, List.length_cons] at hlen
        omega
      · rw [if_neg hnone, List.append_nil]
        cases w with
        | nil =>
            rw [List.nil_append, cons_eq_concat_iff]
            exact ⟨fun hall => .inr ⟨rfl, hnone, hall⟩, by tauto⟩
        | cons d w =>
            refine iff_of_false (fun heq => ?_) ?_
            · have hlen := congrArg List.length heq
              simp only [List.length_append, List.length_cons, List.length_nil] at hlen
              omega
            · rintro (⟨hd, -⟩ | ⟨hnil, -⟩)
              · exact hsp hd
              · cases hnil

/-- The line adds the field, with its name in lower case, and its name is remembered. -/
def AddsField (s : Transport ω) (msg : IncomingMessage) (name value line : Bytes) : Prop :=
  headerLine line s = .ok () (s.setFields msg (asciiLower name)
    (msg.message.headers_.add (asciiLower name) value))

/-- A line with any white space around its value adds the field exactly when the white
space is such that the value is kept. -/
theorem headerLine_adds_iff {name w v w' : Bytes} (hmsg : s.incoming_message_ = some msg)
    (hname : 0x3a ∉ name) (hw : ∀ c ∈ w, isLWS c = true) (hw' : ∀ c ∈ w', isLWS c = true)
    (hfront : ∀ c, v.head? = some c → isLWS c = false)
    (hback : ∀ c, v.getLast? = some c → isLWS c = false) :
    s.AddsField msg name v (name ++ 0x3a :: (w ++ v ++ w')) ↔ ValueKept w v w' := by
  rw [← storedValue_iff hw hw' hfront hback, AddsField, headerLine_colon hname _ hmsg]
  constructor
  · intro hsame
    have hfields : (s.setFields msg (asciiLower name) (msg.message.headers_.add (asciiLower name)
        (storedValue (w ++ v ++ w')))).incoming_message_ =
          (s.setFields msg (asciiLower name)
            (msg.message.headers_.add (asciiLower name) v)).incoming_message_ :=
      congrArg (fun result => (stateOf result).incoming_message_) hsame
    have hheaders := congrArg (fun incoming => incoming.map fun m => m.message.headers_) hfields
    simpa [setFields, Headers.add] using hheaders
  · intro hvalue
    rw [hvalue]

/-- A message of which the first line has been read. -/
def begun : Transport Unit where
  incoming_message_ := some { first_line := octets "GET / HTTP/1.1" }
  world := ()

/-- Two spaces in front of a value. -/
theorem headerLine_adds_host :
    begun.AddsField { first_line := octets "GET / HTTP/1.1" } (octets "Host") (octets "a")
      (octets "Host" ++ 0x3a :: (octets "  " ++ octets "a" ++ [])) :=
  (headerLine_adds_iff rfl (by decide) (by decide) (by decide) (by decide) (by decide)).mpr
    (.inl ⟨rfl, rfl⟩)

/-- The line `Host:a`, in which no space follows the colon, is stored with the value `:a`. -/
theorem value_with_colon :
    ¬ ∀ (s : Transport Unit) (msg : IncomingMessage) (name w v w' : Bytes),
      s.incoming_message_ = some msg → 0x3a ∉ name → (∀ c ∈ w, isLWS c = true) →
        (∀ c ∈ w', isLWS c = true) → (∀ c, v.head? = some c → isLWS c = false) →
          (∀ c, v.getLast? = some c → isLWS c = false) →
            s.AddsField msg name v (name ++ 0x3a :: (w ++ v ++ w')) := by
  intro h
  have hadds := h begun _ (octets "Host") [] (octets "a") [] rfl (by decide) (by simp) (by simp)
    (by decide) (by decide)
  rw [headerLine_adds_iff rfl (by decide) (by simp) (by simp) (by decide) (by decide)] at hadds
  revert hadds
  simp [ValueKept, octets]

end Shitty.Http1.Transport
