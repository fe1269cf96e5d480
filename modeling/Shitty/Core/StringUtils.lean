import Shitty.Core.Octet
import Mathlib.Data.List.GetD
import Mathlib.Data.List.TakeWhile

/-!
# Strings

`StringUtils-inl.h`, and what it and `HTTP1.cpp` use of the C library, in the "C"
locale. `std::stoul` is given by the numerals it reads: what may stand in front of the
digits and behind them, and which of them are the grammar of a header field.
-/

namespace Shitty

def LF : Octet := 0x0a
def CR : Octet := 0x0d
def SP : Octet := 0x20

def isLWS (c : Octet) : Bool := c == SP || c == 0x09

/-! ## Trimming -/

/-- The index at which the loop of `trimTrailingLWS` ends: the last octet that is
no white space, or 0. -/
def trimTrailingLWS_loop (s : Bytes) : Nat → Nat
  | 0 => 0
  | i + 1 => if isLWS (s.getD i 0) then trimTrailingLWS_loop s i else i

def trimTrailingLWS (s : Bytes) : Bytes :=
  let initial_size := s.length
  let i := trimTrailingLWS_loop s initial_size
  let new_size := i + 1
  -- `resize(i)`, where `new_size` would keep the last octet
  if new_size ≠ initial_size then s.take i else s

def trimLeadingLWS (s : Bytes) : Bytes :=
  let leading_whitespace := (s.takeWhile isLWS).length
  s.drop leading_whitespace

def trimLWS (s : Bytes) : Bytes := trimLeadingLWS (trimTrailingLWS s)

/-- Nothing is trimmed off a string that does not end in white space. -/
theorem trimTrailingLWS_of_back {s : Bytes} {c : Octet} (hc : isLWS c = false) :
    trimTrailingLWS (s ++ [c]) = s ++ [c] := by
  have hlast : (s ++ [c]).getD s.length 0 = c := by
    rw [List.getD_eq_getElem _ _ (by simp), List.getElem_concat_length rfl]
  have hloop : trimTrailingLWS_loop (s ++ [c]) (s.length + 1) = s.length := by
    rw [trimTrailingLWS_loop, hlast, if_neg (by simp [hc])]
  unfold trimTrailingLWS
  simp only [List.length_append, List.length_singleton, hloop]
  exact if_neg (by simp)

theorem trimLeadingLWS_cons {c : Octet} {s : Bytes} (hc : isLWS c = true) :
    trimLeadingLWS (c :: s) = trimLeadingLWS s := by
  simp [trimLeadingLWS, hc]

theorem trimLeadingLWS_of_front {s : Bytes} (h : ∀ c, s.head? = some c → isLWS c = false) :
    trimLeadingLWS s = s := by
  cases s with
  | nil => rfl
  | cons c s => simp [trimLeadingLWS, h c rfl]

theorem trimLeadingLWS_append {w s : Bytes} (hw : ∀ c ∈ w, isLWS c = true)
    (h : ∀ c, s.head? = some c → isLWS c = false) : trimLeadingLWS (w ++ s) = s := by
  induction w with
  | nil => exact trimLeadingLWS_of_front h
  | cons c w ih =>
      rw [List.cons_append, trimLeadingLWS_cons (hw c List.mem_cons_self)]
      exact ih fun c hc => hw c (List.mem_cons_of_mem _ hc)

/-- The loop goes past white space. -/
theorem trimTrailingLWS_loop_white (s : Bytes) {w : Bytes} (hw : ∀ c ∈ w, isLWS c = true) :
    trimTrailingLWS_loop (s ++ w) (s ++ w).length = trimTrailingLWS_loop (s ++ w) s.length := by
  have hpast : ∀ k ≤ w.length,
      trimTrailingLWS_loop (s ++ w) (s.length + k) = trimTrailingLWS_loop (s ++ w) s.length := by
    intro k
    induction k with
    | zero => exact fun _ => rfl
    | succ k ih =>
        intro hk
        have hwhite : isLWS ((s ++ w).getD (s.length + k) 0) = true := by
          rw [List.getD_append_right _ _ _ _ (by omega), Nat.add_sub_cancel_left,
            List.getD_eq_getElem _ _ (by omega)]
          exact hw _ (List.getElem_mem _)
        rw [← Nat.add_assoc, trimTrailingLWS_loop, if_pos hwhite]
        exact ih (by omega)
  rw [List.length_append]
  exact hpast w.length (Nat.le_refl _)

/-- With the white space, the octet in front of it goes. -/
theorem trimTrailingLWS_cut (s : Bytes) {c : Octet} {w : Bytes} (hc : isLWS c = false)
    (hw : ∀ c ∈ w, isLWS c = true) (hne : w ≠ []) : trimTrailingLWS (s ++ c :: w) = s := by
  have hsplit : s ++ c :: w = (s ++ [c]) ++ w := by simp
  have hlast : ((s ++ [c]) ++ w).getD s.length 0 = c := by
    rw [List.append_assoc, List.getD_append_right _ _ _ _ (Nat.le_refl _), Nat.sub_self]
    rfl
  have hloop : trimTrailingLWS_loop ((s ++ [c]) ++ w) ((s ++ [c]) ++ w).length = s.length := by
    rw [trimTrailingLWS_loop_white _ hw, List.length_append, List.length_singleton,
      trimTrailingLWS_loop, hlast, if_neg (by simp [hc])]
  have hpos := List.length_pos_iff.mpr hne
  unfold trimTrailingLWS
  rw [hsplit]
  simp only [hloop]
  rw [if_pos (by simp; omega), List.append_assoc, List.take_left]

/-- What is left of a string in front of the white space at its back. -/
theorem trimTrailingLWS_append (s : Bytes) {c : Octet} {w : Bytes} (hc : isLWS c = false)
    (hw : ∀ c ∈ w, isLWS c = true) :
    trimTrailingLWS (s ++ c :: w) = s ++ if w = [] then [c] else [] := by
  by_cases hne : w = []
  · rw [if_pos hne, hne]
    exact trimTrailingLWS_of_back hc
  · rw [if_neg hne, List.append_nil]
    exact trimTrailingLWS_cut s hc hw hne

theorem trimLWS_white {w : Bytes} (hw : ∀ c ∈ w, isLWS c = true) : trimLWS w = [] := by
  have hloop : trimTrailingLWS_loop w w.length = 0 := trimTrailingLWS_loop_white [] hw
  have hleading : trimLeadingLWS w = [] := by
    have hall := trimLeadingLWS_append (s := []) hw (by simp)
    rwa [List.append_nil] at hall
  unfold trimLWS trimTrailingLWS
  simp only [hloop, List.take_zero]
  split
  · rfl
  · exact hleading

/-- A space in front of a string without white space at its ends. -/
theorem trimLWS_value {s : Bytes} (hfront : ∀ c, s.head? = some c → isLWS c = false)
    (hback : ∀ c, s.getLast? = some c → isLWS c = false) : trimLWS (SP :: s) = s := by
  have hsp : isLWS SP = true := by decide
  have htrailing : trimTrailingLWS (SP :: s) = SP :: s := by
    rcases List.eq_nil_or_concat s with rfl | ⟨front, c, rfl⟩
    · decide
    · rw [List.concat_eq_append] at hback ⊢
      exact trimTrailingLWS_of_back (s := SP :: front) (hback c List.getLast?_concat)
  rw [trimLWS, htrailing, trimLeadingLWS_cons hsp, trimLeadingLWS_of_front hfront]

/-! ## Letters -/

def tolower (c : Octet) : Octet := if 0x41 ≤ c ∧ c ≤ 0x5a then c + 0x20 else c

def asciiLower (s : Bytes) : Bytes := s.map tolower

/-- `ascii::CaseInsensitiveEqual`: whether two strings are the same in lower case. -/
def CaseInsensitiveEqual (left right : Bytes) : Bool := left.map tolower == right.map tolower

theorem tolower_tolower (c : Octet) : tolower (tolower c) = tolower c := by
  revert c
  decide +kernel

theorem caseInsensitiveEqual_lower (s t : Bytes) :
    CaseInsensitiveEqual (asciiLower s) t = CaseInsensitiveEqual s t := by
  have hlower : (asciiLower s).map tolower = s.map tolower := by
    rw [asciiLower, List.map_map]
    exact List.map_congr_left fun c _ => tolower_tolower c
  rw [CaseInsensitiveEqual, hlower, CaseInsensitiveEqual]

/-! ## Numbers -/

def isspace (c : Octet) : Bool := c == SP || (0x09 ≤ c && c ≤ 0x0d)

def isdigit (c : Octet) : Bool := 0x30 ≤ c && c ≤ 0x39

/-- The number that decimal digits denote, the most significant of them first. -/
def decimal (digits : Bytes) : Nat := digits.foldl (fun n c => 10 * n + (c.toNat - 0x30)) 0

/-- What `std::stoul` makes of the digits behind the sign, which it negates modulo 2^64. -/
def stoul_digits (negative : Bool) (s : Bytes) : Except Exn Nat :=
  let digits := s.takeWhile isdigit
  if digits = [] then .error (.invalid_argument "stoul")
  else if 2 ^ 64 ≤ decimal digits then .error (.out_of_range "stoul")
  else .ok (if negative then (2 ^ 64 - decimal digits) % 2 ^ 64 else decimal digits)

/-- `std::stoul`, which is `strtoul` in base 10: blanks and a sign may come first,
and anything behind the digits. -/
def stoul (s : Bytes) : Except Exn Nat :=
  match s.dropWhile isspace with
  | [] => stoul_digits false []
  | c :: s =>
      if c = 0x2d then stoul_digits true s
      else if c = 0x2b then stoul_digits false s
      else stoul_digits false (c :: s)

theorem isdigit_iff {c : Octet} : isdigit c = true ↔ 0x30 ≤ c.toNat ∧ c.toNat ≤ 0x39 := by
  simp [isdigit, BitVec.le_def]

theorem decimal_snoc (s : Bytes) (c : Octet) :
    decimal (s ++ [c]) = 10 * decimal s + (c.toNat - 0x30) := by
  simp [decimal]

/-- `std::to_string`: the decimal digits of a number. -/
def to_string (n : Nat) : Bytes := octets (toString n)

/-- The last digit comes off the end. -/
theorem to_string_eq (n : Nat) :
    to_string n = (if n < 10 then [] else to_string (n / 10)) ++ [0x30 + BitVec.ofNat 8 (n % 10)] := by
  have hdigit : ∀ d < 10, BitVec.ofNat 8 (Nat.digitChar d).toNat = 0x30 + BitVec.ofNat 8 d := by
    decide
  simp only [to_string, octets, Nat.toString_eq_repr, Nat.toList_repr]
  rw [Nat.toDigits_eq_if (by omega)]
  split
  · rename_i hlt
    simp [hdigit n hlt, Nat.mod_eq_of_lt hlt]
  · simp [hdigit (n % 10) (Nat.mod_lt _ (by omega))]

theorem to_string_ne_nil (n : Nat) : to_string n ≠ [] := by
  rw [to_string_eq]
  simp

/-- Digits, and those of the number. -/
theorem to_string_decimal (n : Nat) :
    (∀ c ∈ to_string n, isdigit c = true) ∧ decimal (to_string n) = n := by
  have hlast : ∀ d < 10, isdigit (0x30 + BitVec.ofNat 8 d) = true ∧
      (0x30 + BitVec.ofNat 8 d).toNat - 0x30 = d := by
    decide
  induction n using Nat.strongRecOn with
  | ind n ih =>
      obtain ⟨hdigit, hvalue⟩ := hlast (n % 10) (Nat.mod_lt _ (by omega))
      rw [to_string_eq]
      split
      · rename_i hlt
        refine ⟨fun c hc => List.mem_singleton.mp hc ▸ hdigit, ?_⟩
        rw [List.nil_append, ← List.nil_append [_], decimal_snoc, hvalue]
        exact (Nat.zero_add _).trans (Nat.mod_eq_of_lt hlt)
      · obtain ⟨hdigits, hfront⟩ := ih (n / 10) (by omega)
        refine ⟨fun c hc => ?_, ?_⟩
        · rcases List.mem_append.mp hc with hc | hc
          · exact hdigits c hc
          · exact List.mem_singleton.mp hc ▸ hdigit
        · rw [decimal_snoc, hfront, hvalue]
          omega

theorem isspace_of_isdigit {c : Octet} (h : isdigit c = true) : isspace c = false := by
  revert c
  decide +kernel

theorem sign_of_isdigit {c : Octet} (h : isdigit c = true) : c ≠ 0x2d ∧ c ≠ 0x2b := by
  revert c
  decide +kernel

/-- A text with a number in front, in the parts that `strtoul` tells apart. -/
structure Numeral where
  blanks : Bytes
  sign : Bytes
  digits : Bytes
  rest : Bytes
  blanks_space : ∀ c ∈ blanks, isspace c = true
  sign_one : sign = [] ∨ sign = [0x2b] ∨ sign = [0x2d]
  digits_some : digits ≠ []
  digits_decimal : ∀ c ∈ digits, isdigit c = true
  rest_behind : ∀ c, rest.head? = some c → isdigit c = false

namespace Numeral

def text (n : Numeral) : Bytes := n.blanks ++ n.sign ++ n.digits ++ n.rest

/-- A negative number is taken modulo 2^64. -/
def number (n : Numeral) : Nat :=
  if n.sign = [0x2d] then (2 ^ 64 - decimal n.digits) % 2 ^ 64 else decimal n.digits

/-- A numeral that has nothing but its digits: no blanks, no sign and nothing behind them. -/
def Bare (n : Numeral) : Prop := n.blanks = [] ∧ n.sign = [] ∧ n.rest = []

theorem Bare.text_eq {n : Numeral} (h : n.Bare) : n.text = n.digits := by
  obtain ⟨hblanks, hsign, hrest⟩ := h
  rw [text, hblanks, hsign, hrest, List.nil_append, List.nil_append, List.append_nil]

theorem Bare.number_eq {n : Numeral} (h : n.Bare) : n.number = decimal n.digits := by
  rw [number, h.2.1, if_neg (by decide)]

/-- The digits are all that is read of what is behind the sign. -/
theorem stoul_digits_eq (n : Numeral) (negative : Bool) :
    stoul_digits negative (n.digits ++ n.rest) =
      if 2 ^ 64 ≤ decimal n.digits then .error (.out_of_range "stoul")
      else .ok (if negative then (2 ^ 64 - decimal n.digits) % 2 ^ 64 else decimal n.digits) := by
  have hrest : n.rest.takeWhile isdigit = [] := by
    rw [List.takeWhile_eq_nil_iff]
    intro hpos hdigit
    have hnot := n.rest_behind _ (List.head?_eq_some_head (List.length_pos_iff.mp hpos))
    rw [List.head_eq_getElem] at hnot
    rw [List.get_eq_getElem, hnot] at hdigit
    cases hdigit
  have htake : (n.digits ++ n.rest).takeWhile isdigit = n.digits := by
    rw [List.takeWhile_append_of_pos n.digits_decimal, hrest, List.append_nil]
  unfold stoul_digits
  simp only [htake]
  rw [if_neg n.digits_some]

theorem stoul_text (n : Numeral) :
    stoul n.text =
      if 2 ^ 64 ≤ decimal n.digits then .error (.out_of_range "stoul") else .ok n.number := by
  obtain ⟨c, digits, hdigits⟩ := List.exists_cons_of_ne_nil n.digits_some
  have hc : isdigit c = true := n.digits_decimal c (by rw [hdigits]; exact List.mem_cons_self)
  have hblanks : ∀ s, (n.blanks ++ s).dropWhile isspace = s.dropWhile isspace := fun s =>
    List.dropWhile_append_of_pos n.blanks_space
  rw [stoul, text, List.append_assoc, List.append_assoc, hblanks]
  rcases n.sign_one with hsign | hsign | hsign
  · -- the first digit ends the blanks and is no sign
    have hnumber : n.number = decimal n.digits := if_neg (by rw [hsign]; decide)
    rw [hsign, List.nil_append, hnumber, hdigits, List.cons_append,
      List.dropWhile_cons_of_neg (by simp [isspace_of_isdigit hc])]
    dsimp only
    rw [if_neg (sign_of_isdigit hc).1, if_neg (sign_of_isdigit hc).2, ← List.cons_append, ← hdigits]
    exact n.stoul_digits_eq false
  · have hnumber : n.number = decimal n.digits := if_neg (by rw [hsign]; decide)
    rw [hsign, hnumber]
    exact n.stoul_digits_eq false
  · have hnumber : n.number = (2 ^ 64 - decimal n.digits) % 2 ^ 64 := if_pos hsign
    rw [hsign, hnumber]
    exact n.stoul_digits_eq true

end Numeral

/-- What is read has digits, behind a sign or not. -/
theorem stoul_digits_numeral {blanks sign s : Bytes} {negative : Bool} {len : Nat}
    (hblanks : ∀ c ∈ blanks, isspace c = true)
    (hsign : sign = [] ∨ sign = [0x2b] ∨ sign = [0x2d])
    (h : stoul_digits negative s = .ok len) :
    ∃ n : Numeral, n.text = blanks ++ sign ++ s ∧ decimal n.digits < 2 ^ 64 := by
  unfold stoul_digits at h
  dsimp only at h
  split at h
  · cases h
  · rename_i hsome
    split at h
    · cases h
    · rename_i hlt
      refine ⟨⟨blanks, sign, s.takeWhile isdigit, s.dropWhile isdigit, hblanks, hsign, hsome,
        fun c hc => List.mem_takeWhile_imp hc, ?_⟩, ?_, Nat.not_le.mp hlt⟩
      · intro c hc
        have hnot := List.head?_dropWhile_not isdigit s
        rw [hc] at hnot
        simpa using hnot
      · rw [Numeral.text, List.append_assoc, List.takeWhile_append_dropWhile]

/-- What is read is a number in these parts. -/
theorem stoul_numeral {value : Bytes} {len : Nat} (h : stoul value = .ok len) :
    ∃ n : Numeral, n.text = value ∧ decimal n.digits < 2 ^ 64 ∧ n.number = len := by
  have hspaces : ∀ c ∈ value.takeWhile isspace, isspace c = true :=
    fun c hc => List.mem_takeWhile_imp hc
  have hsplit := List.takeWhile_append_dropWhile (p := isspace) (l := value)
  have hparts : ∃ n : Numeral, n.text = value ∧ decimal n.digits < 2 ^ 64 := by
    have hread := h
    rw [stoul] at hread
    split at hread
    · rename_i hnil
      rw [hnil] at hsplit
      obtain ⟨n, htext, hlt⟩ := stoul_digits_numeral hspaces (.inl rfl) hread
      exact ⟨n, htext.trans (by simpa using hsplit), hlt⟩
    · rename_i c s hcons
      rw [hcons] at hsplit
      split at hread
      · rename_i hminus
        obtain ⟨n, htext, hlt⟩ := stoul_digits_numeral hspaces (.inr (.inr rfl)) hread
        exact ⟨n, htext.trans (by rw [List.append_assoc, ← hminus]; exact hsplit), hlt⟩
      · split at hread
        · rename_i hplus
          obtain ⟨n, htext, hlt⟩ := stoul_digits_numeral hspaces (.inr (.inl rfl)) hread
          exact ⟨n, htext.trans (by rw [List.append_assoc, ← hplus]; exact hsplit), hlt⟩
        · obtain ⟨n, htext, hlt⟩ := stoul_digits_numeral hspaces (.inl rfl) hread
          exact ⟨n, htext.trans (by rw [List.append_nil]; exact hsplit), hlt⟩
  obtain ⟨n, htext, hlt⟩ := hparts
  rw [← htext, n.stoul_text, if_neg (Nat.not_le.mpr hlt)] at h
  exact ⟨n, htext, hlt, Except.ok.inj h⟩

/-- `std::stoul` reads digits alone as the number they denote, as long as it fits into 64 bits. -/
theorem stoul_decimal {digits : Bytes} (hne : digits ≠ [])
    (hdigits : ∀ c ∈ digits, isdigit c = true) (hlt : decimal digits < 2 ^ 64) :
    stoul digits = .ok (decimal digits) := by
  let n : Numeral := ⟨[], [], digits, [], by simp, .inl rfl, hne, hdigits, by simp⟩
  have hbare : n.Bare := ⟨rfl, rfl, rfl⟩
  have hread := n.stoul_text
  rw [hbare.text_eq, hbare.number_eq, if_neg (Nat.not_le.mpr hlt)] at hread
  exact hread

end Shitty
