import Shitty.Http1.HTTP1

/-!
# What Content-Length fields say

`std::stoul` reads more than the grammar of the field has, and of several fields one is
looked at. So a length is the number the field denotes, and the only one there can be,
just when there is nothing around its digits and no other field that says otherwise.
-/

namespace Shitty.Http1

variable {find : Find} {headers : Headers}

def isContentLength (field : Bytes × Bytes) : Bool :=
  CaseInsensitiveEqual field.1 (octets "content-length")

def isTransferEncoding (field : Bytes × Bytes) : Bool :=
  CaseInsensitiveEqual field.1 (octets "transfer-encoding")

/-! ## One value -/

/-- The number is one that `stoul` returns, and `ssize_t` has it. -/
def Fits (n : Numeral) : Prop := decimal n.digits < 2 ^ 64 ∧ n.number < 2 ^ 63

/-- The value begins with a number, whatever is around its digits. -/
def Gives (value : Bytes) (len : Nat) : Prop :=
  ∃ n : Numeral, n.text = value ∧ Fits n ∧ n.number = len

/-- The length that the value gives. -/
def lengthOf (value : Bytes) : Option Nat :=
  (stoul value).toOption.filter fun len => len < 2 ^ 63

theorem lengthOf_some {value : Bytes} {len : Nat} : lengthOf value = some len ↔ Gives value len := by
  rw [lengthOf, Option.filter_eq_some_iff, decide_eq_true_eq]
  constructor
  · rintro ⟨hread, hlt⟩
    cases hstoul : stoul value with
    | error e =>
        rw [hstoul] at hread
        cases hread
    | ok number =>
        rw [hstoul] at hread
        cases hread
        obtain ⟨n, htext, hdigits, hnumber⟩ := stoul_numeral hstoul
        exact ⟨n, htext, ⟨hdigits, hnumber ▸ hlt⟩, hnumber⟩
  · rintro ⟨n, rfl, hfits, rfl⟩
    rw [n.stoul_text, if_neg (Nat.not_le.mpr hfits.1)]
    exact ⟨rfl, hfits.2⟩

/-- Two values of which the same is read. -/
theorem lengthOf_eq {v w : Bytes} : lengthOf v = lengthOf w ↔ ∀ len, Gives v len ↔ Gives w len := by
  rw [Option.ext_iff]
  exact forall_congr' fun len => by rw [lengthOf_some, lengthOf_some]

/-! ## The field that is found -/

theorem find_isSome {name : Bytes} :
    (find.find headers name).isSome = true ↔
      ∃ field ∈ headers, CaseInsensitiveEqual field.1 name = true := by
  constructor
  · intro h
    obtain ⟨i, hi⟩ := Option.isSome_iff_exists.mp h
    obtain ⟨hmem, hequal⟩ := find.get_mem hi
    exact ⟨_, hmem, hequal⟩
  · rintro ⟨field, hfield, hequal⟩
    cases hfind : find.find headers name with
    | some i => rfl
    | none =>
        rw [find.complete _ _ hfind field hfield] at hequal
        cases hequal

theorem getContentLength_found {i : Nat}
    (h : find.find headers (octets "content-length") = some i) :
    (getContentLength find headers).toOption =
      (lengthOf (headers.getD i no_header).2).map Nat.cast := by
  rw [getContentLength, h, lengthOf]
  dsimp only
  cases stoul (headers.getD i no_header).2 with
  | error e => rfl
  | ok len =>
      dsimp only
      by_cases hlen : len < 2 ^ 63
      · rw [if_neg (by omega), Except.toOption, Except.toOption, Option.filter_some,
          if_pos (decide_eq_true hlen)]
        rfl
      · rw [if_pos (by omega), Except.toOption, Except.toOption, Option.filter_some,
          if_neg (by simpa using hlen)]
        rfl

theorem ok_lengthOf {read : Except Exn Int} {value : Bytes} {len : Int}
    (h : read.toOption = (lengthOf value).map Nat.cast) :
    read = .ok len ↔ ∃ number : Nat, Gives value number ∧ len = number := by
  have hok : read = .ok len ↔ read.toOption = some len := by
    cases read <;> simp [Except.toOption]
  rw [hok, h, Option.map_eq_some_iff]
  exact exists_congr fun number => and_congr lengthOf_some eq_comm

/-- With a Content-Length field, it is one of them that is read. -/
theorem getContentLength_field (find : Find)
    (h : ∃ field ∈ headers, isContentLength field = true) :
    ∃ field ∈ headers, isContentLength field = true ∧
      (getContentLength find headers).toOption = (lengthOf field.2).map Nat.cast := by
  obtain ⟨i, hi⟩ := Option.isSome_iff_exists.mp (find_isSome.mpr h)
  obtain ⟨hmem, hequal⟩ := find.get_mem hi
  exact ⟨_, hmem, hequal, getContentLength_found hi⟩

/-- Without one, all fields of the other name are alike. -/
theorem getContentLength_none (find : Find)
    (h : ¬ ∃ field ∈ headers, isContentLength field = true) :
    getContentLength find headers =
      if headers.any isTransferEncoding then .ok (-1) else .ok 0 := by
  have hnone : find.find headers (octets "content-length") = none := by
    rw [← Option.not_isSome_iff_eq_none, find_isSome]
    exact h
  have hsome : (find.find headers (octets "transfer-encoding")).isSome =
      headers.any isTransferEncoding := by
    rw [Bool.eq_iff_iff, find_isSome, List.any_eq_true]
    rfl
  rw [getContentLength, hnone, ← hsome]
  dsimp only
  cases find.find headers (octets "transfer-encoding") <;> rfl

/-! ## Several fields -/

/-- Whatever is found, and however the fields have arrived, they say the same of the body;
and chunks come before a length. -/
structure OneLength (headers : Headers) : Prop where
  same : ∀ fields fields' find find', fields.Perm headers → fields'.Perm headers →
    (getContentLength find fields).toOption = (getContentLength find' fields').toOption
  chunked : (∃ field ∈ headers, isContentLength field = true) →
    (∃ field ∈ headers, isTransferEncoding field = true) →
    ∀ fields find len, fields.Perm headers → getContentLength find fields = .ok len → len = -1

/-- All Content-Length fields give the same length, and none beside Transfer-Encoding. -/
structure Agree (headers : Headers) : Prop where
  lengths : ∀ field ∈ headers, ∀ other ∈ headers, isContentLength field = true →
    isContentLength other = true → ∀ len, Gives field.2 len ↔ Gives other.2 len
  chunked : ∀ field ∈ headers, ∀ other ∈ headers, isContentLength field = true →
    isTransferEncoding other = true → ∀ len, ¬ Gives field.2 len

/-- Each Content-Length field is found, when it has arrived first. -/
theorem getContentLength_first {field : Bytes × Bytes} (h : field ∈ headers)
    (hlength : isContentLength field = true) :
    ∃ fields, fields.Perm headers ∧
      (getContentLength .first fields).toOption = (lengthOf field.2).map Nat.cast := by
  refine ⟨field :: headers.erase field, (List.perm_cons_erase h).symm, ?_⟩
  have hequal : CaseInsensitiveEqual field.1 (octets "content-length") = true := hlength
  have hfind : Find.first.find (field :: headers.erase field) (octets "content-length") = some 0 := by
    show List.findIdx? _ _ = _
    rw [List.findIdx?_cons, if_pos hequal]
  exact getContentLength_found hfind

theorem map_cast_inj {len len' : Option Nat}
    (h : len.map (Nat.cast (R := Int)) = len'.map Nat.cast) : len = len' :=
  Option.map_injective Nat.cast_injective h

/-- The body is framed in one way exactly when the fields agree. -/
theorem oneLength_iff (headers : Headers) : OneLength headers ↔ Agree headers := by
  constructor
  · intro h
    refine ⟨?_, ?_⟩
    · -- either field may have arrived first
      intro field hfield other hother hlength hlength'
      obtain ⟨fields, hperm, hfirst⟩ := getContentLength_first hfield hlength
      obtain ⟨fields', hperm', hfirst'⟩ := getContentLength_first hother hlength'
      have hsame := h.same _ _ .first .first hperm hperm'
      rw [hfirst, hfirst'] at hsame
      exact lengthOf_eq.mp (map_cast_inj hsame)
    · intro field hfield other hother hlength hchunked len hgives
      obtain ⟨fields, hperm, hfirst⟩ := getContentLength_first hfield hlength
      have hread := (ok_lengthOf hfirst).mpr ⟨len, hgives, rfl⟩
      have hminus := h.chunked ⟨field, hfield, hlength⟩ ⟨other, hother, hchunked⟩ _ _ _ hperm hread
      omega
  · intro h
    have hfields : ∀ (fields : Headers) (find : Find), fields.Perm headers →
        (∃ field ∈ headers, isContentLength field = true) →
          ∃ field ∈ headers, isContentLength field = true ∧
            (getContentLength find fields).toOption = (lengthOf field.2).map Nat.cast := by
      rintro fields find hperm ⟨field, hfield, hlength⟩
      obtain ⟨found, hfound, hread⟩ :=
        getContentLength_field find ⟨field, hperm.mem_iff.mpr hfield, hlength⟩
      exact ⟨found, hperm.mem_iff.mp hfound, hread⟩
    refine ⟨?_, ?_⟩
    · intro fields fields' find find' hperm hperm'
      -- without a length, it is only asked whether there are chunks
      by_cases hlength : ∃ field ∈ headers, isContentLength field = true
      · obtain ⟨field, hfield, hfound, hread⟩ := hfields fields find hperm hlength
        obtain ⟨other, hother, hfound', hread'⟩ := hfields fields' find' hperm' hlength
        rw [hread, hread',
          lengthOf_eq.mpr (h.lengths field hfield other hother hfound hfound')]
      · have hnone : ∀ fields : Headers, fields.Perm headers →
            ¬ ∃ field ∈ fields, isContentLength field = true := by
          rintro fields hperm ⟨field, hfield, hname⟩
          exact hlength ⟨field, hperm.mem_iff.mp hfield, hname⟩
        rw [getContentLength_none find (hnone _ hperm), getContentLength_none find' (hnone _ hperm'),
          hperm.any_eq, hperm'.any_eq]
    · rintro hlength ⟨other, hother, hchunked⟩ fields find len hperm hread
      obtain ⟨field, hfield, hfound, hgives⟩ := hfields fields find hperm hlength
      obtain ⟨n, hn, -⟩ := (ok_lengthOf hgives).mp hread
      exact absurd hn (h.chunked field hfield other hother hfound hchunked n)

/-- A message with two different lengths is accepted, and one of them is taken. -/
theorem two_lengths : ¬ ∀ headers : Headers, OneLength headers := by
  intro h
  have hsame := (h [(octets "content-length", octets "5"), (octets "content-length", octets "6")]).same
    [(octets "content-length", octets "5"), (octets "content-length", octets "6")]
    [(octets "content-length", octets "6"), (octets "content-length", octets "5")]
    .first .first (List.Perm.refl _) (List.Perm.swap _ _ _)
  revert hsame
  decide

/-! ## One field -/

/-- The value is a number in decimal digits, of at most 2^63 - 1. -/
def Denotes (value : Bytes) (len : Int) : Prop :=
  value ≠ [] ∧ (∀ c ∈ value, isdigit c = true) ∧ len = decimal value ∧ len ≤ 2 ^ 63 - 1

theorem bare_of_digits {n : Numeral} (h : ∀ c ∈ n.text, isdigit c = true) : n.Bare := by
  have hmem : ∀ c, c ∈ n.text ↔ ((c ∈ n.blanks ∨ c ∈ n.sign) ∨ c ∈ n.digits) ∨ c ∈ n.rest := by
    intro c
    rw [Numeral.text, List.mem_append, List.mem_append, List.mem_append]
  refine ⟨?_, ?_, ?_⟩
  · rw [List.eq_nil_iff_forall_not_mem]
    intro c hc
    have hspace := isspace_of_isdigit (h c ((hmem c).mpr (.inl (.inl (.inl hc)))))
    rw [n.blanks_space c hc] at hspace
    cases hspace
  · have hsign : ∀ c ∈ n.sign, c ≠ 0x2d ∧ c ≠ 0x2b := fun c hc =>
      sign_of_isdigit (h c ((hmem c).mpr (.inl (.inl (.inr hc)))))
    rcases n.sign_one with hnone | hplus | hminus
    · exact hnone
    · exact absurd rfl (hsign 0x2b (by rw [hplus]; exact List.mem_singleton_self _)).2
    · exact absurd rfl (hsign 0x2d (by rw [hminus]; exact List.mem_singleton_self _)).1
  · cases hrest : n.rest with
    | nil => rfl
    | cons c rest =>
        have hnot := n.rest_behind c (by rw [hrest]; rfl)
        rw [h c ((hmem c).mpr (.inr (by rw [hrest]; exact List.mem_cons_self)))] at hnot
        cases hnot

/-- A value that is the number it gives. -/
theorem denotes_bare {n : Numeral} (h : n.Bare) (hfits : Fits n) : Denotes n.text n.number := by
  rw [h.text_eq, h.number_eq]
  have hlt := hfits.2
  rw [h.number_eq] at hlt
  exact ⟨n.digits_some, n.digits_decimal, rfl, by omega⟩

theorem gives_of_denotes {value : Bytes} {len : Int} (h : Denotes value len) :
    ∃ number : Nat, Gives value number ∧ len = number := by
  obtain ⟨hsome, hdigits, hlen, hle⟩ := h
  have hlt : decimal value < 2 ^ 63 := by omega
  obtain ⟨n, htext, hdecimal, hnumber⟩ := stoul_numeral (stoul_decimal hsome hdigits (by omega))
  exact ⟨_, ⟨n, htext, ⟨hdecimal, hnumber ▸ hlt⟩, hnumber⟩, hlen⟩

/-- From the value of the only Content-Length field, the length is read that it denotes,
and no other value is read, exactly when there is nothing around the digits of a number
that fits. -/
theorem getContentLength_denotes_iff {field : Bytes × Bytes} (find : Find)
    (h : headers.filter isContentLength = [field]) :
    (∀ len, getContentLength find headers = .ok len ↔ Denotes field.2 len) ↔
      ∀ n : Numeral, n.text = field.2 → Fits n → n.Bare := by
  have hmem : ∀ other, other ∈ headers ∧ isContentLength other = true ↔ other = field := by
    intro other
    rw [← List.mem_filter, h, List.mem_singleton]
  obtain ⟨other, hother, hlength, hread⟩ :=
    getContentLength_field find ⟨field, (hmem field).mpr rfl⟩
  rw [(hmem other).mp ⟨hother, hlength⟩] at hread
  constructor
  · intro hdenotes n htext hfits
    have hdenoted := (hdenotes n.number).mp ((ok_lengthOf hread).mpr ⟨n.number, ⟨n, htext, hfits, rfl⟩, rfl⟩)
    exact bare_of_digits (htext ▸ hdenoted.2.1)
  · intro hbare len
    rw [ok_lengthOf hread]
    constructor
    · rintro ⟨_, ⟨n, htext, hfits, rfl⟩, rfl⟩
      rw [← htext]
      exact denotes_bare (hbare n htext hfits) hfits
    · exact gives_of_denotes

/-- A length of two digits is taken for the number it denotes. -/
theorem getContentLength_twelve :
    getContentLength .first [(octets "host", octets "a"), (octets "content-length", octets "12")] =
      .ok 12 ↔ Denotes (octets "12") 12 := by
  have hfilter : [(octets "host", octets "a"), (octets "content-length", octets "12")].filter
      isContentLength = [(octets "content-length", octets "12")] := by decide
  exact (getContentLength_denotes_iff .first hfilter).mpr
    (fun _ htext _ => bare_of_digits (by rw [htext]; decide)) 12

/-- A sign in front of a length. -/
theorem sign_read :
    ¬ ∀ (find : Find) (headers : Headers) (field : Bytes × Bytes),
      headers.filter isContentLength = [field] →
        ∀ len, getContentLength find headers = .ok len ↔ Denotes field.2 len := by
  intro h
  obtain ⟨-, hdigits, -⟩ :=
    (h .first [(octets "content-length", octets "+5")] _ rfl 5).mp (by decide)
  exact absurd (hdigits 0x2b (by decide)) (by decide)

end Shitty.Http1
