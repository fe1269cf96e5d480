import Shitty.Http1.HTTP1

/-!
# First lines

`StatusStrings.cpp`, and the parts of `http1/HTTP1.cpp` that write the first line of a
message and read a status line. A line is read by the places of its first two spaces.
The lemmas at the end say what that comes to for lines that are made of words.
-/

namespace Shitty

/-! ## Status codes -/

namespace StatusStrings

/-- What the constructor makes: the codes from 100 on, three characters each. -/
def strs_ : List Bytes := (List.range 500).map fun i => (to_string (100 + i)).take 3

/-- The parameter is an `unsigned`. `std::range_error` is a `std::runtime_error`. -/
def get (code : UInt32) : Except Exn Bytes :=
  if code < 100 ∨ code > 599 then .error (.runtime_error "invalid status code")
  else .ok (strs_.getD (code - 100).toNat [])

end StatusStrings

namespace Http1

/-! ## Writing -/

def requestLine (req : Request) : Bytes :=
  req.method_ ++ [SP] ++ req.path_ ++ octets " HTTP/1.1"

/-- A `uint_fast16_t` has 64 bits here, of which `status_strings` looks at the lower half. -/
def statusLine (statusCode : UInt64) : Except Exn Bytes := do
  let status := octets "HTTP/1.1 xxx " ++ [0xf0, 0x9f, 0x98, 0x8e]
  let str ← StatusStrings.get statusCode.toUInt32
  let status := (status.set 9 (str.getD 0 0)).set 10 (str.getD 1 0)
  return status.set 11 (str.getD 2 0)

/-- A code for which `statusLine` has a line, and throws nothing. -/
def Sendable (resp : Response) : Prop := 100 ≤ resp.status_code_ ∧ resp.status_code_ ≤ 599

instance (resp : Response) : Decidable (Sendable resp) := inferInstanceAs (Decidable (_ ∧ _))

theorem statusLine_cases (resp : Response) :
    (Sendable resp ∧ ∃ line, statusLine resp.status_code_.toUInt64 = .ok line) ∨
      (¬ Sendable resp ∧ statusLine resp.status_code_.toUInt64 =
        .error (.runtime_error "invalid status code")) := by
  have hcode : resp.status_code_ < 100 ∨ resp.status_code_ > 599 ↔ ¬ Sendable resp := by
    rw [Sendable, not_and_or, UInt32.not_le, UInt32.not_le]
  unfold statusLine StatusStrings.get
  rw [UInt32.toUInt32_toUInt64]
  by_cases hsendable : Sendable resp
  · rw [if_neg fun h => hcode.mp h hsendable]
    exact .inl ⟨hsendable, _, rfl⟩
  · rw [if_pos (hcode.mpr hsendable)]
    exact .inr ⟨hsendable, rfl⟩

/-! ## Reading -/

structure StatusLine where
  code : Nat
  reason_phrase : Bytes
  version : Bytes
  deriving DecidableEq, Repr

def decimalValue (c : Octet) : Except Exn Nat :=
  if ¬ isdigit c then .error (.invalid_argument "non-decimal digit") else .ok (c.toNat - 0x30)

def codeToNumber (code : Bytes) : Except Exn Nat := do
  let hundreds ← decimalValue (code.getD 0 0)
  let tens ← decimalValue (code.getD 1 0)
  let ones ← decimalValue (code.getD 2 0)
  return hundreds * 100 + tens * 10 + ones

/-- The characters of a string, in the text of an exception. -/
def text (s : Bytes) : String := String.ofList (s.map fun c => Char.ofNat c.toNat)

/-- Where the first two spaces of a line are; without them, an exception. -/
def findSpaces (s : Bytes) : Except Exn (Nat × Nat) := do
  let sp1 ← findNextSpaceOrThrow s 0
  let sp2 ← findNextSpaceOrThrow s (sp1 + 1)
  return (sp1, sp2)

def parseStatusLine (status_line : Bytes) : Except Exn StatusLine :=
  match findSpaces status_line with
  | .error _ => .error (.ProtocolError "Malformed status line")
  | .ok (sp1, sp2) =>
      let version := status_line.take sp1
      let code := (status_line.drop (sp1 + 1)).take (sp2 - sp1 - 1)
      let reason_phrase := status_line.drop (sp2 + 1)
      if code.length ≠ 3 then .error (.ProtocolError ("Invalid status code: " ++ text code))
      else
        match codeToNumber code with
        | .error _ => .error (.ProtocolError ("Invalid status code: " ++ text code))
        | .ok numeric_code =>
            .ok { code := numeric_code, reason_phrase := reason_phrase, version := version }

/-! ## Words between spaces -/

/-- Two words without spaces, a space behind each, and the rest. -/
theorem findSpaces_words {first second : Bytes} (rest : Bytes) (hfirst : SP ∉ first)
    (hsecond : SP ∉ second) :
    findSpaces (first ++ SP :: second ++ SP :: rest) =
      .ok (first.length, first.length + 1 + second.length) := by
  have hsp1 := findNextSpace_behind [] (second ++ SP :: rest) hfirst
  have hsp2 := findNextSpace_behind (first ++ [SP]) rest hsecond
  simp only [List.nil_append, List.length_nil, Nat.zero_add, List.append_assoc, List.cons_append,
    List.length_append, List.length_singleton] at hsp1 hsp2
  simp only [findSpaces, List.append_assoc, List.cons_append, hsp1, hsp2, ok_bind]
  rfl

theorem findNextSpace_error {s : Bytes} {start : Nat} :
    (∃ e, findNextSpaceOrThrow s start = .error e) ↔ SP ∉ s.drop start := by
  unfold findNextSpaceOrThrow
  cases hfind : (s.drop start).findIdx? fun c => c == SP with
  | none =>
      rw [List.findIdx?_eq_none_iff] at hfind
      refine iff_of_true ⟨_, rfl⟩ fun hmem => ?_
      have := hfind SP hmem
      simp at this
  | some sp =>
      refine iff_of_false (fun ⟨e, he⟩ => by cases he) fun hnot => ?_
      obtain ⟨hlt, heq, -⟩ := List.findIdx?_eq_some_iff_getElem.mp hfind
      exact hnot (beq_iff_eq.mp heq ▸ List.getElem_mem hlt)

/-- Where the two spaces are missing, that is what is thrown. -/
theorem findSpaces_error {s : Bytes} (h : ∀ first second rest, SP ∉ first → SP ∉ second →
    s ≠ first ++ SP :: second ++ SP :: rest) : ∃ e, findSpaces s = .error e := by
  by_cases hone : SP ∈ s
  · obtain ⟨first, behind, hsplit, hfirst⟩ := List.eq_append_cons_of_mem hone
    have htwo : SP ∉ behind := by
      intro hmem
      obtain ⟨second, rest, rfl, hsecond⟩ := List.eq_append_cons_of_mem hmem
      exact h first second rest hfirst hsecond (by rw [hsplit, List.append_assoc, List.cons_append])
    have hsp1 := findNextSpace_behind [] behind hfirst
    simp only [List.nil_append, List.length_nil, Nat.zero_add, ← hsplit] at hsp1
    have hdrop : s.drop (first.length + 1) = behind := by
      rw [hsplit]
      simp [List.drop_append]
    obtain ⟨e, he⟩ := findNextSpace_error.mpr (hdrop ▸ htwo)
    exact ⟨e, by rw [findSpaces, hsp1, ok_bind, he, error_bind]⟩
  · have hnone : SP ∉ s.drop 0 := hone
    obtain ⟨e, he⟩ := findNextSpace_error.mpr hnone
    exact ⟨e, by rw [findSpaces, he, error_bind]⟩

/-- The words are what is between the spaces. -/
theorem words_between (first second rest : Bytes) :
    (first ++ SP :: second ++ SP :: rest).take first.length = first ∧
      ((first ++ SP :: second ++ SP :: rest).drop (first.length + 1)).take
        (first.length + 1 + second.length - first.length - 1) = second ∧
      (first ++ SP :: second ++ SP :: rest).drop (first.length + 1 + second.length + 1) = rest := by
  have hsecond : (first ++ SP :: second ++ SP :: rest).drop (first.length + 1) =
      second ++ SP :: rest := by
    simp [List.drop_append]
  have hcount : first.length + 1 + second.length - first.length - 1 = second.length := by omega
  refine ⟨by simp, by rw [hsecond, hcount, List.take_left], ?_⟩
  rw [show first.length + 1 + second.length + 1 = (first.length + 1) + (second.length + 1) by omega,
    ← List.drop_drop, hsecond]
  simp [List.drop_append]

theorem parseRequestLine_eq (request_line : Bytes) :
    parseRequestLine request_line =
      match findSpaces request_line with
      | .ok (sp1, sp2) => .ok
          { method := request_line.take sp1
            path := (request_line.drop (sp1 + 1)).take (sp2 - sp1 - 1)
            version := request_line.drop (sp2 + 1) }
      | .error _ => .error (.ProtocolError "Malformed request line") := rfl

end Http1

end Shitty
