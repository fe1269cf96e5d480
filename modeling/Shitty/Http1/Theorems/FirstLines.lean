import Shitty.Core.Theorems.Date
import Shitty.Http1.FirstLines

/-!
# First lines there and back

Which lines are read, and as what: a status line and a request line are each two words and
the rest, with one space in between. What the transports write is among them, as long as
there is no space in a method or a path.
-/

namespace Shitty.Http1

open Date (digit)

/-! ## Status codes -/

/-- The three digits of a number below 1000. -/
def three (code : Nat) : Bytes :=
  [digit (code / 100), digit (code % 100 / 10), digit (code % 10)]

@[simp] theorem length_three (code : Nat) : (three code).length = 3 := rfl

theorem three_space (code : Nat) (h : code < 1000) : SP ∉ three code := by
  have hdigit : ∀ n < 10, SP ≠ digit n := by decide
  simp only [three, List.mem_cons, List.not_mem_nil, or_false, not_or]
  exact ⟨hdigit _ (by omega), hdigit _ (by omega), hdigit _ (by omega)⟩

theorem decimalValue_ok {c : Octet} {n : Nat} :
    decimalValue c = .ok n ↔ n < 10 ∧ c = digit n := by
  unfold decimalValue
  constructor
  · intro h
    split at h
    · cases h
    · rename_i hdigit
      have hrange := isdigit_iff.mp (not_not.mp hdigit)
      cases h
      refine ⟨by omega, BitVec.eq_of_toNat_eq ?_⟩
      rw [Date.digit_toNat (by omega)]
      omega
  · rintro ⟨hlt, rfl⟩
    rw [if_neg (not_not.mpr (Date.isdigit_digit hlt)), Date.digit_toNat (by omega),
      Nat.add_sub_cancel_left]

/-- Three digits are the number they are the digits of. -/
theorem codeToNumber_ok {code : Bytes} (h : code.length = 3) {n : Nat} :
    codeToNumber code = .ok n ↔ n ≤ 999 ∧ code = three n := by
  obtain ⟨a, b, c, rfl⟩ := Date.eq_three h
  have hget : ∀ hundreds tens ones, (codeToNumber [a, b, c] = .ok n ∧ decimalValue a = .ok hundreds ∧
      decimalValue b = .ok tens ∧ decimalValue c = .ok ones) →
      n = hundreds * 100 + tens * 10 + ones := by
    rintro hundreds tens ones ⟨hcode, ha, hb, hc⟩
    simp only [codeToNumber, List.getD_cons_zero, List.getD_cons_succ, ha, hb, hc, ok_bind] at hcode
    exact (Except.ok.inj hcode).symm
  constructor
  · intro hcode
    obtain ⟨hundreds, ha, hrest⟩ := bind_eq_ok.mp hcode
    obtain ⟨tens, hb, hrest⟩ := bind_eq_ok.mp hrest
    obtain ⟨ones, hc, -⟩ := bind_eq_ok.mp hrest
    have hn := hget _ _ _ ⟨hcode, ha, hb, hc⟩
    obtain ⟨h2, rfl⟩ := decimalValue_ok.mp ha
    obtain ⟨h1, rfl⟩ := decimalValue_ok.mp hb
    obtain ⟨h0, rfl⟩ := decimalValue_ok.mp hc
    refine ⟨by omega, ?_⟩
    rw [three, show n / 100 = hundreds by omega, show n % 100 / 10 = tens by omega,
      show n % 10 = ones by omega]
  · rintro ⟨hle, hdigits⟩
    simp only [three, List.cons.injEq, and_true] at hdigits
    obtain ⟨rfl, rfl, rfl⟩ := hdigits
    have hvalue : ∀ m < 10, decimalValue (digit m) = .ok m :=
      fun m hm => decimalValue_ok.mpr ⟨hm, rfl⟩
    simp only [codeToNumber, List.getD_cons_zero, List.getD_cons_succ]
    rw [hvalue _ (by omega), ok_bind, hvalue _ (by omega), ok_bind, hvalue _ (by omega), ok_bind]
    exact congrArg Except.ok (by omega)

theorem to_string_code {code : Nat} (h : 100 ≤ code) (hle : code ≤ 999) :
    to_string code = three code := by
  have hlast : ∀ n, n < 10 → to_string n = [digit n] := by
    intro n hn
    rw [to_string_eq, if_pos hn, Nat.mod_eq_of_lt hn]
    rfl
  rw [to_string_eq, if_neg (by omega), to_string_eq, if_neg (by omega), hlast _ (by omega),
    Nat.div_div_eq_div_mul, show code / 10 % 10 = code % 100 / 10 by omega]
  rfl

theorem statusStrings_get {code : UInt32} {str : Bytes} :
    StatusStrings.get code = .ok str ↔ (100 ≤ code ∧ code ≤ 599) ∧ str = three code.toNat := by
  have hrange : (100 ≤ code ∧ code ≤ 599) ↔ 100 ≤ code.toNat ∧ code.toNat ≤ 599 := by
    rw [UInt32.le_iff_toNat_le, UInt32.le_iff_toNat_le]
    rfl
  have hcode : code < 100 ∨ code > 599 ↔ ¬ (100 ≤ code ∧ code ≤ 599) := by
    rw [not_and_or, UInt32.not_le, UInt32.not_le]
  unfold StatusStrings.get
  by_cases hinside : 100 ≤ code ∧ code ≤ 599
  · rw [if_neg fun h => hcode.mp h hinside]
    obtain ⟨hge, hle⟩ := hrange.mp hinside
    have hentry : StatusStrings.strs_.getD (code - 100).toNat [] = three code.toNat := by
      have hsub : (code - 100).toNat = code.toNat - 100 := UInt32.toNat_sub_of_le _ _ hinside.1
      have hlt : code.toNat - 100 < 500 := by omega
      rw [hsub, StatusStrings.strs_, List.getD_eq_getElem?_getD, List.getElem?_map,
        List.getElem?_range hlt, Option.map_some, Option.getD_some,
        show 100 + (code.toNat - 100) = code.toNat by omega, to_string_code (by omega) (by omega)]
      rfl
    rw [hentry, Except.ok.injEq]
    exact ⟨fun h => ⟨hinside, h.symm⟩, fun h => h.2.symm⟩
  · rw [if_pos (hcode.mpr hinside)]
    exact iff_of_false (fun h => by cases h) fun h => hinside h.1

/-! ## Status lines -/

def VERSION : Bytes := octets "HTTP/1.1"

/-- The one reason phrase, which the source has for all codes. -/
def REASON : Bytes := [0xf0, 0x9f, 0x98, 0x8e]

theorem version_space : SP ∉ VERSION := by decide +kernel

/-- A line for each of the codes from 100 to 599, and `std::range_error` for all others. -/
theorem statusLine_ok {code : UInt64} {line : Bytes} :
    statusLine code = .ok line ↔ (100 ≤ code.toUInt32 ∧ code.toUInt32 ≤ 599) ∧
      line = VERSION ++ SP :: three code.toUInt32.toNat ++ SP :: REASON := by
  have htemplate : octets "HTTP/1.1 xxx " = VERSION ++ SP :: [0x78, 0x78, 0x78] ++ [SP] := by
    decide +kernel
  have hversion : VERSION = [0x48, 0x54, 0x54, 0x50, 0x2f, 0x31, 0x2e, 0x31] := by
    decide +kernel
  have hset : ∀ a b c : Octet, (((octets "HTTP/1.1 xxx " ++ REASON).set 9 a).set 10 b).set 11 c =
      VERSION ++ SP :: [a, b, c] ++ SP :: REASON := by
    intro a b c
    rw [htemplate, hversion]
    simp
  unfold statusLine
  rw [bind_eq_ok]
  constructor
  · rintro ⟨str, hstr, hline⟩
    obtain ⟨hcode, rfl⟩ := statusStrings_get.mp hstr
    cases hline
    exact ⟨hcode, hset _ _ _⟩
  · rintro ⟨hcode, rfl⟩
    refine ⟨three code.toUInt32.toNat, statusStrings_get.mpr ⟨hcode, rfl⟩, ?_⟩
    exact congrArg Except.ok (hset _ _ _)

/-- A response has a first line exactly for the codes from 100 to 599, and it is the one of its
code. -/
theorem statusLine_response {resp : Response} {line : Bytes} :
    statusLine resp.status_code_.toUInt64 = .ok line ↔ Sendable resp ∧
      line = VERSION ++ SP :: three resp.status_code_.toNat ++ SP :: REASON := by
  rw [statusLine_ok, UInt32.toUInt32_toUInt64]
  rfl

/-- The lines that are read: two words, the second one of three digits, and the rest. -/
theorem parseStatusLine_ok {line : Bytes} {s : StatusLine} :
    parseStatusLine line = .ok s ↔
      (SP ∉ s.version ∧ s.code ≤ 999) ∧
        line = s.version ++ SP :: three s.code ++ SP :: s.reason_phrase := by
  constructor
  · intro h
    by_cases hwords : ∃ first second rest, SP ∉ first ∧ SP ∉ second ∧
        line = first ++ SP :: second ++ SP :: rest
    · obtain ⟨first, second, rest, hfirst, hsecond, rfl⟩ := hwords
      obtain ⟨htake, hmiddle, hdrop⟩ := words_between first second rest
      rw [parseStatusLine, findSpaces_words rest hfirst hsecond] at h
      simp only [htake, hmiddle, hdrop] at h
      split at h
      · cases h
      · rename_i hlen
        split at h
        · cases h
        · rename_i code hcode
          cases h
          obtain ⟨hle, heq⟩ := (codeToNumber_ok (not_not.mp hlen)).mp hcode
          exact ⟨⟨hfirst, hle⟩, by rw [← heq]⟩
    · obtain ⟨e, he⟩ := findSpaces_error fun first second rest hfirst hsecond hline =>
        hwords ⟨first, second, rest, hfirst, hsecond, hline⟩
      rw [parseStatusLine, he] at h
      cases h
  · rintro ⟨⟨hversion, hle⟩, rfl⟩
    obtain ⟨htake, hmiddle, hdrop⟩ := words_between s.version (three s.code) s.reason_phrase
    rw [parseStatusLine, findSpaces_words _ hversion (three_space _ (by omega))]
    simp only [htake, hmiddle, hdrop]
    rw [if_neg (by simp), (codeToNumber_ok rfl).mpr ⟨hle, rfl⟩]

/-! ## Request lines -/

theorem parseRequestLine_iff {line : Bytes} {r : RequestLine} :
    parseRequestLine line = .ok r ↔
      (SP ∉ r.method ∧ SP ∉ r.path) ∧ line = r.method ++ SP :: r.path ++ SP :: r.version := by
  constructor
  · intro h
    by_cases hwords : ∃ first second rest, SP ∉ first ∧ SP ∉ second ∧
        line = first ++ SP :: second ++ SP :: rest
    · obtain ⟨first, second, rest, hfirst, hsecond, rfl⟩ := hwords
      obtain ⟨htake, hmiddle, hdrop⟩ := words_between first second rest
      rw [parseRequestLine_eq, findSpaces_words rest hfirst hsecond] at h
      simp only [htake, hmiddle, hdrop] at h
      cases h
      exact ⟨⟨hfirst, hsecond⟩, rfl⟩
    · obtain ⟨e, he⟩ := findSpaces_error fun first second rest hfirst hsecond hline =>
        hwords ⟨first, second, rest, hfirst, hsecond, hline⟩
      rw [parseRequestLine_eq, he] at h
      cases h
  · rintro ⟨⟨hmethod, hpath⟩, rfl⟩
    exact parseRequestLine_ok _ hmethod hpath

theorem requestLine_eq (req : Request) :
    requestLine req = req.method_ ++ SP :: req.path_ ++ SP :: VERSION := by
  have hversion : octets " HTTP/1.1" = SP :: VERSION := by decide +kernel
  rw [requestLine, hversion, List.append_assoc, List.append_assoc, List.singleton_append,
    List.append_assoc, List.cons_append]

/-- A number that is read has three digits, so that it fits the 32 bits that are looked at. -/
theorem code_range {code : UInt64} (h : code.toNat ≤ 999) :
    (100 ≤ code.toUInt32 ∧ code.toUInt32 ≤ 599) ↔ 100 ≤ code ∧ code ≤ 599 := by
  have hlower : code.toUInt32.toNat = code.toNat := by
    rw [UInt64.toNat_toUInt32]
    exact Nat.mod_eq_of_lt (by omega)
  rw [UInt32.le_iff_toNat_le, UInt32.le_iff_toNat_le, UInt64.le_iff_toNat_le,
    UInt64.le_iff_toNat_le, hlower]
  rfl

/-- What is read of what the transports write: every code that can be written, and every
method and path without a space in it. -/
theorem first_lines_exact :
    (∀ line s, parseStatusLine line = .ok s ↔ (SP ∉ s.version ∧ s.code ≤ 999) ∧
        line = s.version ++ SP :: three s.code ++ SP :: s.reason_phrase) ∧
      (∀ line r, parseRequestLine line = .ok r ↔ (SP ∉ r.method ∧ SP ∉ r.path) ∧
        line = r.method ++ SP :: r.path ++ SP :: r.version) ∧
      (∀ code : UInt64, (statusLine code >>= parseStatusLine) =
          .ok { code := code.toNat, reason_phrase := REASON, version := VERSION } ↔
        100 ≤ code ∧ code ≤ 599) ∧
      ∀ req : Request, parseRequestLine (requestLine req) =
          .ok { method := req.method_, path := req.path_, version := VERSION } ↔
        SP ∉ req.method_ ∧ SP ∉ req.path_ := by
  refine ⟨fun _ _ => parseStatusLine_ok, fun _ _ => parseRequestLine_iff, fun code => ?_,
    fun req => ?_⟩
  · rw [bind_eq_ok]
    constructor
    · rintro ⟨line, hline, hparse⟩
      have hdigits : code.toNat ≤ 999 := (parseStatusLine_ok.mp hparse).1.2
      exact (code_range hdigits).mp (statusLine_ok.mp hline).1
    · intro hcode
      have hdigits : code.toNat ≤ 999 :=
        Nat.le_trans (UInt64.le_iff_toNat_le.mp hcode.2) (by decide)
      have hlower : code.toUInt32.toNat = code.toNat := by
        rw [UInt64.toNat_toUInt32]
        exact Nat.mod_eq_of_lt (by omega)
      refine ⟨_, statusLine_ok.mpr ⟨(code_range hdigits).mpr hcode, rfl⟩, ?_⟩
      rw [hlower]
      exact parseStatusLine_ok.mpr ⟨⟨version_space, hdigits⟩, rfl⟩
  · rw [parseRequestLine_iff]
    exact and_iff_left (requestLine_eq req)

end Shitty.Http1
