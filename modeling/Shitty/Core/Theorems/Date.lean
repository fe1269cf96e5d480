import Mathlib.Data.List.Induction
import Shitty.Core.Date

/-!
# Dates there and back

`Date::now` writes the one date in the fixed format of HTTP that stands for its time, up
to the year 9999, and none behind it. A fixdate is stated by its parts: a weekday and a
month by their names, numbers by their decimal digits. From the string each part is read
back, so that no other time has it.
-/

namespace Shitty.Date

/-! ## Decimal digits -/

/-- `k` decimal digits for a number. -/
structure Digits (k number : Nat) (s : Bytes) : Prop where
  length : s.length = k
  digits : ∀ c ∈ s, isdigit c = true
  value : decimal s = number

/-- There is one way to write a number. -/
theorem Digits.unique {k : Nat} {s t : Bytes} : ∀ {number : Nat}, Digits k number s →
    Digits k number t → s = t := by
  induction s using List.reverseRecOn generalizing k t with
  | nil =>
      intro number hs ht
      have hlen : t.length = 0 := ht.length.trans hs.length.symm
      exact (List.length_eq_zero_iff.mp hlen).symm
  | append_singleton s c ih =>
      intro number hs ht
      have hlen : t.length = s.length + 1 := by
        rw [ht.length, ← hs.length, List.length_append, List.length_singleton]
      obtain ⟨t, d, rfl⟩ := (List.eq_nil_or_concat' t).resolve_left (by
        rintro rfl
        simp at hlen)
      have hc := isdigit_iff.mp (hs.digits c (by simp))
      have hd := isdigit_iff.mp (ht.digits d (by simp))
      -- the last digit is the remainder, and those in front of it are the quotient
      have hvalue := hs.value.trans ht.value.symm
      rw [decimal_snoc, decimal_snoc] at hvalue
      have hlast : c = d := BitVec.eq_of_toNat_eq (by omega)
      have hfirst : Digits s.length (decimal s) s :=
        ⟨rfl, fun c hc => hs.digits c (List.mem_append_left _ hc), rfl⟩
      have hother : Digits s.length (decimal s) t :=
        ⟨by simpa using hlen, fun c hc => ht.digits c (List.mem_append_left _ hc), by omega⟩
      have hfront : s = t := ih hfirst hother
      rw [hlast, hfront]

theorem digit_toNat {n : Nat} (h : n < 208) : (digit n).toNat = 0x30 + n := by
  rw [digit, BitVec.toNat_add, BitVec.toNat_ofNat, Nat.mod_eq_of_lt (show n < 2 ^ 8 by omega)]
  exact Nat.mod_eq_of_lt (by simp; omega)

theorem isdigit_digit {n : Nat} (h : n < 10) : isdigit (digit n) = true := by
  rw [isdigit_iff, digit_toNat (by omega)]
  omega

/-- A number below 256 is told by what is added to `'0'`. -/
theorem digit_inj {m n : Nat} (hm : m < 256) (hn : n < 256) (h : digit m = digit n) : m = n := by
  have hsame := congrArg BitVec.toNat h
  simp only [digit, BitVec.toNat_add, BitVec.toNat_ofNat] at hsame
  omega

theorem two_digits {n : Nat} (h : n < 100) : Digits 2 n (two n) where
  length := rfl
  digits c hc := by
    simp only [two, List.mem_cons, List.not_mem_nil, or_false] at hc
    rcases hc with rfl | rfl <;> exact isdigit_digit (by omega)
  value := by
    simp only [two, decimal, List.foldl_cons, List.foldl_nil]
    rw [digit_toNat (by omega), digit_toNat (by omega)]
    omega

theorem four_digits {n : Nat} (h : n < 10000) : Digits 4 n (four n) where
  length := rfl
  digits c hc := by
    simp only [four, List.mem_cons, List.not_mem_nil, or_false] at hc
    rcases hc with rfl | rfl | rfl | rfl <;> exact isdigit_digit (by omega)
  value := by
    simp only [four, decimal, List.foldl_cons, List.foldl_nil]
    rw [digit_toNat (by omega), digit_toNat (by omega), digit_toNat (by omega),
      digit_toNat (by omega)]
    omega

theorem two_inj {m n : Nat} (hm : m < 100) (hn : n < 100) (h : two m = two n) : m = n := by
  simp only [two, List.cons.injEq, and_true] at h
  have htens := digit_inj (by omega) (by omega) h.1
  have hones := digit_inj (by omega) (by omega) h.2
  omega

theorem four_inj {m n : Nat} (hm : m < 256000) (hn : n < 256000) (h : four m = four n) :
    m = n := by
  simp only [four, List.cons.injEq, and_true] at h
  have h3 := digit_inj (by omega) (by omega) h.1
  have h2 := digit_inj (by omega) (by omega) h.2.1
  have h1 := digit_inj (by omega) (by omega) h.2.2.1
  have h0 := digit_inj (by omega) (by omega) h.2.2.2
  omega

/-! ## The format -/

/-- `IMF-fixdate` for a time: four digits for the year, two for the other numbers. -/
def Fixdate (tm : Tm) (s : Bytes) : Prop :=
  ∃ d y h m sec, Digits 2 tm.tm_mday d ∧ Digits 4 (year tm) y ∧ Digits 2 tm.tm_hour h ∧
    Digits 2 tm.tm_min m ∧ Digits 2 tm.tm_sec sec ∧
    s = daysOfWeek.get tm.tm_wday ++ octets ", " ++ d ++ [SP] ++ months.get tm.tm_mon ++ [SP] ++
      y ++ [SP] ++ h ++ [COLON] ++ m ++ [COLON] ++ sec ++ octets " GMT"

theorem Digits.lt {k number : Nat} {s : Bytes} (h : Digits k number s) : number < 10 ^ k := by
  induction s using List.reverseRecOn generalizing k number with
  | nil =>
      rw [← h.value]
      exact Nat.pow_pos (by omega)
  | append_singleton s c ih =>
      have hc := isdigit_iff.mp (h.digits c (by simp))
      have hfront : decimal s < 10 ^ s.length :=
        ih ⟨rfl, fun c hc => h.digits c (List.mem_append_left _ hc), rfl⟩
      rw [← h.value, ← h.length, decimal_snoc, List.length_append, List.length_singleton,
        Nat.pow_succ]
      omega

theorem fixdate_now {tm : Tm} (h : year tm ≤ 9999) : Fixdate tm (now tm) :=
  ⟨_, _, _, _, _, two_digits (by omega), four_digits (by omega), two_digits (by omega),
    two_digits (by omega), two_digits (by omega), now_eq tm⟩

theorem fixdate_iff (tm : Tm) (s : Bytes) : Fixdate tm s ↔ s = now tm ∧ year tm ≤ 9999 := by
  constructor
  · rintro ⟨d, y, h, m, sec, hd, hy, hh, hm, hsec, rfl⟩
    have hyear := hy.lt
    have hle : year tm ≤ 9999 := by omega
    refine ⟨?_, hle⟩
    obtain rfl := hd.unique (two_digits (by omega))
    obtain rfl := hy.unique (four_digits (by omega))
    obtain rfl := hh.unique (two_digits (by omega))
    obtain rfl := hm.unique (two_digits (by omega))
    obtain rfl := hsec.unique (two_digits (by omega))
    exact (now_eq tm).symm
  · rintro ⟨hs, hle⟩
    rw [hs]
    exact fixdate_now hle

/-- Distinct times are written differently, as long as the thousands of a year make one octet. -/
theorem now_inj {tm tm' : Tm} (hyear : year tm < 256000) (hyear' : year tm' < 256000)
    (h : now tm = now tm') : tm = tm' := by
  have hdays : ∀ day day' : Fin 7, daysOfWeek.get day = daysOfWeek.get day' → day = day' := by
    decide +kernel
  have hmonths : ∀ month month' : Fin 12, months.get month = months.get month' →
      month = month' := by
    decide +kernel
  rw [now_eq, now_eq] at h
  simp only [List.append_assoc] at h
  obtain ⟨hday, h⟩ := List.append_inj h (by rw [daysOfWeek_three, daysOfWeek_three])
  obtain ⟨hmday, h⟩ := List.append_inj (List.append_cancel_left h) (by simp)
  obtain ⟨hmonth, h⟩ := List.append_inj (List.append_cancel_left h)
    (by rw [months_three, months_three])
  obtain ⟨hyears, h⟩ := List.append_inj (List.append_cancel_left h) (by simp)
  obtain ⟨hhour, h⟩ := List.append_inj (List.append_cancel_left h) (by simp)
  obtain ⟨hmin, h⟩ := List.append_inj (List.append_cancel_left h) (by simp)
  obtain ⟨hsec, -⟩ := List.append_inj (List.append_cancel_left h) (by simp)
  have hmday := two_inj (by omega) (by omega) hmday
  have hyears : year tm = year tm' := four_inj hyear hyear' hyears
  have hhour := two_inj (by omega) (by omega) hhour
  have hmin := two_inj (by omega) (by omega) hmin
  have hsec := two_inj (by omega) (by omega) hsec
  obtain ⟨sec, min, hour, mday, mon, years, wday⟩ := tm
  obtain ⟨sec', min', hour', mday', mon', years', wday'⟩ := tm'
  simp only [Tm.mk.injEq]
  exact ⟨Fin.ext hsec, Fin.ext hmin, Fin.ext hhour, Fin.ext hmday, hmonths _ _ hmonth,
    Nat.add_right_cancel hyears, hdays _ _ hday⟩

/-- What is written is the one date of its time up to the year 9999, and behind it no date of
any time. Distinct times are written differently, also behind it. -/
theorem now_reads_back (tm tm' : Tm) (hyear : year tm < 256000) :
    (∀ s, Fixdate tm s ↔ s = now tm ∧ year tm ≤ 9999) ∧
      (Fixdate tm' (now tm) ↔ tm' = tm ∧ year tm ≤ 9999) ∧
      (year tm' < 256000 → now tm = now tm' → tm = tm') := by
  refine ⟨fixdate_iff tm, ?_, now_inj hyear⟩
  rw [fixdate_iff]
  constructor
  · rintro ⟨hsame, hle⟩
    have htm := now_inj hyear (by omega) hsame
    exact ⟨htm.symm, htm ▸ hle⟩
  · rintro ⟨rfl, hle⟩
    exact ⟨rfl, hle⟩

/-- The time of day of the sample, a year later. -/
def later : Tm := { sample with tm_year := 95 }

theorem now_reads_back_sample :
    (∀ s, Fixdate sample s ↔ s = now sample ∧ year sample ≤ 9999) ∧
      (Fixdate later (now sample) ↔ later = sample ∧ year sample ≤ 9999) ∧
      (year later < 256000 → now sample = now later → sample = later) :=
  now_reads_back sample later (by decide)

end Shitty.Date
