import Shitty.Core.StringUtils
import Mathlib.Data.Vector.Basic

/-!
# Dates

`Date.cpp`, over what `gmtime_r` makes of the time. The moment is a record of its parts
within the bounds that C has for them, and what `now` writes into its template is put
together part by part.
-/

namespace Shitty

/-- `struct tm`, for a time from 1970 on. -/
structure Tm where
  tm_sec : Fin 61
  tm_min : Fin 60
  tm_hour : Fin 24
  tm_mday : Fin 32
  tm_mon : Fin 12
  /-- Counted from 1900 on, as in C. -/
  tm_year : Nat
  tm_wday : Fin 7
  deriving DecidableEq, Repr

namespace Date

def daysOfWeek : List.Vector Bytes 7 :=
  ⟨["Sun", "Mon", "Tue", "Wed", "Thu", "Fri", "Sat"].map octets, rfl⟩

def months : List.Vector Bytes 12 :=
  ⟨["Jan", "Feb", "Mar", "Apr", "May", "Jun", "Jul", "Aug", "Sep", "Oct", "Nov", "Dec"].map octets,
    rfl⟩

/-- `'0' + n`, as a `char`. -/
def digit (n : Nat) : Octet := 0x30 + BitVec.ofNat 8 n

/-- `memcpy(&str[i], src, 3)`. -/
def memcpy3 (str : Bytes) (i : Nat) (src : Bytes) : Bytes :=
  str.take i ++ src.take 3 ++ str.drop (i + 3)

def now (tm : Tm) : Bytes :=
  let str := octets "Sun, 06 Nov 1994 08:49:37 GMT"
  let str := memcpy3 str 0 (daysOfWeek.get tm.tm_wday)
  let str := (str.set 5 (digit (tm.tm_mday / 10))).set 6 (digit (tm.tm_mday % 10))
  let str := memcpy3 str 8 (months.get tm.tm_mon)
  let tm_year := tm.tm_year + 1900
  let str := (str.set 12 (digit (tm_year / 1000))).set 13 (digit (tm_year % 1000 / 100))
  let str := (str.set 14 (digit (tm_year % 100 / 10))).set 15 (digit (tm_year % 10))
  let str := (str.set 17 (digit (tm.tm_hour / 10))).set 18 (digit (tm.tm_hour % 10))
  let str := (str.set 20 (digit (tm.tm_min / 10))).set 21 (digit (tm.tm_min % 10))
  (str.set 23 (digit (tm.tm_sec / 10))).set 24 (digit (tm.tm_sec % 10))

/-! ## The parts of the string -/

/-- The octet of a colon, which stands between hours, minutes and seconds. -/
def COLON : Octet := 0x3a

theorem daysOfWeek_three (day : Fin 7) : (daysOfWeek.get day).length = 3 := by
  revert day
  decide +kernel

theorem months_three (month : Fin 12) : (months.get month).length = 3 := by
  revert month
  decide +kernel

theorem template_eq : octets "Sun, 06 Nov 1994 08:49:37 GMT" =
    octets "Sun" ++ octets ", " ++ [0x30, 0x36, SP] ++ octets "Nov" ++
      [SP, 0x31, 0x39, 0x39, 0x34, SP, 0x30, 0x38, COLON, 0x34, 0x39, COLON, 0x33, 0x37] ++
      octets " GMT" := by
  decide +kernel

/-- Two digits, as `now` computes them: of the tens and of the ones. -/
def two (n : Nat) : Bytes := [digit (n / 10), digit (n % 10)]

/-- Four digits, of a number below 10000: those of its thousands and hundreds, and of the rest. -/
def four (n : Nat) : Bytes :=
  [digit (n / 1000), digit (n % 1000 / 100), digit (n % 100 / 10), digit (n % 10)]

@[simp] theorem length_two (n : Nat) : (two n).length = 2 := rfl

@[simp] theorem length_four (n : Nat) : (four n).length = 4 := rfl

theorem eq_three {s : Bytes} (h : s.length = 3) : ∃ a b c, s = [a, b, c] := by
  match s, h with
  | [a, b, c], _ => exact ⟨a, b, c, rfl⟩

/-- The year that `now` writes: `tm_year` counts from 1900. -/
def year (tm : Tm) : Nat := tm.tm_year + 1900

/-- What has been put into the string. -/
theorem now_eq (tm : Tm) : now tm =
    daysOfWeek.get tm.tm_wday ++ octets ", " ++ two tm.tm_mday ++ [SP] ++ months.get tm.tm_mon ++
      [SP] ++ four (year tm) ++ [SP] ++ two tm.tm_hour ++ [COLON] ++ two tm.tm_min ++
      [COLON] ++ two tm.tm_sec ++ octets " GMT" := by
  obtain ⟨a, b, c, hday⟩ := eq_three (daysOfWeek_three tm.tm_wday)
  obtain ⟨d, e, f, hmonth⟩ := eq_three (months_three tm.tm_mon)
  have hnov : octets "Nov" = [0x4e, 0x6f, 0x76] := by decide +kernel
  have hsun : octets "Sun" = [0x53, 0x75, 0x6e] := by decide +kernel
  have hcomma : octets ", " = [0x2c, SP] := by decide +kernel
  simp [now, template_eq, hday, hmonth, hnov, hsun, hcomma, memcpy3, two, four, year]

/-- The moment of the template in `Date.cpp`: Sunday, 6 November 1994, 08:49:37. -/
def sample : Tm where
  tm_sec := 37
  tm_min := 49
  tm_hour := 8
  tm_mday := 6
  tm_mon := 10
  tm_year := 94
  tm_wday := 0

end Date

end Shitty
