import Albus.Circuits.Strings
import Albus.Lib.Calendar

/-! # Dates in the circuits

    The functions and `ParseDate` of `utils/date.circom`.  `timestampToDate` is a
    witness function, never a constraint.  Its two loops compare the seconds left
    with the length of the PREVIOUS year or month before they compute the current
    one, so a loop whose previous length was the longer one stops a step early:
    the day runs past the end of a month, or the month past December.  No second
    is lost on the way, and what comes out is still the right day by number
    (`timestampToDate_spec`). -/

namespace Albus.Circuits

open Albus.Lib
open Albus.Lib.Calendar (IsLoose IsDate dayNumber daysBeforeYear daysThrough dateNum)

/-! ## timestampToDate -/

def isLeapYear (year : ℕ) : Bool :=
  (year % 4 == 0 && year % 100 != 0) || year % 400 == 0

def secondsInYear (year : ℕ) : ℤ := 31536000 + (if isLeapYear year then 1 else 0) * 86400

/-- `daysInMonth(month, year)`; the table has twelve entries. -/
def daysInMonth (month year : ℕ) : ℕ :=
  let daysPerMonth := [31, if isLeapYear year then 29 else 28, 31, 30, 31, 30, 31, 31,
    30, 31, 30, 31]
  daysPerMonth.getD (month - 1) 0

def secondsInDay : ℤ := 86400

/-- The loop over the years: seconds left, `_secondsInYear`, year. -/
def yearLoop : ℕ → ℤ → ℤ → ℕ → ℤ × ℕ
  | 0, seconds, _, year => (seconds, year)
  | fuel + 1, seconds, last, year =>
      if last ≤ seconds then
        if secondsInYear year ≤ seconds then
          yearLoop fuel (seconds - secondsInYear year) (secondsInYear year) (year + 1)
        else yearLoop fuel seconds (secondsInYear year) year
      else (seconds, year)

/-- The loop over the months: seconds left, `_secondsInMonth`, month. -/
def monthLoop (year : ℕ) : ℕ → ℤ → ℤ → ℕ → ℤ × ℕ
  | 0, seconds, _, month => (seconds, month)
  | fuel + 1, seconds, last, month =>
      if last ≤ seconds then
        let now := daysInMonth month year * secondsInDay
        if now ≤ seconds then monthLoop year fuel (seconds - now) now (month + 1)
        else monthLoop year fuel seconds now month
      else (seconds, month)

/-- `timestampToDate`: `none` is the failing assertion. -/
def timestampToDate (timestamp : ℤ) : Option (ℕ × ℕ × ℕ) :=
  if timestamp < 4294967295 then
    let (seconds, year) := yearLoop (timestamp.toNat + 2) timestamp 0 1970
    let (seconds, month) := monthLoop year (seconds.toNat + 2) seconds 0 1
    let day := if secondsInDay ≤ seconds then (seconds / secondsInDay).toNat + 1 else 1
    some (year, month, day)
  else none

example : timestampToDate 1697039001 = some (2023, 10, 11) := by decide +kernel

-- 3 March 2023
example : timestampToDate 1677801600 = some (2023, 2, 31) := by decide +kernel

theorem isLeapYear_iff (year : ℕ) : isLeapYear year = true ↔ Calendar.IsLeap year := by
  rw [isLeapYear, Calendar.IsLeap]
  simp

theorem secondsInYear_eq (year : ℕ) :
    secondsInYear year = Calendar.daysInYear year * secondsInDay := by
  rw [secondsInYear, Calendar.daysInYear, secondsInDay]
  by_cases h : Calendar.IsLeap year
  · rw [if_pos ((isLeapYear_iff year).mpr h), if_pos h]
    norm_num
  · rw [if_neg (fun h' => h ((isLeapYear_iff year).mp h')), if_neg h]
    norm_num

theorem daysInMonth_eq {month : ℕ} (year : ℕ) (h1 : 1 ≤ month) (h2 : month ≤ 12) :
    daysInMonth month year = Calendar.daysInMonth year month := by
  have hfeb : (if isLeapYear year then 29 else 28)
      = if Calendar.IsLeap year then 29 else 28 := by
    simp only [isLeapYear_iff]
  rw [daysInMonth]
  rw [hfeb]
  interval_cases month <;> rfl

/-- **THE YEAR LOOP LOSES NO SECOND**, and leaves less than a leap year. -/
theorem yearLoop_spec {fuel : ℕ} {seconds last : ℤ} {year : ℕ}
    (hfuel : seconds.toNat + 2 ≤ fuel) (h0 : 0 ≤ seconds)
    (hlast : last ≤ 366 * secondsInDay) {seconds' : ℤ} {year' : ℕ}
    (h : yearLoop fuel seconds last year = (seconds', year')) :
    0 ≤ seconds' ∧ seconds' < 366 * secondsInDay ∧
      daysBeforeYear year' * secondsInDay + seconds'
        = daysBeforeYear year * secondsInDay + seconds := by
  induction fuel generalizing seconds last year with
  | zero => omega
  | succ fuel ih =>
      have hyear := secondsInYear_eq year
      have hge := Calendar.daysInYear_ge year
      have hle := Calendar.daysInYear_le year
      have hnext : daysBeforeYear (year + 1) = daysBeforeYear year + Calendar.daysInYear year :=
        rfl
      unfold secondsInDay at *
      rw [yearLoop] at h
      split at h
      · split at h
        · -- one year less
          have h' := ih (by omega) (by omega) (by omega) h
          refine ⟨h'.1, h'.2.1, ?_⟩
          have := h'.2.2
          push_cast [hnext] at this
          omega
        · -- the loop stops at its next test
          obtain ⟨fuel, rfl⟩ : ∃ k, fuel = k + 1 := ⟨fuel - 1, by omega⟩
          rw [yearLoop] at h
          rw [if_neg (by omega)] at h
          obtain ⟨rfl, rfl⟩ := Prod.mk.inj h
          exact ⟨h0, by omega, rfl⟩
      · obtain ⟨rfl, rfl⟩ := Prod.mk.inj h
        exact ⟨h0, by omega, rfl⟩

/-- **THE MONTH LOOP LOSES NO SECOND**, and leaves at most 31 days, one if it
    runs past December. -/
theorem monthLoop_spec {fuel : ℕ} {seconds last : ℤ} {month year : ℕ}
    (hfuel : seconds.toNat + 2 ≤ fuel) (h0 : 0 ≤ seconds)
    (hlast : last ≤ 31 * secondsInDay) (hpos : 1 ≤ month)
    (hmonth : month ≤ 12 ∨ month = 13 ∧ last = 31 * secondsInDay)
    (hyear : daysThrough year (month - 1) * secondsInDay + seconds < 366 * secondsInDay)
    {seconds' : ℤ} {month' : ℕ}
    (h : monthLoop year fuel seconds last month = (seconds', month')) :
    0 ≤ seconds' ∧ seconds' < 31 * secondsInDay ∧ 1 ≤ month' ∧ month' ≤ 13 ∧
      daysThrough year (month' - 1) * secondsInDay + seconds'
        = daysThrough year (month - 1) * secondsInDay + seconds := by
  induction fuel generalizing seconds last month with
  | zero => omega
  | succ fuel ih =>
      have hdec : month = 13 → daysThrough year (month - 1) = Calendar.daysInYear year := by
        rintro rfl
        exact Calendar.daysThrough_twelve year
      have hge := Calendar.daysInYear_ge year
      rw [monthLoop] at h
      split at h
      case isFalse hlt =>
        obtain ⟨rfl, rfl⟩ := Prod.mk.inj h
        unfold secondsInDay at *
        exact ⟨h0, by omega, hpos, by omega, rfl⟩
      case isTrue hle =>
        -- past December less than a day is left
        have hm12 : month ≤ 12 := by
          unfold secondsInDay at *
          rcases hmonth with hm | ⟨hm, hl⟩
          · exact hm
          · have := hdec hm
            omega
        have hdays := daysInMonth_eq year hpos hm12
        have hmin := Calendar.daysInMonth_ge year hpos hm12
        have hmax := Calendar.daysInMonth_le year month
        have hthrough : daysThrough year month
            = daysThrough year (month - 1) + Calendar.daysInMonth year month := by
          obtain ⟨k, rfl⟩ : ∃ k, month = k + 1 := ⟨month - 1, by omega⟩
          rfl
        simp only [hdays] at h
        unfold secondsInDay at *
        split at h
        · have h12 : month = 12 → Calendar.daysInMonth year month = 31 := by
            rintro rfl
            rfl
          have h' := ih (by omega) (by omega) (by omega) (by omega) (by omega) (by
            rw [Nat.add_sub_cancel, hthrough]
            push_cast
            omega) h
          rw [Nat.add_sub_cancel, hthrough] at h'
          push_cast at h'
          refine ⟨h'.1, h'.2.1, h'.2.2.1, h'.2.2.2.1, ?_⟩
          omega
        · obtain ⟨fuel, rfl⟩ : ∃ k, fuel = k + 1 := ⟨fuel - 1, by omega⟩
          rw [monthLoop] at h
          rw [if_neg (by omega)] at h
          obtain ⟨rfl, rfl⟩ := Prod.mk.inj h
          exact ⟨h0, by omega, hpos, by omega, rfl⟩

/-- The day number of a time. -/
def dayOf (timestamp : ℕ) : ℕ := dayNumber 1970 1 1 + timestamp / 86400

/-- **`timestampToDate` NAMES THE RIGHT DAY**, if perhaps past the end of its
    month. -/
theorem timestampToDate_spec {timestamp : ℕ} {y m d : ℕ}
    (h : timestampToDate timestamp = some (y, m, d)) :
    IsLoose m d ∧ dayNumber y m d = dayOf timestamp := by
  rw [timestampToDate] at h
  split at h
  case isFalse => exact nomatch h
  case isTrue hlt =>
  rcases hY : yearLoop ((timestamp : ℤ).toNat + 2) timestamp 0 1970 with ⟨seconds, year⟩
  rcases hM : monthLoop year (seconds.toNat + 2) seconds 0 1 with ⟨left, month⟩
  rw [hY] at h
  simp only [hM] at h
  obtain ⟨rfl, hmd⟩ := Prod.mk.inj (Option.some.inj h)
  obtain ⟨rfl, hd⟩ := Prod.mk.inj hmd
  obtain ⟨hs0, hs366, hsum⟩ := yearLoop_spec le_rfl (Int.natCast_nonneg _)
    (by unfold secondsInDay; omega) hY
  obtain ⟨hl0, hl31, hm1, hm13, hsum'⟩ := monthLoop_spec le_rfl hs0
    (by unfold secondsInDay; omega) le_rfl (Or.inl (by omega)) (by
      show ((daysThrough year 0 : ℕ) : ℤ) * secondsInDay + seconds < _
      simpa [daysThrough] using hs366) hM
  have hsum'' : daysThrough year (month - 1) * secondsInDay + left = seconds := by
    rw [hsum']
    simp [daysThrough]
  unfold secondsInDay at *
  have hday : (d : ℤ) = left / 86400 + 1 := by
    rw [← hd]
    split <;> omega
  constructor
  · refine ⟨hm1, by omega, by omega, ?_⟩
    by_cases h13 : month = 13
    · -- a whole common year has gone by
      have hyear : daysThrough year (month - 1) = Calendar.daysInYear year := by
        rw [h13]
        exact Calendar.daysThrough_twelve year
      have hge := Calendar.daysInYear_ge year
      exact Or.inr ⟨h13, by omega⟩
    · exact Or.inl (by omega)
  · unfold dayOf dayNumber
    simp only [Nat.sub_self, daysThrough]
    omega

/-! ## Date strings -/

/-- `YYYY-MM-DD`, a date of the calendar. -/
structure DateString where
  yyyy : List UInt8
  mm : List UInt8
  dd : List UInt8
  yyyy_length : yyyy.length = 4
  mm_length : mm.length = 2
  dd_length : dd.length = 2
  yyyy_digits : ∀ b ∈ yyyy, IsDigit b
  mm_digits : ∀ b ∈ mm, IsDigit b
  dd_digits : ∀ b ∈ dd, IsDigit b
  valid : IsDate (decimal yyyy) (decimal mm) (decimal dd)

namespace DateString

/-- The characters of the string. -/
def bytes (s : DateString) : List UInt8 := s.yyyy ++ 45 :: (s.mm ++ 45 :: s.dd)

def year (s : DateString) : ℕ := decimal s.yyyy

def month (s : DateString) : ℕ := decimal s.mm

def day (s : DateString) : ℕ := decimal s.dd

/-- The day of the date's `n`-th anniversary. -/
def birthday (s : DateString) (n : ℕ) : ℕ := dayNumber (s.year + n) s.month s.day

theorem year_lt (s : DateString) : s.year < 10000 := by
  have h := decimal_lt s.yyyy_digits
  rw [s.yyyy_length] at h
  exact h

theorem day_le (s : DateString) : s.day ≤ 31 :=
  le_trans s.valid.day_le (Calendar.daysInMonth_le _ _)

theorem beNat_bytes_lt (s : DateString) : beNat s.bytes < 2 ^ 80 := by
  have h := beNat_lt s.bytes
  have hlen : s.bytes.length = 10 := by
    simp [bytes, s.yyyy_length, s.mm_length, s.dd_length]
  rw [hlen] at h
  exact lt_of_lt_of_le h (by norm_num)

/-- The three numbers at their places in the number of the string. -/
theorem asciiNat_bytes (s : DateString) :
    asciiNat 4 (beNat s.bytes / 2 ^ 48) = s.year ∧
    asciiNat 2 (beNat s.bytes / 2 ^ 24) = s.month ∧
    asciiNat 2 (beNat s.bytes / 2 ^ 0) = s.day := by
  have hy : beNat s.bytes / 2 ^ 48 = beNat s.yyyy := by
    have h := beNat_append_div s.yyyy (45 :: (s.mm ++ 45 :: s.dd))
    rw [show (45 :: (s.mm ++ 45 :: s.dd)).length = 6 by
      simp [s.mm_length, s.dd_length]] at h
    exact h
  have hm : beNat s.bytes / 2 ^ 24 = beNat ((s.yyyy ++ [45]) ++ s.mm) := by
    have h := beNat_append_div ((s.yyyy ++ [45]) ++ s.mm) (45 :: s.dd)
    rw [show (45 :: s.dd).length = 3 by simp [s.dd_length],
      show ((s.yyyy ++ [45]) ++ s.mm) ++ 45 :: s.dd = s.bytes by simp [bytes]] at h
    exact h
  have hd : beNat s.bytes = beNat ((s.yyyy ++ 45 :: (s.mm ++ [45])) ++ s.dd) := by
    simp [bytes]
  refine ⟨?_, ?_, ?_⟩
  · rw [hy, asciiNat_beNat s.yyyy_length.le, foldl_asciiStep s.yyyy_digits]
    rfl
  · rw [hm, ← s.mm_length, asciiNat_append, foldl_asciiStep s.mm_digits]
    rfl
  · rw [pow_zero, Nat.div_one, hd, ← s.dd_length, asciiNat_append,
      foldl_asciiStep s.dd_digits]
    rfl

end DateString

/-! ## ParseDate -/

namespace ParseDate

structure Signals where
  bits : ℕ → F
  y : BitsToAscii.Signals
  m : BitsToAscii.Signals
  d : BitsToAscii.Signals
  out : ℕ → F

/-- `ParseDate()`: nothing constrains its output. -/
structure Constraints (lib : Circomlib) (x : F) (s : Signals) : Prop where
  bits : lib.num2Bits 256 x s.bits
  y : BitsToAscii.Constraints lib 48 4 s.bits s.y
  m : BitsToAscii.Constraints lib 24 2 s.bits s.m
  d : BitsToAscii.Constraints lib 0 2 s.bits s.d

structure Hints (x : F) (s : Signals) : Prop where
  bits : CanonicalBits x s.bits
  y : BitsToAscii.Hints 4 s.y
  m : BitsToAscii.Hints 2 s.m
  d : BitsToAscii.Hints 2 s.d
  out_y : s.out 0 = s.y.out
  out_m : s.out 1 = s.m.out
  out_d : s.out 2 = s.d.out

/-- **HONEST PARSING** of a date. -/
theorem Constraints.out_eq {lib : Circomlib} (hlib : lib.Arithmetic) {birth : DateString}
    {s : Signals} (h : Constraints lib (beNat birth.bytes : F) s)
    (hh : Hints (beNat birth.bytes : F) s) :
    s.out 0 = birth.year ∧ s.out 1 = birth.month ∧ s.out 2 = birth.day := by
  have hval : ((beNat birth.bytes : ℕ) : F).val = beNat birth.bytes :=
    ZMod.val_natCast_of_lt (lt_trans birth.beNat_bytes_lt
      (lt_trans (by norm_num) two_pow_252_lt))
  have hbits := hh.bits
  rw [CanonicalBits] at hbits
  rw [hval] at hbits
  have hv := val_lt_two_pow (beNat birth.bytes : F)
  rw [hval] at hv
  obtain ⟨hy, hm, hd⟩ := birth.asciiNat_bytes
  refine ⟨?_, ?_, ?_⟩
  · rw [hh.out_y, h.y.out_eq hlib (by norm_num) hv hbits hh.y, hy]
  · rw [hh.out_m, h.m.out_eq hlib (by norm_num) hv hbits hh.m, hm]
  · rw [hh.out_d, h.d.out_eq hlib (by norm_num) hv hbits hh.d, hd]

/-- The output of given parts. -/
def ofParts (bits : ℕ → F) (y m d : BitsToAscii.Signals) : Signals :=
  { bits, y, m, d, out := fun i => [y.out, m.out, d.out].getD i 0 }

theorem ofParts_hints {x : F} {bits : ℕ → F} {y m d : BitsToAscii.Signals}
    (hbits : CanonicalBits x bits) (hy : BitsToAscii.Hints 4 y)
    (hm : BitsToAscii.Hints 2 m) (hd : BitsToAscii.Hints 2 d) :
    Hints x (ofParts bits y m d) :=
  ⟨hbits, hy, hm, hd, rfl, rfl, rfl⟩

/-- The signals of an honest prover. -/
def honest (x : F) : Signals :=
  ofParts (natBits x.val) (BitsToAscii.honest 48 4 (natBits x.val))
    (BitsToAscii.honest 24 2 (natBits x.val)) (BitsToAscii.honest 0 2 (natBits x.val))

theorem honest_constraints {lib : Circomlib} (hlib : lib.Arithmetic) (x : F) :
    Constraints lib x (honest x) :=
  ⟨num2Bits_natBits hlib x, BitsToAscii.honest_constraints hlib 48 4 _,
    BitsToAscii.honest_constraints hlib 24 2 _, BitsToAscii.honest_constraints hlib 0 2 _⟩

theorem honest_hints (x : F) : Hints x (honest x) :=
  ofParts_hints (fun _ _ => rfl) (BitsToAscii.honest_hints 48 4 _)
    (BitsToAscii.honest_hints 24 2 _) (BitsToAscii.honest_hints 0 2 _)

end ParseDate

/-- `dateToNum`. -/
def dateToNum (d : ℕ → F) : F := d 0 * 10000 + d 1 * 100 + d 2

theorem dateToNum_natCast {out : ℕ → F} {y m d : ℕ} (hy : out 0 = y) (hm : out 1 = m)
    (hd : out 2 = d) : dateToNum out = (dateNum y m d : F) := by
  rw [dateToNum, dateNum]
  rw [hy, hm, hd]
  push_cast
  ring

end Albus.Circuits
