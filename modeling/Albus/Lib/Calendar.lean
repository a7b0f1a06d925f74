import Mathlib.Tactic.Common
import Mathlib.Tactic.IntervalCases

/-! # The Gregorian calendar, by counting days

    Years, months and days are natural numbers, months and days from 1.  A date
    has a day number, counted from 1 January of year 0; the number is also defined
    for a day past the end of its month, where it runs on into the next one, so
    29 February of a common year has the number of 1 March.

    A date written as the number `YYYYMMDD` compares as its parts do, one after
    the other.  For a date whose day may run past its month this is not yet the
    comparison of day numbers: the two agree as far as `dayNumber_le_of_dateNum_ge`
    and `dayNumber_le_of_dateNum_le` say. -/

namespace Albus.Lib.Calendar

def IsLeap (y : ℕ) : Prop := y % 4 = 0 ∧ y % 100 ≠ 0 ∨ y % 400 = 0

instance (y : ℕ) : Decidable (IsLeap y) := inferInstanceAs (Decidable (_ ∨ _))

def daysInYear (y : ℕ) : ℕ := if IsLeap y then 366 else 365

def daysInMonth (y : ℕ) : ℕ → ℕ
  | 2 => if IsLeap y then 29 else 28
  | 4 | 6 | 9 | 11 => 30
  | 1 | 3 | 5 | 7 | 8 | 10 | 12 => 31
  | _ => 0

/-- Days from year 0 to the first day of year `y`. -/
def daysBeforeYear : ℕ → ℕ
  | 0 => 0
  | y + 1 => daysBeforeYear y + daysInYear y

/-- Days from the first day of the year to the first day of month `m + 1`. -/
def daysThrough (y : ℕ) : ℕ → ℕ
  | 0 => 0
  | m + 1 => daysThrough y m + daysInMonth y (m + 1)

/-- The number of a day. -/
def dayNumber (y m d : ℕ) : ℕ := daysBeforeYear y + daysThrough y (m - 1) + (d - 1)

/-- The number of the first day of a year. -/
theorem dayNumber_first (y : ℕ) : dayNumber y 1 1 = daysBeforeYear y := rfl

/-- A date of the calendar. -/
structure IsDate (y m d : ℕ) : Prop where
  month_pos : 1 ≤ m
  month_le : m ≤ 12
  day_pos : 1 ≤ d
  day_le : d ≤ daysInMonth y m

theorem daysInMonth_le (y m : ℕ) : daysInMonth y m ≤ 31 := by
  unfold daysInMonth
  split
  · split <;> omega
  all_goals omega

/-- Only February lacks more than one day of 31. -/
theorem daysInMonth_ge_of_ne {m : ℕ} (y : ℕ) (h1 : 1 ≤ m) (h2 : m ≤ 12) (h : m ≠ 2) :
    30 ≤ daysInMonth y m := by
  interval_cases m
  case «2» => exact absurd rfl h
  all_goals simp only [daysInMonth]; omega

theorem daysInMonth_ge {m : ℕ} (y : ℕ) (h1 : 1 ≤ m) (h2 : m ≤ 12) :
    28 ≤ daysInMonth y m := by
  by_cases h : m = 2
  · subst h
    show 28 ≤ if IsLeap y then 29 else 28
    split <;> omega
  · exact le_trans (by omega) (daysInMonth_ge_of_ne y h1 h2 h)

/-- A month has as many days in every year, February in a leap year apart. -/
theorem daysInMonth_le_succ {m : ℕ} (y y' : ℕ) :
    daysInMonth y m ≤ daysInMonth y' m + 1 := by
  unfold daysInMonth
  split
  · split <;> split <;> omega
  all_goals omega

theorem daysThrough_twelve (y : ℕ) : daysThrough y 12 = daysInYear y := by
  simp only [daysThrough, daysInMonth, daysInYear]
  split <;> omega

theorem daysInYear_ge (y : ℕ) : 365 ≤ daysInYear y := by
  rw [daysInYear]
  split <;> omega

theorem daysInYear_le (y : ℕ) : daysInYear y ≤ 366 := by
  rw [daysInYear]
  split <;> omega

theorem daysThrough_mono (y : ℕ) {a b : ℕ} (h : a ≤ b) :
    daysThrough y a ≤ daysThrough y b := by
  induction h with
  | refl => exact le_rfl
  | step _ ih => exact le_trans ih (Nat.le_add_right _ _)

theorem daysBeforeYear_mono {a b : ℕ} (h : a ≤ b) :
    daysBeforeYear a ≤ daysBeforeYear b := by
  induction h with
  | refl => exact le_rfl
  | step _ ih => exact le_trans ih (Nat.le_add_right _ _)

/-- Years of 365 to 366 days. -/
theorem daysBeforeYear_bounds (y : ℕ) :
    365 * y ≤ daysBeforeYear y ∧ daysBeforeYear y ≤ 366 * y := by
  induction y with
  | zero => exact ⟨le_rfl, le_rfl⟩
  | succ y ih =>
      obtain ⟨hlo, hhi⟩ := ih
      have hge := daysInYear_ge y
      have hle := daysInYear_le y
      have hsucc : daysBeforeYear (y + 1) = daysBeforeYear y + daysInYear y := rfl
      omega

/-- Every further year takes 365 days at least. -/
theorem daysBeforeYear_add_ge (y n : ℕ) :
    daysBeforeYear y + 365 * n ≤ daysBeforeYear (y + n) := by
  induction n with
  | zero => exact Nat.le_refl _
  | succ n ih =>
      have hge := daysInYear_ge (y + n)
      rw [Nat.mul_succ, ← Nat.add_assoc]
      exact Nat.add_le_add ih hge

/-- A leap year is followed by a common one. -/
theorem not_isLeap_succ {y : ℕ} (h : IsLeap y) : ¬ IsLeap (y + 1) := by
  have h4 : y % 4 = 0 := by
    rcases h with ⟨h4, -⟩ | h400 <;> omega
  rintro (⟨h4', -⟩ | h400') <;> omega

/-- A month of an earlier place ends before a later one begins. -/
theorem daysThrough_lt {y m M : ℕ} (h1 : 1 ≤ m) (h : m < M) :
    daysThrough y (m - 1) + daysInMonth y m ≤ daysThrough y (M - 1) := by
  obtain ⟨k, rfl⟩ : ∃ k, m = k + 1 := ⟨m - 1, by omega⟩
  exact daysThrough_mono y (by omega : k + 1 ≤ M - 1)

/-- The year ends where the next one begins. -/
theorem daysBeforeYear_lt {y Y : ℕ} (h : y < Y) :
    daysBeforeYear y + daysInYear y ≤ daysBeforeYear Y :=
  daysBeforeYear_mono (by omega : y + 1 ≤ Y)

/-- A month and its days lie inside the year. -/
theorem daysThrough_add_le {y m : ℕ} (h1 : 1 ≤ m) (h2 : m ≤ 12) :
    daysThrough y (m - 1) + daysInMonth y m ≤ daysInYear y := by
  obtain ⟨k, rfl⟩ : ∃ k, m = k + 1 := ⟨m - 1, by omega⟩
  rw [← daysThrough_twelve]
  exact daysThrough_mono y (by omega : k + 1 ≤ 12)

/-! ## Dates as numbers -/

/-- `YYYYMMDD`. -/
def dateNum (y m d : ℕ) : ℕ := y * 10000 + m * 100 + d

/-- A day of a month that may have run past its end, up to 31, or one day past
    December. -/
structure IsLoose (m d : ℕ) : Prop where
  month_pos : 1 ≤ m
  day_pos : 1 ≤ d
  day_le : d ≤ 31
  month_le : m ≤ 12 ∨ m = 13 ∧ d = 1

/-- The day of a date in another year: at most 29 February misses. -/
structure IsAnniversary (y m d : ℕ) : Prop where
  month_pos : 1 ≤ m
  month_le : m ≤ 12
  day_pos : 1 ≤ d
  day_le : d ≤ daysInMonth y m ∨ m = 2 ∧ d = daysInMonth y 2 + 1

theorem IsDate.anniversary {y m d : ℕ} (h : IsDate y m d) (y' : ℕ) :
    IsAnniversary y' m d := by
  refine ⟨h.month_pos, h.month_le, h.day_pos, ?_⟩
  have hle := h.day_le
  by_cases h2 : m = 2
  · subst h2
    have := daysInMonth_le_succ (m := 2) y y'
    omega
  · -- the other months do not depend on the year
    have hsame : daysInMonth y m = daysInMonth y' m := by
      unfold daysInMonth
      split
      · exact absurd rfl h2
      all_goals rfl
    exact Or.inl (hsame ▸ hle)

/-- An anniversary lies at most one day past its month, and in its year. -/
theorem IsAnniversary.dayNumber_lt {y m d : ℕ} (h : IsAnniversary y m d) :
    dayNumber y m d < daysBeforeYear y + daysInYear y := by
  have h1 := h.month_pos
  have hd := h.day_pos
  have hmonth := daysThrough_add_le (y := y) h1 h.month_le
  rw [dayNumber]
  rcases h.day_le with hle | ⟨rfl, heq⟩
  · omega
  · have h3 := daysThrough_add_le (y := y) (m := 3) (by omega) (by omega)
    have h2 : daysThrough y (3 - 1) = daysThrough y (2 - 1) + daysInMonth y 2 := rfl
    have h28 := daysInMonth_ge y (m := 3) (by omega) (by omega)
    omega

/-- Every day number of a year is at least its first day's. -/
theorem dayNumber_ge (y m d : ℕ) : daysBeforeYear y ≤ dayNumber y m d := by
  rw [dayNumber]
  omega

/-- A date has its number alone. -/
theorem IsDate.unique {y m d y' m' d' : ℕ} (h : IsDate y m d) (h' : IsDate y' m' d')
    (heq : dayNumber y m d = dayNumber y' m' d') : y = y' ∧ m = m' ∧ d = d' := by
  have hend := (h.anniversary y).dayNumber_lt
  have hend' := (h'.anniversary y').dayNumber_lt
  have hstart := dayNumber_ge y m d
  have hstart' := dayNumber_ge y' m' d'
  have hy : y = y' := by
    rcases Nat.lt_trichotomy y y' with hlt | hy | hgt
    · have := daysBeforeYear_lt hlt
      omega
    · exact hy
    · have := daysBeforeYear_lt hgt
      omega
  subst hy
  obtain ⟨hm, -, hd, hle⟩ := h
  obtain ⟨hm', -, hd', hle'⟩ := h'
  unfold dayNumber at heq
  have hmm : m = m' := by
    rcases Nat.lt_trichotomy m m' with hlt | hmm | hgt
    · have := daysThrough_lt (y := y) hm hlt
      omega
    · exact hmm
    · have := daysThrough_lt (y := y) hm' hgt
      omega
  subst hmm
  exact ⟨rfl, rfl, by omega⟩

/-- **AT LEAST AS GREAT A NUMBER, AT LEAST AS LATE A DAY.** -/
theorem dayNumber_le_of_dateNum_ge {y m d Y M D : ℕ} (hr : IsLoose m d)
    (hX : IsAnniversary Y M D) (h : dateNum Y M D ≤ dateNum y m d) :
    dayNumber Y M D ≤ dayNumber y m d := by
  have hX31 := daysInMonth_le Y M
  have hX2 := daysInMonth_le Y 2
  have hD : D ≤ 32 := by
    rcases hX.day_le with hle | ⟨-, heq⟩ <;> omega
  unfold dateNum at h
  obtain ⟨hm1, hd1, hd31, hm⟩ := hr
  obtain ⟨hM1, hM12, hD1, hDle⟩ := id hX
  rcases Nat.lt_trichotomy Y y with hlt | rfl | hgt
  · have hend := hX.dayNumber_lt
    have hstart := dayNumber_ge y m d
    have hyear := daysBeforeYear_lt hlt
    omega
  · rcases Nat.lt_trichotomy M m with hlt | rfl | hgt
    · -- at most the first day of the month after `M`
      have hmonth := daysThrough_lt (y := Y) hM1 hlt
      unfold dayNumber
      rcases hDle with hle | ⟨rfl, heq⟩ <;> omega
    · unfold dayNumber
      omega
    · omega
  · omega

/-- **AT MOST AS GREAT A NUMBER, AT MOST AS LATE A DAY**, for a day that has run
    at most one day past February. -/
theorem dayNumber_le_of_dateNum_le {y m d Y M D : ℕ} (hr : IsLoose m d)
    (hfeb : m = 2 → d ≤ daysInMonth y 2 + 1) (hX : IsAnniversary Y M D)
    (h : dateNum y m d ≤ dateNum Y M D) : dayNumber y m d ≤ dayNumber Y M D := by
  have hX31 := daysInMonth_le Y M
  have hX2 := daysInMonth_le Y 2
  have hD : D ≤ 32 := by
    rcases hX.day_le with hle | ⟨-, heq⟩ <;> omega
  unfold dateNum at h
  obtain ⟨hm1, hd1, hd31, hm⟩ := hr
  obtain ⟨hM1, hM12, hD1, hDle⟩ := id hX
  -- the day is at most the first one of the next month
  have hnext : m ≤ 12 → d ≤ daysInMonth y m + 1 := by
    intro hm12
    by_cases h2 : m = 2
    · subst h2
      exact hfeb rfl
    · have := daysInMonth_ge_of_ne y hm1 hm12 h2
      omega
  rcases Nat.lt_trichotomy y Y with hlt | rfl | hgt
  · have hyear := daysBeforeYear_lt hlt
    have hstart := dayNumber_ge Y M D
    have hend : dayNumber y m d ≤ daysBeforeYear y + daysInYear y := by
      unfold dayNumber
      rcases hm with hm12 | ⟨rfl, rfl⟩
      · have hmonth := daysThrough_add_le (y := y) hm1 hm12
        have := hnext hm12
        omega
      · have h12 := daysThrough_twelve y
        show daysBeforeYear y + daysThrough y 12 + 0 ≤ _
        omega
    omega
  · rcases Nat.lt_trichotomy m M with hlt | rfl | hgt
    · have hmonth := daysThrough_lt (y := y) hm1 hlt
      have := hnext (by omega)
      unfold dayNumber
      omega
    · unfold dayNumber
      omega
    · omega
  · omega

end Albus.Lib.Calendar
