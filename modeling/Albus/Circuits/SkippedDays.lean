import Albus.Circuits.Date
import Albus.Lib.WhileLoop

/-! # The days that `timestampToDate` skips

    The two loops of `timestampToDate` are one loop over periods of different
    lengths: it takes periods off the seconds as long as the length it has
    WRITTEN DOWN fits, and that length is the one of the period before.  So where
    a period is shorter than the one before it, the days by which it is shorter
    are skipped: the loop stops with the period still on the clock.

    For the years that is one day after a leap year, for the months the days after
    the five short ones.  On every other day the loops stop where they should, and
    `timestampToDate` is the calendar. -/

namespace Albus.Circuits

open Albus.Lib
open Albus.Lib.Calendar (IsDate dayNumber daysBeforeYear daysThrough)

/-! ## Taking periods off -/

/-- The variables of a loop: the seconds left, the length written down, the
    period it is in. -/
structure Countdown where
  seconds : ℤ
  last : ℤ
  period : ℕ

/-- The test of both loops. -/
def Countdown.Running (s : Countdown) : Prop := s.last ≤ s.seconds

/-- The body of both loops. -/
def Countdown.advance (length : ℕ → ℤ) (s : Countdown) : Countdown :=
  if length s.period ≤ s.seconds then
    ⟨s.seconds - length s.period, length s.period, s.period + 1⟩
  else ⟨s.seconds, length s.period, s.period⟩

/-- Periods one after the other, from a first one on. -/
structure Periods where
  first : ℕ
  length : ℕ → ℤ
  start : ℕ → ℤ
  start_succ : ∀ n, first ≤ n → start (n + 1) = start n + length n

namespace Periods

variable (p : Periods)

/-- The loop over the periods, from `s` to `e`. -/
def Loop : ℕ → Countdown → Countdown → Prop :=
  Ends Countdown.Running (Countdown.advance p.length)

/-- The state in which the loop is entered. -/
def enter (seconds : ℤ) : Countdown := ⟨seconds, 0, p.first⟩

/-- What the loop keeps.  `written` says which length `last` is; `passed` that the
    period before this one was left although its predecessor's length had to fit. -/
structure Inv (time : ℤ) (s : Countdown) : Prop where
  nonneg : 0 ≤ s.seconds
  first_le : p.first ≤ s.period
  time_eq : p.start s.period + s.seconds = time
  written : s.last = 0 ∧ s.period = p.first ∨
    p.first < s.period ∧ s.last = p.length (s.period - 1) ∨
    s.last = p.length s.period ∧ s.seconds < p.length s.period
  passed : p.first + 2 ≤ s.period →
    p.length (s.period - 2) ≤ s.seconds + p.length (s.period - 1)

theorem inv_enter {seconds : ℤ} (h : 0 ≤ seconds) :
    p.Inv (p.start p.first + seconds) (p.enter seconds) := by
  refine ⟨h, le_rfl, rfl, Or.inl ⟨rfl, rfl⟩, ?_⟩
  intro h2
  exact absurd h2 (by show ¬ p.first + 2 ≤ p.first; omega)

theorem Inv.advance {time : ℤ} {s : Countdown} (hrun : s.Running) (h : p.Inv time s) :
    p.Inv time (s.advance p.length) := by
  obtain ⟨hnonneg, hfirst, htime, hwritten, hpassed⟩ := h
  unfold Countdown.Running at hrun
  unfold Countdown.advance
  split
  case isTrue hfits =>
    refine ⟨by show 0 ≤ s.seconds - _; omega, by show p.first ≤ s.period + 1; omega, ?_,
      Or.inr (Or.inl ⟨by show p.first < s.period + 1; omega, rfl⟩), ?_⟩
    · show p.start (s.period + 1) + (s.seconds - p.length s.period) = time
      rw [p.start_succ s.period hfirst]
      omega
    · intro h2
      show p.length (s.period + 1 - 2) ≤ s.seconds - p.length s.period + p.length s.period
      have h2' : p.first + 2 ≤ s.period + 1 := h2
      rcases hwritten with ⟨-, heq⟩ | ⟨-, hlast⟩ | ⟨-, hlt⟩
      · omega
      · -- the test of this round
        rw [show s.period + 1 - 2 = s.period - 1 by omega]
        rw [← hlast]
        omega
      · omega
  case isFalse hlt =>
    have hlt' : s.seconds < p.length s.period := by omega
    exact ⟨hnonneg, hfirst, htime, Or.inr (Or.inr ⟨rfl, hlt'⟩), hpassed⟩

/-- What is known where the loop stops: it is in the right period, or in the one
    before it, for less time than the period before that one lasts. -/
structure Stopped (time : ℤ) (e : Countdown) : Prop where
  nonneg : 0 ≤ e.seconds
  first_le : p.first ≤ e.period
  time_eq : p.start e.period + e.seconds = time
  short : e.seconds < p.length e.period ∨
    p.first < e.period ∧ e.seconds < p.length (e.period - 1)
  passed : p.first + 2 ≤ e.period →
    p.length (e.period - 2) ≤ e.seconds + p.length (e.period - 1)

/-- **WHERE THE LOOP STOPS.** -/
theorem stopped {k : ℕ} {seconds : ℤ} {e : Countdown} (h0 : 0 ≤ seconds)
    (h : p.Loop k (p.enter seconds) e) : p.Stopped (p.start p.first + seconds) e := by
  have hinv : p.Inv (p.start p.first + seconds) e :=
    Ends.invariant (fun s ht hs => Inv.advance p ht hs) h (p.inv_enter h0)
  have hstop : ¬ e.Running := Ends.not_test h
  unfold Countdown.Running at hstop
  refine ⟨hinv.nonneg, hinv.first_le, hinv.time_eq, ?_, hinv.passed⟩
  have hnonneg := hinv.nonneg
  rcases hinv.written with ⟨hlast, -⟩ | ⟨hlt, hlast⟩ | ⟨-, hlt⟩
  · omega
  · exact Or.inr ⟨hlt, by omega⟩
  · exact Or.inl hlt

/-- **THE LOOP STOPS**, in a round a second at most and two more, if the periods up
    to `K` have a length and the time does not reach as far past `K` as `K` lasts. -/
theorem terminates {K : ℕ} (hpos : ∀ n, p.first ≤ n → n ≤ K → 0 < p.length n) {time : ℤ}
    (hK : time < p.start (K + 1) + p.length K) (hfirst : p.first ≤ K) (rest : ℕ)
    {s : Countdown} (hs : p.Inv time s) (hrest : s.period + rest = K + 1) :
    ∃ k e, k ≤ s.seconds.toNat + 2 ∧ p.Loop k s e := by
  induction rest generalizing s with
  | zero =>
      -- past `K` the test fails
      have heq : s.period = K + 1 := hrest
      have hwritten := hs.written
      have htime := hs.time_eq
      rw [heq] at hwritten htime
      rw [Nat.add_sub_cancel] at hwritten
      refine ⟨0, s, by omega, Ends.stop ?_⟩
      unfold Countdown.Running
      omega
  | succ rest ih =>
      by_cases hrun : s.Running
      case neg => exact ⟨0, s, by omega, Ends.stop hrun⟩
      case pos =>
        have hs' := hs.advance p hrun
        have hlen := hpos s.period hs.first_le (by omega)
        by_cases hfits : p.length s.period ≤ s.seconds
        · have hadv : s.advance p.length
              = ⟨s.seconds - p.length s.period, p.length s.period, s.period + 1⟩ :=
            if_pos hfits
          rw [hadv] at hs'
          obtain ⟨k, e, hk, he⟩ := ih hs' (by show s.period + 1 + rest = K + 1; omega)
          refine ⟨k + 1, e, ?_, Ends.round hrun (hadv ▸ he)⟩
          have hk' : k ≤ (s.seconds - p.length s.period).toNat + 2 := hk
          omega
        · have hadv : s.advance p.length = ⟨s.seconds, p.length s.period, s.period⟩ :=
            if_neg hfits
          refine ⟨1, s.advance p.length, by omega, Ends.round hrun (Ends.stop ?_)⟩
          rw [hadv]
          exact hfits

end Periods

/-! ## The loops of timestampToDate -/

/-- The lengths in the table are those of the calendar; past December both are
    nothing. -/
theorem daysInMonth_eq_calendar {month : ℕ} (year : ℕ) (h1 : 1 ≤ month) :
    daysInMonth month year = Calendar.daysInMonth year month := by
  by_cases h12 : month ≤ 12
  · exact daysInMonth_eq year h1 h12
  · obtain ⟨k, rfl⟩ : ∃ k, month = k + 13 := ⟨month - 13, by omega⟩
    rfl

def years : Periods where
  first := 1970
  length := secondsInYear
  start n := daysBeforeYear n * secondsInDay
  start_succ n _ := by
    have hnext : daysBeforeYear (n + 1) = daysBeforeYear n + Calendar.daysInYear n := rfl
    rw [secondsInYear_eq, hnext]
    push_cast
    ring

def months (year : ℕ) : Periods where
  first := 1
  length m := daysInMonth m year * secondsInDay
  start m := daysThrough year (m - 1) * secondsInDay
  start_succ m hm := by
    obtain ⟨k, rfl⟩ : ∃ k, m = k + 1 := ⟨m - 1, by omega⟩
    have hnext : daysThrough year (k + 1)
        = daysThrough year k + Calendar.daysInMonth year (k + 1) := rfl
    rw [daysInMonth_eq_calendar year hm, Nat.add_sub_cancel, Nat.add_sub_cancel, hnext]
    push_cast
    ring

/-- The recursion runs the loop over the years, given as many rounds. -/
theorem yearLoop_eq {k : ℕ} {s e : Countdown} (h : years.Loop k s e) {fuel : ℕ}
    (hk : k ≤ fuel) : yearLoop fuel s.seconds s.last s.period = (e.seconds, e.period) := by
  induction h generalizing fuel with
  | stop hs =>
      unfold Countdown.Running at hs
      cases fuel with
      | zero => rfl
      | succ fuel => rw [yearLoop, if_neg hs]
  | round ht _ ih =>
      obtain ⟨fuel, rfl⟩ : ∃ n, fuel = n + 1 := ⟨fuel - 1, by omega⟩
      have ih' := ih (Nat.le_of_succ_le_succ hk)
      unfold Countdown.Running at ht
      rw [yearLoop, if_pos ht]
      unfold Countdown.advance at ih'
      split at ih'
      case isTrue hfits => exact (if_pos hfits).trans ih'
      case isFalse hlt => exact (if_neg hlt).trans ih'

theorem monthLoop_eq {year k : ℕ} {s e : Countdown} (h : (months year).Loop k s e) {fuel : ℕ}
    (hk : k ≤ fuel) :
    monthLoop year fuel s.seconds s.last s.period = (e.seconds, e.period) := by
  induction h generalizing fuel with
  | stop hs =>
      unfold Countdown.Running at hs
      cases fuel with
      | zero => rfl
      | succ fuel => rw [monthLoop, if_neg hs]
  | round ht _ ih =>
      obtain ⟨fuel, rfl⟩ : ∃ n, fuel = n + 1 := ⟨fuel - 1, by omega⟩
      have ih' := ih (Nat.le_of_succ_le_succ hk)
      unfold Countdown.Running at ht
      rw [monthLoop, if_pos ht]
      unfold Countdown.advance at ih'
      split at ih'
      case isTrue hfits => exact (if_pos hfits).trans ih'
      case isFalse hlt => exact (if_neg hlt).trans ih'

/-- The day of the month when the loops are done. -/
def dayOfMonth (seconds : ℤ) : ℕ :=
  if secondsInDay ≤ seconds then (seconds / secondsInDay).toNat + 1 else 1

/-- A run of `timestampToDate`: the assertion holds, both loops stop, and this is
    what they leave. -/
structure Returns (timestamp : ℤ) (y m d : ℕ) : Prop where
  asserted : timestamp < 4294967295
  loops : ∃ (k k' : ℕ) (e e' : Countdown), years.Loop k (years.enter timestamp) e ∧
    (months e.period).Loop k' ((months e.period).enter e.seconds) e' ∧
    y = e.period ∧ m = e'.period ∧ d = dayOfMonth e'.seconds

/-- The loop over the years stops: no year is shorter than a second. -/
theorem years_terminates {timestamp : ℤ} (h0 : 0 ≤ timestamp) :
    ∃ k e, k ≤ timestamp.toNat + 2 ∧ years.Loop k (years.enter timestamp) e := by
  have hpos : ∀ n, years.first ≤ n → n ≤ 1970 + timestamp.toNat → 0 < years.length n := by
    intro n _ _
    show 0 < secondsInYear n
    have := Calendar.daysInYear_ge n
    rw [secondsInYear_eq]
    unfold secondsInDay
    omega
  have hfar : years.start years.first + timestamp
      < years.start (1970 + timestamp.toNat + 1) + years.length (1970 + timestamp.toNat) := by
    have hge := Calendar.daysBeforeYear_add_ge 1970 (timestamp.toNat + 1)
    have hlast := Calendar.daysInYear_ge (1970 + timestamp.toNat)
    show daysBeforeYear 1970 * secondsInDay + timestamp
      < daysBeforeYear (1970 + (timestamp.toNat + 1)) * secondsInDay
        + secondsInYear (1970 + timestamp.toNat)
    rw [secondsInYear_eq]
    unfold secondsInDay
    omega
  exact years.terminates hpos hfar (Nat.le_add_right _ _) (timestamp.toNat + 1)
    (years.inv_enter h0) (by show 1970 + _ = _; omega)

/-- The loop over the months stops: a year ends with December. -/
theorem months_terminates (year : ℕ) {seconds : ℤ} (h0 : 0 ≤ seconds)
    (hlt : seconds < 366 * secondsInDay) :
    ∃ k e, k ≤ seconds.toNat + 2 ∧ (months year).Loop k ((months year).enter seconds) e := by
  have hpos : ∀ m, (months year).first ≤ m → m ≤ 12 → 0 < (months year).length m := by
    intro m h1 h12
    show (0 : ℤ) < daysInMonth m year * secondsInDay
    have h1' : 1 ≤ m := h1
    have := Calendar.daysInMonth_ge year h1' h12
    rw [daysInMonth_eq_calendar year h1']
    unfold secondsInDay
    omega
  have hfar : (months year).start (months year).first + seconds
      < (months year).start (12 + 1) + (months year).length 12 := by
    have hdec := Calendar.daysThrough_twelve year
    have hge := Calendar.daysInYear_ge year
    show ((daysThrough year 0 : ℕ) : ℤ) * secondsInDay + seconds
      < daysThrough year 12 * secondsInDay + 31 * secondsInDay
    rw [hdec]
    unfold secondsInDay at *
    simp only [daysThrough]
    omega
  exact (months year).terminates hpos hfar (by show 1 ≤ 12; omega) 12
    ((months year).inv_enter h0) rfl

/-- What the years leave is less than a leap year. -/
theorem years_left {time : ℤ} {e : Countdown} (h : years.Stopped time e) :
    e.seconds < 366 * secondsInDay := by
  have hle := Calendar.daysInYear_le e.period
  have hle' := Calendar.daysInYear_le (e.period - 1)
  rcases h.short with hlt | ⟨-, hlt⟩
  all_goals
    have hlt' := lt_of_lt_of_eq hlt (secondsInYear_eq _)
    unfold secondsInDay at *
    omega

/-- **`timestampToDate` TERMINATES**, and returns what the recursions compute. -/
theorem returns_timestampToDate {timestamp : ℤ} (h0 : 0 ≤ timestamp)
    (hlt : timestamp < 4294967295) :
    ∃ y m d, Returns timestamp y m d ∧ timestampToDate timestamp = some (y, m, d) := by
  obtain ⟨k, e, hk, he⟩ := years_terminates h0
  have hstop := years.stopped h0 he
  obtain ⟨k', e', hk', he'⟩ := months_terminates e.period hstop.nonneg
    (years_left hstop)
  refine ⟨e.period, e'.period, dayOfMonth e'.seconds,
    ⟨hlt, k, k', e, e', he, he', rfl, rfl, rfl⟩, ?_⟩
  have hY : yearLoop (timestamp.toNat + 2) timestamp 0 1970 = (e.seconds, e.period) :=
    yearLoop_eq he hk
  have hM : monthLoop e.period (e.seconds.toNat + 2) e.seconds 0 1
      = (e'.seconds, e'.period) := monthLoop_eq he' hk'
  rw [timestampToDate]
  rw [if_pos hlt, hY]
  simp only [hM]
  rfl

/-! ## The skipped days -/

/-- The days of the calendar that `timestampToDate` does not return: 1 January two
    years after a leap year, the first days of March, and the first of a month after
    a short one. -/
def Skipped (y m d : ℕ) : Prop :=
  (m = 1 ∧ d = 1 ∧ 1972 ≤ y ∧ Calendar.IsLeap (y - 2)) ∨
  (m = 3 ∧ d ≤ if Calendar.IsLeap y then 2 else 3) ∨
  ((m = 5 ∨ m = 7 ∨ m = 10 ∨ m = 12) ∧ d = 1)

instance (y m d : ℕ) : Decidable (Skipped y m d) := inferInstanceAs (Decidable (_ ∨ _))

example : Skipped 2023 3 3 ∧ ¬ Skipped 2024 3 3 ∧ Skipped 2026 1 1 := by decide

/-- Within the year they are the days by which a month is shorter than the one
    before it. -/
theorem skipped_iff {y m d : ℕ} (h : IsDate y m d) (h1 : m ≠ 1) :
    Skipped y m d ↔ 3 ≤ m ∧
      Calendar.daysInMonth y (m - 1) + d ≤ Calendar.daysInMonth y (m - 2) := by
  obtain ⟨hm1, hm12, hd1, -⟩ := h
  by_cases hleap : Calendar.IsLeap y
  all_goals
    unfold Skipped
    interval_cases m
    case «1» => exact absurd rfl h1
    all_goals
      simp [Calendar.daysInMonth, hleap] <;> omega

/-- A time and the day of the calendar it lies in. -/
structure IsUtcDate (timestamp : ℤ) (y m d : ℕ) : Prop where
  date : IsDate y m d
  from_midnight : ((dayNumber y m d : ℤ) - dayNumber 1970 1 1) * secondsInDay ≤ timestamp
  to_midnight :
    timestamp < ((dayNumber y m d : ℤ) - dayNumber 1970 1 1 + 1) * secondsInDay

/-- The time lies in one day. -/
theorem IsUtcDate.unique {timestamp : ℤ} {y m d y' m' d' : ℕ}
    (h : IsUtcDate timestamp y m d) (h' : IsUtcDate timestamp y' m' d') :
    y = y' ∧ m = m' ∧ d = d' := by
  obtain ⟨hdate, hfrom, hto⟩ := h
  obtain ⟨hdate', hfrom', hto'⟩ := h'
  refine hdate.unique hdate' ?_
  unfold secondsInDay at *
  omega

/-! ## What a run leaves -/

/-- What the two loops leave, in days: `s` seconds into the year, `s'` seconds into
    the month. -/
structure Leaves (timestamp : ℤ) (y m d : ℕ) (s s' : ℤ) : Prop where
  year_ge : 1970 ≤ y
  month_pos : 1 ≤ m
  year_nonneg : 0 ≤ s
  month_nonneg : 0 ≤ s'
  year_eq : daysBeforeYear y * secondsInDay + s
    = daysBeforeYear 1970 * secondsInDay + timestamp
  month_eq : daysThrough y (m - 1) * secondsInDay + s' = s
  year_short : s < Calendar.daysInYear y * secondsInDay ∨
    1970 < y ∧ s < Calendar.daysInYear (y - 1) * secondsInDay
  month_short : s' < Calendar.daysInMonth y m * secondsInDay ∨
    1 < m ∧ s' < Calendar.daysInMonth y (m - 1) * secondsInDay
  year_passed : 1972 ≤ y → Calendar.daysInYear (y - 2) * secondsInDay
    ≤ s + Calendar.daysInYear (y - 1) * secondsInDay
  month_passed : 3 ≤ m → Calendar.daysInMonth y (m - 2) * secondsInDay
    ≤ s' + Calendar.daysInMonth y (m - 1) * secondsInDay
  day_eq : (d : ℤ) = s' / secondsInDay + 1

theorem dayOfMonth_eq {seconds : ℤ} (h : 0 ≤ seconds) :
    (dayOfMonth seconds : ℤ) = seconds / secondsInDay + 1 := by
  unfold dayOfMonth secondsInDay
  split <;> omega

theorem Returns.leaves {timestamp : ℤ} {y m d : ℕ} (h0 : 0 ≤ timestamp)
    (h : Returns timestamp y m d) : ∃ s s', Leaves timestamp y m d s s' := by
  obtain ⟨k, k', e, e', he, he', rfl, rfl, rfl⟩ := h.loops
  have hY := years.stopped h0 he
  have hM := (months e.period).stopped hY.nonneg he'
  have hm : 1 ≤ e'.period := hM.first_le
  refine ⟨e.seconds, e'.seconds, hY.first_le, hm, hY.nonneg, hM.nonneg, hY.time_eq, ?_, ?_,
    ?_, ?_, ?_, dayOfMonth_eq hM.nonneg⟩
  · have h1 : daysThrough e.period (e'.period - 1) * secondsInDay + e'.seconds
        = daysThrough e.period (1 - 1) * secondsInDay + e.seconds := hM.time_eq
    rw [h1]
    simp [daysThrough]
  · rw [← secondsInYear_eq, ← secondsInYear_eq]
    exact hY.short
  · rw [← daysInMonth_eq_calendar _ hm]
    rcases hM.short with hlt | ⟨h1, hlt⟩
    · exact Or.inl hlt
    · have h1' : 1 < e'.period := h1
      refine Or.inr ⟨h1', ?_⟩
      rw [← daysInMonth_eq_calendar _ (by omega)]
      exact hlt
  · rw [← secondsInYear_eq, ← secondsInYear_eq]
    exact hY.passed
  · intro h3
    rw [← daysInMonth_eq_calendar _ (by omega), ← daysInMonth_eq_calendar _ (by omega)]
    exact hM.passed h3

namespace Leaves

variable {timestamp : ℤ} {y m d : ℕ} {s s' : ℤ}

/-- Within the year there are no more than twelve months. -/
theorem month_le (h : Leaves timestamp y m d s s')
    (hy : s < Calendar.daysInYear y * secondsInDay) : m ≤ 12 := by
  by_contra hgt
  have hthrough : daysThrough y 12 ≤ daysThrough y (m - 1) :=
    Calendar.daysThrough_mono y (by omega)
  have heq := h.month_eq
  have hnonneg := h.month_nonneg
  rw [Calendar.daysThrough_twelve] at hthrough
  unfold secondsInDay at *
  omega

/-- Where both loops stop in the right period, the date is the right one. -/
theorem isUtcDate (h : Leaves timestamp y m d s s')
    (hy : s < Calendar.daysInYear y * secondsInDay)
    (hm : s' < Calendar.daysInMonth y m * secondsInDay) : IsUtcDate timestamp y m d := by
  have hday := h.day_eq
  have hnonneg := h.month_nonneg
  have hyear := h.year_eq
  have hmonth := h.month_eq
  have hstart := Calendar.dayNumber_first 1970
  have hnum : dayNumber y m d = daysBeforeYear y + daysThrough y (m - 1) + (d - 1) := rfl
  refine ⟨⟨h.month_pos, h.month_le hy, ?_, ?_⟩, ?_, ?_⟩
  all_goals
    unfold secondsInDay at *
    omega

/-- The loop over the years stops early on one day after a leap year. -/
theorem new_year (h : Leaves timestamp y m d s s')
    (hy : ¬ s < Calendar.daysInYear y * secondsInDay) :
    IsUtcDate timestamp (y + 1) 1 1 ∧ Skipped (y + 1) 1 1 := by
  obtain ⟨h1970, hlt⟩ := h.year_short.resolve_left hy
  have hge := Calendar.daysInYear_ge y
  -- the year before is longer, so it is a leap year and this one is not
  have hleap : Calendar.IsLeap (y - 1) := by
    by_contra hnot
    rw [Calendar.daysInYear, if_neg hnot] at hlt
    unfold secondsInDay at *
    omega
  have hcommon : ¬ Calendar.IsLeap y := by
    have := Calendar.not_isLeap_succ hleap
    rwa [Nat.sub_add_cancel (by omega)] at this
  rw [Calendar.daysInYear, if_pos hleap] at hlt
  rw [Calendar.daysInYear, if_neg hcommon] at hy
  have hnext : daysBeforeYear (y + 1) = daysBeforeYear y + 365 := by
    rw [daysBeforeYear, Calendar.daysInYear, if_neg hcommon]
  have hyear := h.year_eq
  have hstart := Calendar.dayNumber_first 1970
  have hnum := Calendar.dayNumber_first (y + 1)
  refine ⟨⟨⟨le_rfl, by omega, le_rfl, ?_⟩, ?_, ?_⟩, Or.inl ⟨rfl, rfl, by omega, ?_⟩⟩
  · show 1 ≤ 31
    omega
  · unfold secondsInDay at *
    omega
  · unfold secondsInDay at *
    omega
  · rw [show y + 1 - 2 = y - 1 by omega]
    exact hleap

/-- The loop over the months stops early on the days by which a month is shorter
    than the one before it. -/
theorem next_month (h : Leaves timestamp y m d s s')
    (hy : s < Calendar.daysInYear y * secondsInDay)
    (hm : ¬ s' < Calendar.daysInMonth y m * secondsInDay) :
    ∃ d', IsUtcDate timestamp y (m + 1) d' ∧ Skipped y (m + 1) d' := by
  obtain ⟨h1, hlt⟩ := h.month_short.resolve_left hm
  have h12 := h.month_le hy
  have hge := Calendar.daysInMonth_ge y h.month_pos h12
  have hle := Calendar.daysInMonth_le y (m - 1)
  -- November is no longer than December
  have hm11 : m ≤ 11 := by
    by_contra hgt
    have heq : m = 12 := by omega
    subst heq
    have hdec : Calendar.daysInMonth y 12 = 31 := rfl
    unfold secondsInDay at *
    omega
  have hge' := Calendar.daysInMonth_ge y (m := m + 1) (by omega) (by omega)
  obtain ⟨d', hd'⟩ : ∃ d' : ℕ,
      (d' : ℤ) = s' / secondsInDay - Calendar.daysInMonth y m + 1 := by
    refine ⟨(s' / secondsInDay - Calendar.daysInMonth y m + 1).toNat, ?_⟩
    unfold secondsInDay at *
    omega
  have hyear := h.year_eq
  have hmonth := h.month_eq
  have hstart := Calendar.dayNumber_first 1970
  have hthrough : daysThrough y m
      = daysThrough y (m - 1) + Calendar.daysInMonth y m := by
    obtain ⟨k, rfl⟩ : ∃ k, m = k + 1 := ⟨m - 1, by omega⟩
    rfl
  have hnum : dayNumber y (m + 1) d' = daysBeforeYear y + daysThrough y m + (d' - 1) := rfl
  have hdate : IsDate y (m + 1) d' := by
    refine ⟨by omega, by omega, ?_, ?_⟩
    all_goals
      unfold secondsInDay at *
      omega
  refine ⟨d', ⟨hdate, ?_, ?_⟩, (skipped_iff hdate (by omega)).mpr ⟨by omega, ?_⟩⟩
  · unfold secondsInDay at *
    omega
  · unfold secondsInDay at *
    omega
  · rw [show m + 1 - 2 = m - 1 by omega, Nat.add_sub_cancel]
    unfold secondsInDay at *
    omega

/-- The loops never stop on a skipped day: they would have had to pass a test they
    fail. -/
theorem not_skipped (h : Leaves timestamp y m d s s') (hdate : IsUtcDate timestamp y m d) :
    ¬ Skipped y m d := by
  intro hskip
  have hday := h.day_eq
  have hnonneg := h.month_nonneg
  by_cases hm : m = 1
  case pos =>
    -- the first second of the year is not a day after a leap year
    rcases hskip with ⟨-, rfl, hy, hleap⟩ | ⟨h3, -⟩ | ⟨h5, -⟩
    · have hcommon : ¬ Calendar.IsLeap (y - 1) := by
        have := Calendar.not_isLeap_succ hleap
        rwa [show y - 2 + 1 = y - 1 by omega] at this
      have hpassed := h.year_passed hy
      have hmonth := h.month_eq
      rw [Calendar.daysInYear, if_pos hleap, Calendar.daysInYear, if_neg hcommon] at hpassed
      rw [hm] at hmonth
      have hjan : daysThrough y (1 - 1) = 0 := rfl
      rw [hjan] at hmonth
      unfold secondsInDay at *
      omega
    · omega
    · omega
  case neg =>
    obtain ⟨h3, hle⟩ := (skipped_iff hdate.date hm).mp hskip
    have hpassed := h.month_passed h3
    unfold secondsInDay at *
    omega

end Leaves

/-! ## The calendar, up to the skipped days -/

/-- **`timestampToDate` IS THE CALENDAR UP TO THE SKIPPED DAYS.**  Below `2 ^ 32 - 1`
    it terminates, and what it returns is the UTC date of its argument if and only
    if the argument lies in no skipped day. -/
theorem timestampToDate_iff (timestamp : ℤ) (h0 : 0 ≤ timestamp)
    (hlt : timestamp < 2 ^ 32 - 1) :
    (∃ y m d, Returns timestamp y m d ∧ timestampToDate timestamp = some (y, m, d) ∧
      IsUtcDate timestamp y m d) ↔
    ¬ ∃ y m d, IsUtcDate timestamp y m d ∧ Skipped y m d := by
  constructor
  · rintro ⟨y, m, d, hret, -, hdate⟩ ⟨y', m', d', hdate', hskip⟩
    obtain ⟨rfl, rfl, rfl⟩ := hdate.unique hdate'
    obtain ⟨s, s', hleft⟩ := hret.leaves h0
    exact hleft.not_skipped hdate hskip
  · intro hnot
    obtain ⟨y, m, d, hret, heq⟩ := returns_timestampToDate h0 (by norm_num at hlt; exact hlt)
    refine ⟨y, m, d, hret, heq, ?_⟩
    obtain ⟨s, s', hleft⟩ := hret.leaves h0
    by_cases hy : s < Calendar.daysInYear y * secondsInDay
    · by_cases hm : s' < Calendar.daysInMonth y m * secondsInDay
      · exact hleft.isUtcDate hy hm
      · obtain ⟨d', hdate, hskip⟩ := hleft.next_month hy hm
        exact absurd ⟨y, m + 1, d', hdate, hskip⟩ hnot
    · exact absurd ⟨y + 1, 1, 1, hleft.new_year hy⟩ hnot

theorem isUtcDate_march : IsUtcDate 1677801600 2023 3 3 := by
  refine ⟨⟨by decide, by decide, by decide, by decide⟩, ?_, ?_⟩
  all_goals decide +kernel

/-- 3 March 2023 is skipped. -/
theorem timestampToDate_march :
    ¬ ∃ y m d, Returns 1677801600 y m d ∧ timestampToDate 1677801600 = some (y, m, d) ∧
      IsUtcDate 1677801600 y m d := by
  rw [timestampToDate_iff 1677801600 (by norm_num) (by norm_num)]
  exact not_not.mpr ⟨2023, 3, 3, isUtcDate_march, by decide⟩

/-- On 3 March 2023 the circuit reads 31 February. -/
theorem timestampToDate_past_february :
    timestampToDate 1677801600 = some (2023, 2, 31) ∧ ¬ 31 ≤ daysInMonth 2 2023 ∧
      ¬ ∀ timestamp : ℤ, 0 ≤ timestamp → timestamp < 2 ^ 32 - 1 →
        ∃ y m d, timestampToDate timestamp = some (y, m, d) ∧ IsUtcDate timestamp y m d := by
  have hval : timestampToDate 1677801600 = some (2023, 2, 31) := by decide +kernel
  refine ⟨hval, by decide, ?_⟩
  intro hall
  obtain ⟨y, m, d, hret, hdate⟩ := hall 1677801600 (by norm_num) (by norm_num)
  rw [hval] at hret
  obtain ⟨rfl, hmd⟩ := Prod.mk.inj (Option.some.inj hret)
  obtain ⟨rfl, rfl⟩ := Prod.mk.inj hmd
  exact absurd hdate.date.day_le (by decide)

end Albus.Circuits
