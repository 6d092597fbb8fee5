import Mathlib.Data.Int.ConditionallyCompleteOrder
import Mathlib.Data.Prod.Lex
import Mathlib.Tactic.IntervalCases

/-!
# The Gregorian calendar

Calendar dates and the days they stand for, counted from 1970-01-01, for all years. A date is a
year, a month and a day of the month (`Gregorian.Date`); the calendar is told by the length of its
months (`Gregorian.daysInMonth`) and the date after a date (`Gregorian.Date.next`).

Both directions are computed on years that begin in March, so that the leap day is the last of its
year. They are inverse to each other on dates that exist (`Gregorian.dayNumber_ofDayNumber`,
`Gregorian.ofDayNumber_dayNumber`), and counting days is stepping through the calendar
(`Gregorian.ofDayNumber_succ`): so later days have later dates (`Gregorian.strictMono_key`).
-/

namespace Gregorian

/-- A year, a month and a day of the month. -/
structure Date where
  /-- The year; the year before 1 is 0. -/
  year : ℤ
  /-- The month, from 1. -/
  month : ℤ
  /-- The day of the month, from 1. -/
  day : ℤ
  deriving DecidableEq

/-- A leap year. -/
def IsLeap (y : ℤ) : Prop := y % 4 = 0 ∧ (y % 100 ≠ 0 ∨ y % 400 = 0)

instance (y : ℤ) : Decidable (IsLeap y) := inferInstanceAs (Decidable (_ ∧ _))

/-- The number of days of a month. -/
def daysInMonth (y m : ℤ) : ℤ :=
  if m = 2 then if IsLeap y then 29 else 28
  else if m = 4 ∨ m = 6 ∨ m = 9 ∨ m = 11 then 30
  else 31

namespace Date

/-- A date of the calendar. -/
structure Valid (d : Date) : Prop where
  /-- The month is one of twelve. -/
  month : 1 ≤ d.month ∧ d.month ≤ 12
  /-- The day is one of the month. -/
  day : 1 ≤ d.day ∧ d.day ≤ daysInMonth d.year d.month

/-- The date after a date. -/
def next (d : Date) : Date :=
  if d.day < daysInMonth d.year d.month then { d with day := d.day + 1 }
  else if d.month < 12 then ⟨d.year, d.month + 1, 1⟩
  else ⟨d.year + 1, 1, 1⟩

/-- A date in the order of the calendar. -/
def key (d : Date) : ℤ ×ₗ ℤ ×ₗ ℤ := toLex (d.year, toLex (d.month, d.day))

theorem key_injective {d d' : Date} (h : d.key = d'.key) : d = d' := by
  obtain ⟨y, m, n⟩ := d
  obtain ⟨y', m', n'⟩ := d'
  simp only [key, toLex_inj, Prod.mk.injEq] at h
  obtain ⟨rfl, rfl, rfl⟩ := h
  rfl

theorem key_lt_next (d : Date) : d.key < d.next.key := by
  rw [next]
  split_ifs
  · exact Prod.Lex.toLex_lt_toLex.mpr
      (Or.inr ⟨rfl, Prod.Lex.toLex_lt_toLex.mpr (Or.inr ⟨rfl, Int.lt_succ _⟩)⟩)
  · exact Prod.Lex.toLex_lt_toLex.mpr
      (Or.inr ⟨rfl, Prod.Lex.toLex_lt_toLex.mpr (Or.inl (Int.lt_succ _))⟩)
  · exact Prod.Lex.toLex_lt_toLex.mpr (Or.inl (Int.lt_succ _))

theorem Valid.next {d : Date} (h : d.Valid) : d.next.Valid := by
  obtain ⟨⟨hm, hm'⟩, hd, -⟩ := h
  have hpos : ∀ y m, 1 ≤ daysInMonth y m := by
    intro y m
    rw [daysInMonth]
    split_ifs <;> omega
  rw [Date.next]
  split_ifs with hlast hdec
  · refine ⟨⟨hm, hm'⟩, ?_, Int.add_one_le_of_lt hlast⟩
    show 1 ≤ d.day + 1
    omega
  · refine ⟨?_, Int.le_refl 1, hpos _ _⟩
    show 1 ≤ d.month + 1 ∧ d.month + 1 ≤ 12
    omega
  · refine ⟨?_, Int.le_refl 1, hpos _ _⟩
    show (1 : ℤ) ≤ 1 ∧ (1 : ℤ) ≤ 12
    omega

end Date

/-! ### Years that begin in March -/

/-- The days before a March-based year, counted from March of year 0. -/
def daysBefore (y : ℤ) : ℤ := 365 * y + y / 4 - y / 100 + y / 400

/-- The days of a March-based year before one of its months, March being month 0. -/
def daysBeforeMonth (mp : ℤ) : ℤ := (153 * mp + 2) / 5

/-- A day of a March-based year. -/
structure YearDay where
  /-- The year. -/
  year : ℤ
  /-- The day in it, from 0. -/
  day : ℤ

/-- The March-based year of a day: through periods of 400, 100, 4 and single years, the last of
which may be a day longer. -/
def yearDay (z : ℤ) : YearDay :=
  let dayOfEra := z % 146097
  let century := min 3 (dayOfEra / 36524)
  let dayOfCentury := dayOfEra - 36524 * century
  let dayOfFour := dayOfCentury % 1461
  let yearOfFour := min 3 (dayOfFour / 365)
  ⟨400 * (z / 146097) + 100 * century + 4 * (dayOfCentury / 1461) + yearOfFour,
    dayOfFour - 365 * yearOfFour⟩

theorem daysBefore_succ (y : ℤ) :
    daysBefore (y + 1) = daysBefore y + if IsLeap (y + 1) then 366 else 365 := by
  simp only [daysBefore, IsLeap]
  split_ifs with h <;> omega

theorem daysBefore_mono : Monotone daysBefore :=
  monotone_int_of_le_succ fun y => by
    rw [daysBefore_succ]
    split_ifs <;> omega

/-- **The day of a year is a day of that year.** -/
theorem yearDay_spec (z : ℤ) :
    daysBefore (yearDay z).year + (yearDay z).day = z ∧ 0 ≤ (yearDay z).day ∧
      z < daysBefore ((yearDay z).year + 1) := by
  simp only [yearDay, daysBefore]
  have hera := Int.mul_ediv_add_emod z 146097
  have hera0 := Int.emod_nonneg z (b := 146097) (by decide)
  have hera1 := Int.emod_lt_of_pos z (b := 146097) (by decide)
  generalize z / 146097 = era at *
  generalize z % 146097 = e at *
  subst hera
  -- a century has 36524 days, and the last one of four may have one more
  obtain ⟨hc0, hc3, hd0, hd1, hd2⟩ : 0 ≤ min 3 (e / 36524) ∧ min 3 (e / 36524) ≤ 3 ∧
      0 ≤ e - 36524 * min 3 (e / 36524) ∧ e - 36524 * min 3 (e / 36524) ≤ 36524 ∧
        (min 3 (e / 36524) < 3 → e - 36524 * min 3 (e / 36524) < 36524) := by omega
  generalize min 3 (e / 36524) = c at *
  have hfour := Int.mul_ediv_add_emod (e - 36524 * c) 1461
  have hfour0 := Int.emod_nonneg (e - 36524 * c) (b := 1461) (by decide)
  have hfour1 := Int.emod_lt_of_pos (e - 36524 * c) (b := 1461) (by decide)
  generalize (e - 36524 * c) / 1461 = q at *
  generalize (e - 36524 * c) % 1461 = f at *
  -- a year has 365 days, and the last one of four may have one more
  obtain ⟨hr0, hr3, hy0, hy1, hy2⟩ : 0 ≤ min 3 (f / 365) ∧ min 3 (f / 365) ≤ 3 ∧
      0 ≤ f - 365 * min 3 (f / 365) ∧ f - 365 * min 3 (f / 365) ≤ 365 ∧
        (min 3 (f / 365) < 3 → f - 365 * min 3 (f / 365) < 365) := by omega
  generalize min 3 (f / 365) = r at *
  have hq0 : 0 ≤ q := by omega
  have hq24 : q ≤ 24 := by omega
  have h4 : (400 * era + 100 * c + 4 * q + r) / 4 = 100 * era + 25 * c + q := by omega
  have h100 : (400 * era + 100 * c + 4 * q + r) / 100 = 4 * era + c := by omega
  have h400 : (400 * era + 100 * c + 4 * q + r) / 400 = era := by omega
  rw [h4, h100, h400]
  refine ⟨by omega, by omega, ?_⟩
  -- the year after is in the same periods, unless it opens one
  rcases Int.lt_or_eq_of_le hr3 with hr | rfl
  · have h4' : (400 * era + 100 * c + 4 * q + r + 1) / 4 = 100 * era + 25 * c + q := by omega
    have h100' : (400 * era + 100 * c + 4 * q + r + 1) / 100 = 4 * era + c := by omega
    have h400' : (400 * era + 100 * c + 4 * q + r + 1) / 400 = era := by omega
    rw [h4', h100', h400']
    omega
  · have h4' : (400 * era + 100 * c + 4 * q + 3 + 1) / 4 = 100 * era + 25 * c + q + 1 := by omega
    rw [h4']
    rcases Int.lt_or_eq_of_le hq24 with hq | rfl
    · have h100' : (400 * era + 100 * c + 4 * q + 3 + 1) / 100 = 4 * era + c := by omega
      have h400' : (400 * era + 100 * c + 4 * q + 3 + 1) / 400 = era := by omega
      rw [h100', h400']
      omega
    · have h100' : (400 * era + 100 * c + 4 * 24 + 3 + 1) / 100 = 4 * era + c + 1 := by omega
      rw [h100']
      omega

theorem yearDay_eq {z y d : ℤ} (h : daysBefore y + d = z) (h0 : 0 ≤ d)
    (h1 : z < daysBefore (y + 1)) : yearDay z = ⟨y, d⟩ := by
  obtain ⟨hz, hd0, hd1⟩ := yearDay_spec z
  have hyear : (yearDay z).year = y := by
    rcases Int.lt_trichotomy (yearDay z).year y with hlt | heq | hgt
    · have := daysBefore_mono (Int.add_one_le_of_lt hlt)
      omega
    · exact heq
    · have := daysBefore_mono (Int.add_one_le_of_lt hgt)
      omega
  rw [hyear] at hz
  have hday : (yearDay z).day = d := by omega
  calc
    yearDay z = ⟨(yearDay z).year, (yearDay z).day⟩ := rfl
    _ = ⟨y, d⟩ := by rw [hyear, hday]

/-- A month fits between the days before it and those before the next one. -/
theorem daysInMonth_le {y m : ℤ} (h : 1 ≤ m ∧ m ≤ 12) :
    daysBeforeMonth ((m + 9) % 12) + daysInMonth y m ≤ daysBeforeMonth ((m + 9) % 12 + 1) := by
  obtain ⟨h1, h2⟩ := h
  simp only [daysBeforeMonth, daysInMonth]
  interval_cases m <;> simp
  split_ifs <;> omega

/-- A day of a month of a March-based year is in that month. -/
theorem month_of_day {mp d : ℤ} (h1 : 1 ≤ d)
    (h2 : daysBeforeMonth mp + d ≤ daysBeforeMonth (mp + 1)) :
    (5 * (daysBeforeMonth mp + d - 1) + 2) / 153 = mp := by
  simp only [daysBeforeMonth] at *
  omega

/-! ### Dates and days -/

/-- The March-based year of a date. -/
def Date.marchYear (d : Date) : ℤ := if d.month ≤ 2 then d.year - 1 else d.year

/-- The number of the day of a date, counted from 1970-01-01. -/
def Date.dayNumber (d : Date) : ℤ :=
  daysBefore d.marchYear + daysBeforeMonth ((d.month + 9) % 12) + d.day - 1 - 719468

/-- The date of a day, counted from 1970-01-01. -/
def ofDayNumber (n : ℤ) : Date :=
  let yd := yearDay (n + 719468)
  let mp := (5 * yd.day + 2) / 153
  let month := if mp < 10 then mp + 3 else mp - 9
  ⟨if month ≤ 2 then yd.year + 1 else yd.year, month, yd.day - daysBeforeMonth mp + 1⟩

/-- The leap day is the last of its March-based year. -/
theorem lt_marchYear {y m n : ℤ} (hm : 1 ≤ m ∧ m ≤ 12) (hn : n ≤ daysInMonth y m) :
    daysBeforeMonth ((m + 9) % 12) + n - 1 <
      if IsLeap ((⟨y, m, n⟩ : Date).marchYear + 1) then 366 else 365 := by
  obtain ⟨hm1, hm2⟩ := hm
  simp only [daysBeforeMonth, daysInMonth, Date.marchYear] at *
  interval_cases m <;> simp at * <;> split_ifs at * <;> omega

/-- The epoch. -/
example : (⟨1970, 1, 1⟩ : Date).dayNumber = 0 := by decide

/-- **The days of the calendar** are the days of its dates. -/
theorem ofDayNumber_dayNumber {d : Date} (h : d.Valid) : ofDayNumber d.dayNumber = d := by
  obtain ⟨y, m, n⟩ := d
  obtain ⟨hm, hn1, hn2⟩ := h
  simp only at hm hn1 hn2
  have hfits : _ + daysInMonth y m ≤ _ := daysInMonth_le hm
  have hmp : 0 ≤ (m + 9) % 12 ∧ (m + 9) % 12 ≤ 11 := by omega
  have hyear : yearDay ((⟨y, m, n⟩ : Date).dayNumber + 719468) =
      ⟨(⟨y, m, n⟩ : Date).marchYear, daysBeforeMonth ((m + 9) % 12) + n - 1⟩ := by
    refine yearDay_eq ?_ ?_ ?_
    · simp only [Date.dayNumber]
      omega
    · simp only [daysBeforeMonth]
      omega
    · rw [daysBefore_succ]
      simp only [Date.dayNumber]
      have hlast := lt_marchYear hm hn2
      omega
  have hmonth : (5 * (daysBeforeMonth ((m + 9) % 12) + n - 1) + 2) / 153 = (m + 9) % 12 :=
    month_of_day hn1 (by omega)
  simp only [ofDayNumber, hyear, hmonth, Date.marchYear, Date.mk.injEq]
  have hback : (if (m + 9) % 12 < 10 then (m + 9) % 12 + 3 else (m + 9) % 12 - 9) = m := by
    split_ifs <;> omega
  rw [hback]
  refine ⟨?_, rfl, by omega⟩
  split_ifs <;> omega

theorem valid_ofDayNumber (n : ℤ) : (ofDayNumber n).Valid := by
  obtain ⟨h, h0, h1⟩ := yearDay_spec (n + 719468)
  rw [daysBefore_succ] at h1
  rw [ofDayNumber]
  generalize yearDay (n + 719468) = yd at *
  have hlong : yd.day < if IsLeap (yd.year + 1) then 366 else 365 := by omega
  have hmp : 0 ≤ (5 * yd.day + 2) / 153 ∧ (5 * yd.day + 2) / 153 ≤ 11 := by
    split_ifs at hlong <;> omega
  have hday : daysBeforeMonth ((5 * yd.day + 2) / 153) ≤ yd.day ∧
      yd.day < daysBeforeMonth ((5 * yd.day + 2) / 153 + 1) := by
    simp only [daysBeforeMonth]
    omega
  generalize (5 * yd.day + 2) / 153 = mp at *
  refine ⟨by dsimp only; split_ifs <;> omega, by dsimp only; omega, ?_⟩
  dsimp only
  simp only [daysBeforeMonth] at *
  obtain rfl | rfl | rfl | rfl | rfl | rfl | rfl | rfl | rfl | rfl | rfl | rfl :
      mp = 0 ∨ mp = 1 ∨ mp = 2 ∨ mp = 3 ∨ mp = 4 ∨ mp = 5 ∨ mp = 6 ∨ mp = 7 ∨ mp = 8 ∨ mp = 9 ∨
        mp = 10 ∨ mp = 11 := by omega
  all_goals
    simp [daysInMonth] at *
    try omega
  split_ifs at * <;> omega

/-- **Counting days is counting dates.** -/
theorem dayNumber_ofDayNumber (n : ℤ) : (ofDayNumber n).dayNumber = n := by
  obtain ⟨h, h0, h1⟩ := yearDay_spec (n + 719468)
  rw [daysBefore_succ] at h1
  rw [ofDayNumber]
  generalize yearDay (n + 719468) = yd at *
  have hlong : yd.day < if IsLeap (yd.year + 1) then 366 else 365 := by omega
  have hmp : 0 ≤ (5 * yd.day + 2) / 153 ∧ (5 * yd.day + 2) / 153 ≤ 11 := by
    split_ifs at hlong <;> omega
  dsimp only [Date.dayNumber, Date.marchYear]
  generalize (5 * yd.day + 2) / 153 = mp at *
  have hmonth : ((if mp < 10 then mp + 3 else mp - 9) + 9) % 12 = mp := by
    split_ifs <;> omega
  rw [hmonth]
  have hyear : (if (if mp < 10 then mp + 3 else mp - 9) ≤ 2 then
      (if (if mp < 10 then mp + 3 else mp - 9) ≤ 2 then yd.year + 1 else yd.year) - 1
      else if (if mp < 10 then mp + 3 else mp - 9) ≤ 2 then yd.year + 1 else yd.year) =
        yd.year := by
    split_ifs <;> omega
  rw [hyear]
  omega

theorem Date.Valid.dayNumber_next {d : Date} (h : d.Valid) :
    d.next.dayNumber = d.dayNumber + 1 := by
  obtain ⟨y, m, k⟩ := d
  obtain ⟨⟨hm1, hm2⟩, hk1, hk2⟩ := h
  simp only at hm1 hm2 hk1 hk2
  rw [Date.next]
  split_ifs with hlast hdec
  · simp only [Date.dayNumber, Date.marchYear]
    omega
  · -- the first day of a month comes after the last of the month before
    obtain rfl : k = daysInMonth y m := by
      simp only at hlast
      omega
    simp only at hdec
    interval_cases m <;>
      simp [Date.dayNumber, Date.marchYear, daysBeforeMonth, daysInMonth] <;> try omega
    have hmarch : daysBefore y = daysBefore (y - 1 + 1) := by rw [Int.sub_add_cancel]
    rw [hmarch, daysBefore_succ, Int.sub_add_cancel]
    split_ifs <;> omega
  · simp only at hlast hdec
    obtain rfl : m = 12 := by omega
    obtain rfl : k = 31 := by
      simp only [daysInMonth] at *
      omega
    simp [Date.dayNumber, Date.marchYear, daysBeforeMonth]
    omega

/-- **The day after is the next date.** -/
theorem ofDayNumber_succ (n : ℤ) : ofDayNumber (n + 1) = (ofDayNumber n).next := by
  have hvalid := valid_ofDayNumber n
  have hnext := hvalid.dayNumber_next
  rw [dayNumber_ofDayNumber] at hnext
  rw [← hnext, ofDayNumber_dayNumber hvalid.next]

/-- **Later days have later dates.** -/
theorem strictMono_key : StrictMono fun n => (ofDayNumber n).key :=
  strictMono_int_of_lt_succ fun n => by
    rw [ofDayNumber_succ]
    exact Date.key_lt_next _

end Gregorian
