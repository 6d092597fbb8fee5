import Mathlib.Data.Int.Basic

/-!
# Instants and calendar dates

What the program uses of its calendar library: an instant is a number of seconds since the
Unix epoch and a number of nanoseconds, and only the instants between the library's first
and last calendar day exist. A date is kept as the number of its day, counted from
1970-01-01; the order of dates is the order of these numbers.
-/

namespace Skaldberg

/-- An instant in UTC: whole seconds since the epoch, and the nanoseconds above them. -/
structure DateTime where
  /-- Whole seconds since 1970-01-01T00:00:00Z, rounded down. -/
  secs : ℤ
  /-- Nanoseconds above the whole second. -/
  nanos : ℕ
  deriving DecidableEq

/-- A calendar date, as the number of its day since 1970-01-01. -/
abbrev NaiveDate := ℤ

/-- The first second that has a calendar date: -262143-01-01T00:00:00Z. -/
def minSecs : ℤ := -8334601228800

/-- The last second that has a calendar date: 262142-12-31T23:59:59Z. -/
def maxSecs : ℤ := 8210266876799

/-- `DateTime::from_timestamp`: the instant, unless it has no calendar date. A second of a
minute's end may carry up to two seconds of nanoseconds, for a leap second. -/
def DateTime.fromTimestamp (secs : ℤ) (nanos : ℕ) : Option DateTime :=
  if minSecs ≤ secs ∧ secs ≤ maxSecs ∧
      (nanos < 1000000000 ∨ nanos < 2000000000 ∧ secs % 60 = 59) then
    some ⟨secs, nanos⟩
  else none

/-- `DateTime::from_timestamp_micros`. -/
def DateTime.fromTimestampMicros (us : ℤ) : Option DateTime :=
  DateTime.fromTimestamp (us / 1000000) (us % 1000000 * 1000).toNat

/-- `DateTime::date_naive`: the date an instant falls on. -/
def DateTime.dateNaive (dt : DateTime) : NaiveDate := dt.secs / 86400

/-- The microseconds since the epoch of an instant. -/
def DateTime.micros (dt : DateTime) : ℤ := dt.secs * 1000000 + dt.nanos / 1000

/-- The instants with a calendar date, in microseconds since the epoch. -/
def InRangeMicros (us : ℤ) : Prop := minSecs * 1000000 ≤ us ∧ us < (maxSecs + 1) * 1000000

instance (us : ℤ) : Decidable (InRangeMicros us) := by
  unfold InRangeMicros
  infer_instance

/-- **What the library does with microseconds**: an instant with a date is kept exactly,
and the others are refused. -/
theorem DateTime.fromTimestampMicros_eq (us : ℤ) :
    (DateTime.fromTimestampMicros us).map DateTime.micros =
      if InRangeMicros us then some us else none := by
  have hdiv := Int.mul_ediv_add_emod us 1000000
  have hnn : 0 ≤ us % 1000000 := Int.emod_nonneg us (by decide)
  have hlt : us % 1000000 < 1000000 := Int.emod_lt_of_pos us (by decide)
  have hnat : ((us % 1000000 * 1000).toNat : ℤ) = us % 1000000 * 1000 :=
    Int.toNat_of_nonneg (by omega)
  by_cases h : InRangeMicros us
  · obtain ⟨h₁, h₂⟩ := h
    have hs : minSecs ≤ us / 1000000 ∧ us / 1000000 ≤ maxSecs ∧
        ((us % 1000000 * 1000).toNat < 1000000000 ∨
          (us % 1000000 * 1000).toNat < 2000000000 ∧ us / 1000000 % 60 = 59) := by
      simp only [minSecs, maxSecs] at *
      omega
    rw [if_pos ⟨h₁, h₂⟩, DateTime.fromTimestampMicros, DateTime.fromTimestamp, if_pos hs]
    simp only [Option.map_some, DateTime.micros, hnat]
    congr 1
    omega
  · have hs : ¬(minSecs ≤ us / 1000000 ∧ us / 1000000 ≤ maxSecs ∧
        ((us % 1000000 * 1000).toNat < 1000000000 ∨
          (us % 1000000 * 1000).toNat < 2000000000 ∧ us / 1000000 % 60 = 59)) := by
      rintro ⟨h₁, h₂, -⟩
      refine h ⟨?_, ?_⟩ <;> simp only [minSecs, maxSecs] at * <;> omega
    rw [if_neg h, DateTime.fromTimestampMicros, DateTime.fromTimestamp, if_neg hs]
    rfl

end Skaldberg
