import Mathlib.Data.String.Basic
import Skaldberg.Lib.SortedMap

/-!
# Samples

The sample that has cleared validation, in the form the write path passes around: the
write-ahead log persists lists of them, the buffer accumulates them, a flush writes their
rows. The value of a sample is never computed with on this path, so its type is a
parameter.
-/

namespace Skaldberg

/-- The label map of a series, in label-name order. -/
abbrev Labels := SortedMap String String

/-- A sample that has cleared validation; its timestamp is in microseconds. -/
structure ValidatedSample (V : Type) where
  /-- The identity of the series, derived from the metric and the labels. -/
  seriesId : ℤ
  /-- The metric name. -/
  metric : String
  /-- The labels. -/
  labels : Labels
  /-- The timestamp, in microseconds since the epoch. -/
  tsUs : ℤ
  /-- The value. -/
  value : V
  deriving DecidableEq

/-- A row of the `samples` table. -/
structure SampleRow (V : Type) where
  /-- The series the sample belongs to. -/
  seriesId : ℤ
  /-- The timestamp, in microseconds since the epoch. -/
  timestamp : ℤ
  /-- The value. -/
  value : V
  deriving DecidableEq

/-- A row of the `series` table. -/
structure SeriesRow where
  /-- The identity of the series. -/
  seriesId : ℤ
  /-- The metric name. -/
  metricName : String
  /-- The labels. -/
  labels : Labels
  deriving DecidableEq

/-- The row a sample becomes in the `samples` table. -/
def ValidatedSample.row {V : Type} (s : ValidatedSample V) : SampleRow V :=
  ⟨s.seriesId, s.tsUs, s.value⟩

end Skaldberg
