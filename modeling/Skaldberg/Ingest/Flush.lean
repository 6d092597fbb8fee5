import Mathlib.Data.List.Sort
import Skaldberg.Ingest.Buffer

/-!
# Persisting a snapshot

Two commits per flush, each on its own: the samples first, then the new series if there
are any. Either may fail; the second is not attempted when the first does. A commit appends
rows to its table, and nothing else ever writes to it.

`flush_cases` says what a flush can do; the later modules use it and do not open the
definitions. `Snapshot.samplesRows_perm` says that what the first commit appends is what the
buffer held: building a batch only sorts.
-/

namespace Skaldberg

variable {V : Type}

/-- The two tables of the catalog. -/
structure Tables (V : Type) where
  /-- The rows of the `samples` table. -/
  samples : List (SampleRow V)
  /-- The rows of the `series` table. -/
  series : List SeriesRow

/-- The tables of a fresh warehouse. -/
def Tables.empty : Tables V := ⟨[], []⟩

/-- The series ids of the `series` table. -/
def Tables.seriesIds (t : Tables V) : List ℤ := t.series.map SeriesRow.seriesId

/-- Whether the two commits of a flush land. -/
structure FlushIo where
  /-- The samples commit lands. -/
  samplesCommit : Bool
  /-- The series commit lands. -/
  seriesCommit : Bool
  deriving DecidableEq

/-- Both commits land. -/
def FlushIo.ok : FlushIo := ⟨true, true⟩

/-- Which commit failed. -/
inductive FlushError where
  /-- The samples commit. -/
  | samples
  /-- The series commit. -/
  | series
  deriving DecidableEq

/-- The context a failed commit is reported under. -/
def FlushError.context : FlushError → String
  | samples => "flush samples"
  | series => "flush series"

/-- The outcome of a flush. -/
structure FlushResult where
  /-- The number of samples written. -/
  samplesRows : ℕ
  /-- The number of series registered. -/
  seriesRows : ℕ
  /-- The largest log sequence number of the snapshot. -/
  maxRecordSeq : ℕ
  deriving DecidableEq

/-- The rows of one day: by series, the points of each in time order. -/
def buildSamplesBatch (bySeries : SortedMap ℤ (List (ℤ × V))) : List (SampleRow V) :=
  bySeries.entries.flatMap fun series =>
    (series.2.insertionSort fun p q => p.1 ≤ q.1).map fun point => ⟨series.1, point.1, point.2⟩

/-- The rows registering the new series. -/
def buildSeriesBatch (snap : Snapshot V) : List SeriesRow :=
  snap.newSeries.entries.map fun e => ⟨e.1, e.2.metric, e.2.labels⟩

/-- The rows a snapshot adds to the `samples` table, one batch a day. -/
def Snapshot.samplesRows (snap : Snapshot V) : List (SampleRow V) :=
  snap.byDay.entries.flatMap fun day => buildSamplesBatch day.2

/-- Write and commit the samples. -/
def flushSamples (commits : Bool) (t : Tables V) (snap : Snapshot V) : Option (Tables V) :=
  if commits then some { t with samples := t.samples ++ snap.samplesRows } else none

/-- Write and commit the new series. -/
def flushSeries (commits : Bool) (t : Tables V) (snap : Snapshot V) : Option (Tables V) :=
  if commits then some { t with series := t.series ++ buildSeriesBatch snap } else none

/-- Flush a snapshot to both tables. -/
def flush (io : FlushIo) (t : Tables V) (snap : Snapshot V) :
    Except FlushError FlushResult × Tables V :=
  match if snap.byDay.isEmpty then some t else flushSamples io.samplesCommit t snap with
  | none => (.error .samples, t)
  | some t =>
    match if snap.newSeries.isEmpty then some t else flushSeries io.seriesCommit t snap with
    | none => (.error .series, t)
    | some t =>
      (.ok ⟨snap.sampleCount, snap.newSeries.entries.length, snap.maxRecordSeq⟩, t)

/-! ### What a flush writes -/

theorem buildSamplesBatch_perm (bySeries : SortedMap ℤ (List (ℤ × V))) :
    (buildSamplesBatch bySeries).Perm (bySeries.entries.flatMap fun series =>
      series.2.map fun point => ⟨series.1, point.1, point.2⟩) :=
  List.Perm.flatMap_left _ fun _ _ => (List.perm_insertionSort ..).map _

/-- **The samples commit writes the rows of the snapshot**, each once. -/
theorem Snapshot.samplesRows_perm (snap : Snapshot V) :
    snap.samplesRows.Perm snap.byDay.rows :=
  List.Perm.flatMap_left _ fun day _ => buildSamplesBatch_perm day.2

theorem Snapshot.mem_samplesRows {snap : Snapshot V} {r : SampleRow V} :
    r ∈ snap.samplesRows ↔ r ∈ snap.byDay.rows := snap.samplesRows_perm.mem_iff

theorem Snapshot.samplesRows_of_isEmpty {snap : Snapshot V} (h : snap.byDay.isEmpty = true) :
    snap.samplesRows = [] := by
  rw [SortedMap.isEmpty, List.isEmpty_iff] at h
  rw [Snapshot.samplesRows, h]
  rfl

theorem map_seriesId_buildSeriesBatch (snap : Snapshot V) :
    (buildSeriesBatch snap).map SeriesRow.seriesId = snap.newSeries.keys := by
  rw [buildSeriesBatch, List.map_map]
  rfl

theorem buildSeriesBatch_of_isEmpty {snap : Snapshot V} (h : snap.newSeries.isEmpty = true) :
    buildSeriesBatch snap = [] := by
  rw [SortedMap.isEmpty, List.isEmpty_iff] at h
  rw [buildSeriesBatch, h]
  rfl

/-- **What a flush can do**: fail at the samples and write nothing, fail at the series with
the samples written, or write both. -/
theorem flush_cases (io : FlushIo) (t : Tables V) (snap : Snapshot V) :
    (flush io t snap = (.error .samples, t) ∧ io.samplesCommit = false) ∨
    (flush io t snap = (.error .series, { t with samples := t.samples ++ snap.samplesRows }) ∧
      io.seriesCommit = false ∧ snap.newSeries.isEmpty = false ∧
      (io.samplesCommit = true ∨ snap.byDay.isEmpty = true)) ∨
    (flush io t snap =
      (.ok ⟨snap.sampleCount, snap.newSeries.entries.length, snap.maxRecordSeq⟩,
        ⟨t.samples ++ snap.samplesRows, t.series ++ buildSeriesBatch snap⟩) ∧
      (io.samplesCommit = true ∨ snap.byDay.isEmpty = true) ∧
      (io.seriesCommit = true ∨ snap.newSeries.isEmpty = true)) := by
  obtain ⟨samplesCommit, seriesCommit⟩ := io
  rcases hd : snap.byDay.isEmpty with _ | _ <;> rcases hn : snap.newSeries.isEmpty with _ | _ <;>
    cases samplesCommit <;> cases seriesCommit <;>
    simp [flush, flushSamples, flushSeries, hd, hn, Snapshot.samplesRows_of_isEmpty,
      buildSeriesBatch_of_isEmpty]

end Skaldberg
