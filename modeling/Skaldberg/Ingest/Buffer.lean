import Mathlib.Data.Finset.Basic
import Skaldberg.Chrono
import Skaldberg.Ingest.Types

/-!
# The in-memory accumulator

Between the write-ahead log and a flush, samples accumulate in a two-level ordered map, by
day and then by series. The buffer also keeps which series ids it takes to be registered
already (`Buffer.knownSeries`) and the metric and labels of the ones it has met for the
first time since the last swap-out (`Buffer.newSeries`).

What the later results need of the two operations is said once here.

* `Buffer.rows_insertBatch`: a batch adds its own rows to what the buffer holds, no more and
  no less; the two-level map is only a rearrangement of a multiset of rows.
* `Buffer.take_rows`: a swap-out moves all the rows into the snapshot.
* `Buffer.mem_registered_insertBatch`: after a batch every id of the batch is known or new,
  and none is forgotten.
* `Buffer.points_insertBatch`: under a day and a series the points stand in the order of their
  insertion.
* `Buffer.get?_newSeries_insertBatch`: a new series is registered under the metric and labels of
  its first sample.
-/

namespace Skaldberg

/-- Per-sample memory cost estimate. -/
def bytesPerSample : ℕ := 32

/-- The metric and labels of a series met for the first time. -/
structure NewSeriesEntry where
  /-- The identity of the series. -/
  seriesId : ℤ
  /-- The metric name. -/
  metric : String
  /-- The labels. -/
  labels : Labels
  deriving DecidableEq

/-- The samples of a buffer: by day, then by series, in insertion order. -/
abbrev ByDay (V : Type) := SortedMap NaiveDate (SortedMap ℤ (List (ℤ × V)))

/-- The accumulator. -/
structure Buffer (V : Type) where
  /-- The samples, by day and series. -/
  byDay : ByDay V
  /-- The series met for the first time since the last `take`. -/
  newSeries : SortedMap ℤ NewSeriesEntry
  /-- The series ids taken to be registered. -/
  knownSeries : Finset ℤ
  /-- The estimated memory of the samples held. -/
  bytesEstimate : ℕ
  /-- The number of samples held. -/
  sampleCount : ℕ
  /-- The largest log sequence number inserted since the last `take`. -/
  maxRecordSeq : ℕ

/-- What a `take` hands to the flusher. -/
structure Snapshot (V : Type) where
  /-- The samples, by day and series. -/
  byDay : ByDay V
  /-- The series to register. -/
  newSeries : SortedMap ℤ NewSeriesEntry
  /-- The estimated memory of the samples. -/
  bytesEstimate : ℕ
  /-- The number of samples. -/
  sampleCount : ℕ
  /-- The largest log sequence number of the snapshot. -/
  maxRecordSeq : ℕ

/-- The day of a timestamp; an instant outside the calendar counts for 1970-01-01. -/
def dayOfUs (tsUs : ℤ) : NaiveDate :=
  match DateTime.fromTimestamp (tsUs / 1000000) (tsUs % 1000000 * 1000).toNat with
  | some dt => dt.dateNaive
  | none => 0

/-- The rows of a two-level sample map, in iteration order. -/
def ByDay.rows {V : Type} (m : ByDay V) : List (SampleRow V) :=
  m.entries.flatMap fun day => day.2.entries.flatMap fun series =>
    series.2.map fun point => ⟨series.1, point.1, point.2⟩

namespace Buffer

variable {V : Type}

/-- An empty buffer with a pre-populated set of registered series. -/
def withKnownSeries (seed : List ℤ) : Buffer V where
  byDay := .empty
  newSeries := .empty
  knownSeries := seed.toFinset
  bytesEstimate := 0
  sampleCount := 0
  maxRecordSeq := 0

/-- Insert one sample. -/
def insertOne (b : Buffer V) (s : ValidatedSample V) : Buffer V :=
  let day := dayOfUs s.tsUs
  { b with
    newSeries :=
      if s.seriesId ∉ b.knownSeries ∧ ¬b.newSeries.contains s.seriesId then
        b.newSeries.insert s.seriesId ⟨s.seriesId, s.metric, s.labels⟩
      else b.newSeries
    byDay := b.byDay.upsert day fun seriesMap =>
      (seriesMap.getD .empty).upsert s.seriesId fun points =>
        points.getD [] ++ [(s.tsUs, s.value)]
    bytesEstimate := b.bytesEstimate + bytesPerSample
    sampleCount := b.sampleCount + 1 }

/-- Insert the samples of one log record. -/
def insertBatch (b : Buffer V) (recordSeq : ℕ) (samples : List (ValidatedSample V)) : Buffer V :=
  samples.foldl insertOne
    { b with maxRecordSeq := if recordSeq > b.maxRecordSeq then recordSeq else b.maxRecordSeq }

/-- Whether the buffer holds no sample. -/
def isEmpty (b : Buffer V) : Bool := b.sampleCount == 0

/-- Take ownership of the contents and reset; the ids of the snapshot's new series are
promoted to known ones. -/
def take (b : Buffer V) : Snapshot V × Buffer V :=
  (⟨b.byDay, b.newSeries, b.bytesEstimate, b.sampleCount, b.maxRecordSeq⟩,
    { byDay := .empty
      newSeries := .empty
      knownSeries := b.knownSeries ∪ b.newSeries.keys.toFinset
      bytesEstimate := 0
      sampleCount := 0
      maxRecordSeq := 0 })

/-! ### The rows a buffer holds -/

/-- The rows a buffer holds. -/
def rows (b : Buffer V) : List (SampleRow V) := b.byDay.rows

@[simp] theorem rows_withKnownSeries (seed : List ℤ) :
    (withKnownSeries seed : Buffer V).rows = [] := rfl

@[simp] theorem take_rows (b : Buffer V) : b.take.1.byDay.rows = b.rows := rfl

@[simp] theorem rows_take (b : Buffer V) : b.take.2.rows = [] := rfl

/-- **One insertion adds one row**, wherever in the two-level map it lands. -/
theorem rows_insertOne (b : Buffer V) (s : ValidatedSample V) :
    (b.insertOne s).rows.Perm (s.row :: b.rows) := by
  refine SortedMap.flatMap_upsert_perm _ b.byDay (dayOfUs s.tsUs) _ [s.row] ?_
  rcases b.byDay.get? (dayOfUs s.tsUs) with _ | seriesMap
  · simp [SortedMap.upsert, SortedMap.upsertList, ValidatedSample.row]
  · -- the day is there: the same argument one level down
    simp only [Option.getD_some, Option.toList_some, List.flatMap_cons, List.flatMap_nil,
      List.append_nil]
    refine SortedMap.flatMap_upsert_perm _ seriesMap s.seriesId _ [s.row] ?_
    rcases seriesMap.get? s.seriesId with _ | points
    · simp [ValidatedSample.row]
    · simp only [Option.getD_some, Option.toList_some, List.flatMap_cons, List.flatMap_nil,
        List.append_nil, List.map_append, List.map_cons, List.map_nil]
      exact List.perm_append_comm

/-- **A batch adds its own rows.** -/
theorem rows_insertBatch (b : Buffer V) (seq : ℕ) (samples : List (ValidatedSample V)) :
    (b.insertBatch seq samples).rows.Perm (samples.map ValidatedSample.row ++ b.rows) := by
  rw [insertBatch]
  generalize hb : ({ b with maxRecordSeq := _ } : Buffer V) = b'
  have hrows : b.rows = b'.rows := by rw [← hb]; rfl
  rw [hrows]
  clear hb hrows
  induction samples generalizing b' with
  | nil => exact List.Perm.refl _
  | cons s samples ih =>
    refine (ih (b'.insertOne s)).trans ?_
    refine ((b'.rows_insertOne s).append_left _).trans ?_
    simp [List.perm_middle]

theorem mem_rows_insertBatch {b : Buffer V} {seq : ℕ} {samples : List (ValidatedSample V)}
    {r : SampleRow V} :
    r ∈ (b.insertBatch seq samples).rows ↔ r ∈ samples.map ValidatedSample.row ∨ r ∈ b.rows := by
  rw [(b.rows_insertBatch seq samples).mem_iff, List.mem_append]

/-! ### The counters -/

theorem insertBatch_maxRecordSeq (b : Buffer V) (seq : ℕ) (samples : List (ValidatedSample V)) :
    (b.insertBatch seq samples).maxRecordSeq = max seq b.maxRecordSeq := by
  have h : ∀ (l : List (ValidatedSample V)) (c : Buffer V),
      (l.foldl insertOne c).maxRecordSeq = c.maxRecordSeq := by
    intro l
    induction l with
    | nil => exact fun _ => rfl
    | cons s l ih => exact fun c => ih (c.insertOne s)
  rw [insertBatch, h]
  simp only
  split_ifs with hlt <;> omega

theorem insertBatch_sampleCount (b : Buffer V) (seq : ℕ) (samples : List (ValidatedSample V)) :
    (b.insertBatch seq samples).sampleCount = b.sampleCount + samples.length := by
  have h : ∀ (l : List (ValidatedSample V)) (c : Buffer V),
      (l.foldl insertOne c).sampleCount = c.sampleCount + l.length := by
    intro l
    induction l with
    | nil => exact fun _ => rfl
    | cons s l ih =>
      intro c
      rw [List.foldl_cons, ih, List.length_cons]
      simp only [insertOne]
      omega
  rw [insertBatch, h]

theorem insertBatch_bytesEstimate (b : Buffer V) (seq : ℕ) (samples : List (ValidatedSample V)) :
    (b.insertBatch seq samples).bytesEstimate =
      b.bytesEstimate + samples.length * bytesPerSample := by
  have h : ∀ (l : List (ValidatedSample V)) (c : Buffer V),
      (l.foldl insertOne c).bytesEstimate = c.bytesEstimate + l.length * bytesPerSample := by
    intro l
    induction l with
    | nil => simp
    | cons s l ih =>
      intro c
      rw [List.foldl_cons, ih, List.length_cons, Nat.add_mul, Nat.one_mul]
      simp only [insertOne]
      omega
  rw [insertBatch, h]

@[simp] theorem take_bytesEstimate (b : Buffer V) : b.take.2.bytesEstimate = 0 := rfl

/-- A buffer whose count of samples is the number of its rows. -/
def Counted (b : Buffer V) : Prop := b.sampleCount = b.rows.length

theorem counted_withKnownSeries (seed : List ℤ) : (withKnownSeries seed : Buffer V).Counted := rfl

theorem Counted.insertBatch {b : Buffer V} (h : b.Counted) (seq : ℕ)
    (samples : List (ValidatedSample V)) : (b.insertBatch seq samples).Counted := by
  rw [Counted, insertBatch_sampleCount, (b.rows_insertBatch seq samples).length_eq,
    List.length_append, List.length_map, h]
  exact Nat.add_comm _ _

theorem counted_take (b : Buffer V) : b.take.2.Counted := rfl

theorem Counted.rows_eq_nil {b : Buffer V} (h : b.Counted) (he : b.isEmpty = true) :
    b.rows = [] := by
  rw [isEmpty, beq_iff_eq, h] at he
  exact List.length_eq_zero_iff.mp he

theorem Counted.byDay_isEmpty {b : Buffer V} (h : b.Counted) (he : b.isEmpty = false) :
    b.byDay.isEmpty = false := by
  by_contra hd
  rw [Bool.not_eq_false, SortedMap.isEmpty, List.isEmpty_iff] at hd
  have hrows : b.rows = [] := by
    rw [rows, ByDay.rows, hd]
    rfl
  rw [isEmpty, h, hrows] at he
  cases he

/-! ### The series ids a buffer knows -/

/-- The series ids a buffer has met: known ones and new ones. -/
def Registered (b : Buffer V) (id : ℤ) : Prop := id ∈ b.knownSeries ∨ id ∈ b.newSeries.keys

theorem insertOne_knownSeries (b : Buffer V) (s : ValidatedSample V) :
    (b.insertOne s).knownSeries = b.knownSeries := rfl

theorem insertBatch_knownSeries (b : Buffer V) (seq : ℕ) (samples : List (ValidatedSample V)) :
    (b.insertBatch seq samples).knownSeries = b.knownSeries := by
  have h : ∀ (l : List (ValidatedSample V)) (c : Buffer V),
      (l.foldl insertOne c).knownSeries = c.knownSeries := by
    intro l
    induction l with
    | nil => exact fun _ => rfl
    | cons s l ih => exact fun c => ih (c.insertOne s)
  rw [insertBatch, h]

/-- The ids new after an insertion: the ones new before, and the sample's if it was
unknown. -/
theorem mem_newSeries_insertOne {b : Buffer V} {s : ValidatedSample V} {id : ℤ} :
    id ∈ (b.insertOne s).newSeries.keys ↔
      id ∈ b.newSeries.keys ∨ (id = s.seriesId ∧ s.seriesId ∉ b.knownSeries) := by
  simp only [insertOne, ← SortedMap.contains_iff_mem_keys (m := b.newSeries)]
  split_ifs with h
  · rw [SortedMap.mem_keys_insert, ← SortedMap.contains_iff_mem_keys]
    constructor
    · rintro (rfl | hid)
      · exact Or.inr ⟨rfl, h.1⟩
      · exact Or.inl hid
    · rintro (hid | ⟨rfl, -⟩)
      · exact Or.inr hid
      · exact Or.inl rfl
  · rw [← SortedMap.contains_iff_mem_keys]
    constructor
    · exact Or.inl
    · rintro (hid | ⟨rfl, hn⟩)
      · exact hid
      · by_contra hc
        exact h ⟨hn, hc⟩

/-- **The ids new after a batch**: the ones new before, and those of the batch that are not
known. -/
theorem mem_newSeries_insertBatch {b : Buffer V} {seq : ℕ} {samples : List (ValidatedSample V)}
    {id : ℤ} :
    id ∈ (b.insertBatch seq samples).newSeries.keys ↔
      id ∈ b.newSeries.keys ∨ (id ∈ samples.map ValidatedSample.seriesId ∧ id ∉ b.knownSeries) := by
  have h : ∀ (l : List (ValidatedSample V)) (c : Buffer V),
      id ∈ (l.foldl insertOne c).newSeries.keys ↔
        id ∈ c.newSeries.keys ∨ (id ∈ l.map ValidatedSample.seriesId ∧ id ∉ c.knownSeries) := by
    intro l
    induction l with
    | nil => simp
    | cons s l ih =>
      intro c
      rw [List.foldl_cons, ih, mem_newSeries_insertOne, insertOne_knownSeries, List.map_cons,
        List.mem_cons]
      constructor
      · rintro ((h | ⟨rfl, hk⟩) | ⟨h, hk⟩)
        · exact Or.inl h
        · exact Or.inr ⟨Or.inl rfl, hk⟩
        · exact Or.inr ⟨Or.inr h, hk⟩
      · rintro (h | ⟨rfl | h, hk⟩)
        · exact Or.inl (Or.inl h)
        · exact Or.inl (Or.inr ⟨rfl, hk⟩)
        · exact Or.inr ⟨h, hk⟩
  exact h samples _

/-- **After a batch every id of the batch is registered, and none is forgotten.** -/
theorem mem_registered_insertBatch {b : Buffer V} {seq : ℕ} {samples : List (ValidatedSample V)}
    {id : ℤ} :
    (b.insertBatch seq samples).Registered id ↔
      b.Registered id ∨ id ∈ samples.map ValidatedSample.seriesId := by
  rw [Registered, Registered, insertBatch_knownSeries, mem_newSeries_insertBatch]
  tauto

/-- Every row a buffer holds is of a series it has met. -/
def RowsRegistered (b : Buffer V) : Prop := ∀ r ∈ b.rows, b.Registered r.seriesId

theorem RowsRegistered.insertBatch {b : Buffer V} (h : b.RowsRegistered) (seq : ℕ)
    (samples : List (ValidatedSample V)) : (b.insertBatch seq samples).RowsRegistered := by
  intro r hr
  rw [mem_registered_insertBatch]
  rcases mem_rows_insertBatch.mp hr with hr | hr
  · obtain ⟨s, hs, rfl⟩ := List.mem_map.mp hr
    exact Or.inr (List.mem_map.mpr ⟨s, hs, rfl⟩)
  · exact Or.inl (h r hr)

end Buffer

/-! ### The points of a day and a series -/

section Points

variable {V : Type}

/-- The points held for a series on a day, in insertion order. -/
def ByDay.points (m : ByDay V) (day : NaiveDate) (id : ℤ) : List (ℤ × V) :=
  (((m.get? day).getD .empty).get? id).getD []

/-- The points samples make for a series on a day, in their order. -/
def pointsOf (samples : List (ValidatedSample V)) (day : NaiveDate) (id : ℤ) : List (ℤ × V) :=
  (samples.filter fun s => dayOfUs s.tsUs = day ∧ s.seriesId = id).map fun s => (s.tsUs, s.value)

/-- A sample map without an empty day and without an empty series. -/
def ByDay.Dense (m : ByDay V) : Prop :=
  ∀ day series, m.get? day = some series →
    series.keys ≠ [] ∧ ∀ id pts, series.get? id = some pts → pts ≠ []

@[simp] theorem pointsOf_nil (day : NaiveDate) (id : ℤ) :
    pointsOf ([] : List (ValidatedSample V)) day id = [] := rfl

theorem pointsOf_append (xs ys : List (ValidatedSample V)) (day : NaiveDate) (id : ℤ) :
    pointsOf (xs ++ ys) day id = pointsOf xs day id ++ pointsOf ys day id := by
  rw [pointsOf, List.filter_append, List.map_append]
  rfl

theorem ByDay.dense_empty : ByDay.Dense (.empty : ByDay V) := by
  intro day series h
  cases h

namespace ByDay.Dense

variable {m : ByDay V}

theorem get?_series_iff (h : m.Dense) {day : NaiveDate} {id : ℤ} :
    id ∈ ((m.get? day).getD .empty).keys ↔ m.points day id ≠ [] := by
  rw [← SortedMap.contains_iff_mem_keys, SortedMap.contains, ByDay.points]
  rcases hday : m.get? day with _ | series
  · simp
  · simp only [Option.getD_some]
    rcases hid : series.get? id with _ | pts
    · simp
    · simpa using (h day series hday).2 id pts hid

theorem mem_keys_iff (h : m.Dense) {day : NaiveDate} :
    day ∈ m.keys ↔ ∃ id, m.points day id ≠ [] := by
  constructor
  · intro hday
    obtain ⟨series, hseries⟩ :=
      Option.isSome_iff_exists.mp (SortedMap.contains_iff_mem_keys.mpr hday)
    obtain ⟨id, hid⟩ := List.exists_mem_of_ne_nil _ (h day series hseries).1
    refine ⟨id, h.get?_series_iff.mp ?_⟩
    rwa [hseries]
  · rintro ⟨id, hid⟩
    by_contra hday
    rw [← SortedMap.contains_iff_mem_keys, SortedMap.contains, Option.not_isSome_iff_eq_none]
      at hday
    rw [ByDay.points, hday] at hid
    exact hid rfl

end ByDay.Dense

namespace Buffer

/-- **One insertion adds its point behind those of its day and series**, and no other. -/
theorem points_insertOne (b : Buffer V) (s : ValidatedSample V) (day : NaiveDate) (id : ℤ) :
    (b.insertOne s).byDay.points day id = b.byDay.points day id ++ pointsOf [s] day id := by
  simp only [ByDay.points, insertOne, pointsOf]
  by_cases hday : dayOfUs s.tsUs = day
  · subst hday
    rw [SortedMap.get?_upsert_self, Option.getD_some]
    by_cases hid : s.seriesId = id
    · subst hid
      rw [SortedMap.get?_upsert_self, Option.getD_some,
        List.filter_cons_of_pos (by simp)]
      rfl
    · rw [SortedMap.get?_upsert_ne _ (Ne.symm hid), List.filter_cons_of_neg (by simp [hid])]
      simp
  · rw [SortedMap.get?_upsert_ne _ (Ne.symm hday), List.filter_cons_of_neg (by simp [hday])]
    simp

/-- **A batch adds its points behind those of their days and series.** -/
theorem points_insertBatch (b : Buffer V) (seq : ℕ) (samples : List (ValidatedSample V))
    (day : NaiveDate) (id : ℤ) :
    (b.insertBatch seq samples).byDay.points day id =
      b.byDay.points day id ++ pointsOf samples day id := by
  have h : ∀ (l : List (ValidatedSample V)) (c : Buffer V),
      (l.foldl insertOne c).byDay.points day id = c.byDay.points day id ++ pointsOf l day id := by
    intro l
    induction l with
    | nil => simp
    | cons s l ih =>
      intro c
      rw [List.foldl_cons, ih, points_insertOne, List.append_assoc, ← pointsOf_append,
        List.singleton_append]
  exact h samples _

theorem dense_insertOne {b : Buffer V} (h : b.byDay.Dense) (s : ValidatedSample V) :
    (b.insertOne s).byDay.Dense := by
  intro day series hday
  simp only [insertOne] at hday
  by_cases hk : day = dayOfUs s.tsUs
  · subst hk
    rw [SortedMap.get?_upsert_self] at hday
    cases hday
    refine ⟨?_, fun id pts hid => ?_⟩
    · exact List.ne_nil_of_mem (SortedMap.mem_keys_upsert.mpr (Or.inl rfl))
    · by_cases hs : id = s.seriesId
      · subst hs
        rw [SortedMap.get?_upsert_self] at hid
        cases hid
        simp
      · rw [SortedMap.get?_upsert_ne _ hs] at hid
        rcases hold : b.byDay.get? (dayOfUs s.tsUs) with _ | old
        · rw [hold] at hid
          cases hid
        · rw [hold] at hid
          exact (h _ old hold).2 id pts hid
  · rw [SortedMap.get?_upsert_ne _ hk] at hday
    exact h day series hday

theorem dense_insertBatch {b : Buffer V} (h : b.byDay.Dense) (seq : ℕ)
    (samples : List (ValidatedSample V)) : (b.insertBatch seq samples).byDay.Dense := by
  have hfold : ∀ (l : List (ValidatedSample V)) (c : Buffer V), c.byDay.Dense →
      (l.foldl insertOne c).byDay.Dense := by
    intro l
    induction l with
    | nil => exact fun _ hc => hc
    | cons s l ih => exact fun c hc => ih _ (dense_insertOne hc s)
  exact hfold samples _ h

/-! ### What a new series is registered under -/

/-- The entry a sample registers its series under. -/
def entryOf (s : ValidatedSample V) : NewSeriesEntry := ⟨s.seriesId, s.metric, s.labels⟩

/-- The entry of the first sample of a series. -/
def firstEntry (samples : List (ValidatedSample V)) (id : ℤ) : Option NewSeriesEntry :=
  (samples.find? fun s => s.seriesId = id).map entryOf

theorem get?_newSeries_insertOne (b : Buffer V) (s : ValidatedSample V) (id : ℤ) :
    (b.insertOne s).newSeries.get? id =
      if id ∈ b.knownSeries then b.newSeries.get? id
      else (b.newSeries.get? id).or (firstEntry [s] id) := by
  simp only [insertOne, firstEntry]
  by_cases hid : s.seriesId = id
  · subst hid
    rw [List.find?_cons_of_pos (by simp)]
    by_cases hk : s.seriesId ∈ b.knownSeries
    · rw [if_pos hk, if_neg (fun h => h.1 hk)]
    · rw [if_neg hk]
      rcases hn : b.newSeries.get? s.seriesId with _ | e
      · rw [if_pos ⟨hk, by simp [SortedMap.contains, hn]⟩, SortedMap.insert,
          SortedMap.get?_upsert_self]
        rfl
      · rw [if_neg (fun h => h.2 (by simp [SortedMap.contains, hn])), hn]
        rfl
  · rw [List.find?_cons_of_neg (by simpa using hid), List.find?_nil, Option.map_none,
      Option.or_none, ite_self]
    split_ifs
    · exact SortedMap.get?_upsert_ne _ (Ne.symm hid) _
    · rfl

theorem firstEntry_append (xs ys : List (ValidatedSample V)) (id : ℤ) :
    firstEntry (xs ++ ys) id = (firstEntry xs id).or (firstEntry ys id) := by
  rw [firstEntry, List.find?_append, Option.map_or]
  rfl

/-- **The entry of a new series after a batch**: the one it had, and otherwise that of its first
sample of the batch. -/
theorem get?_newSeries_insertBatch (b : Buffer V) (seq : ℕ) (samples : List (ValidatedSample V))
    (id : ℤ) :
    (b.insertBatch seq samples).newSeries.get? id =
      if id ∈ b.knownSeries then b.newSeries.get? id
      else (b.newSeries.get? id).or (firstEntry samples id) := by
  have h : ∀ (l : List (ValidatedSample V)) (c : Buffer V),
      (l.foldl insertOne c).newSeries.get? id =
        if id ∈ c.knownSeries then c.newSeries.get? id
        else (c.newSeries.get? id).or (firstEntry l id) := by
    intro l
    induction l with
    | nil => simp [firstEntry]
    | cons s l ih =>
      intro c
      rw [List.foldl_cons, ih, insertOne_knownSeries, get?_newSeries_insertOne]
      split_ifs
      · rfl
      · rw [Option.or_assoc, ← firstEntry_append, List.singleton_append]
  exact h samples _

end Buffer

end Points

end Skaldberg
