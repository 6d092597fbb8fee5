import Skaldberg.Ingest.Conservation
import Skaldberg.Lib.Gregorian

/-!
# The batches of a flush

A flush writes one batch for each day of its snapshot, under a partition value that the table
format takes for the day of every timestamp in it. A batch is three columns, pushed one row after
the other: the series in their order, and of each series the points in the order of their
timestamps, the sort being stable.

The rows of all batches are those `Skaldberg.Snapshot.samplesRows` appends to the table
(`flatMap_rows_flushBatches`). What a batch holds of one series and one timestamp is what was
inserted for them, in that order (`DayBatches.stable`); that no row is lost, written twice or
written on another day follows, for the snapshots of every run of a buffer (`dayBatches_run`).
-/

namespace Skaldberg

variable {V : Type}

/-! ### Columns -/

/-- The columns of a batch of samples. -/
structure SamplesBatch (V : Type) where
  /-- `series_id`. -/
  seriesIds : List ℤ
  /-- `timestamp`, in microseconds. -/
  timestamps : List ℤ
  /-- `value`. -/
  values : List V

namespace SamplesBatch

/-- No rows. -/
def empty : SamplesBatch V := ⟨[], [], []⟩

/-- Push a value to each column. -/
def push (b : SamplesBatch V) (r : SampleRow V) : SamplesBatch V :=
  ⟨b.seriesIds ++ [r.seriesId], b.timestamps ++ [r.timestamp], b.values ++ [r.value]⟩

/-- The rows that the columns spell. -/
def rows (b : SamplesBatch V) : List (SampleRow V) :=
  (b.seriesIds.zip (b.timestamps.zip b.values)).map fun r => ⟨r.1, r.2.1, r.2.2⟩

/-- The columns have one length. -/
def Aligned (b : SamplesBatch V) : Prop :=
  b.seriesIds.length = b.timestamps.length ∧ b.timestamps.length = b.values.length

theorem aligned_push {b : SamplesBatch V} (h : b.Aligned) (r : SampleRow V) :
    (b.push r).Aligned := by
  obtain ⟨hids, hts⟩ := h
  constructor
  · simp [push, hids]
  · simp [push, hts]

theorem rows_push {b : SamplesBatch V} (h : b.Aligned) (r : SampleRow V) :
    (b.push r).rows = b.rows ++ [r] := by
  obtain ⟨hids, hts⟩ := h
  rw [rows, push, List.zip_append hts, List.zip_append (by simp [hids, hts]), List.map_append]
  rfl

/-- **Pushing rows one by one** keeps the columns aligned and appends the rows. -/
theorem foldl_push {b : SamplesBatch V} (h : b.Aligned) (rs : List (SampleRow V)) :
    (rs.foldl push b).Aligned ∧ (rs.foldl push b).rows = b.rows ++ rs := by
  induction rs generalizing b with
  | nil => exact ⟨h, (List.append_nil _).symm⟩
  | cons r rs ih =>
    obtain ⟨haligned, hrows⟩ := ih (aligned_push h r)
    refine ⟨haligned, ?_⟩
    rw [List.foldl_cons, hrows, rows_push h, List.append_assoc, List.singleton_append]

end SamplesBatch

/-- `build_samples_batch`, column by column. -/
def samplesBatch (bySeries : SortedMap ℤ (List (ℤ × V))) : SamplesBatch V :=
  bySeries.entries.foldl (fun b series =>
    (series.2.insertionSort fun p q => p.1 ≤ q.1).foldl
      (fun b point => b.push ⟨series.1, point.1, point.2⟩) b) .empty

/-- **The columns of a batch** are aligned, and spell its rows. -/
theorem samplesBatch_spec (bySeries : SortedMap ℤ (List (ℤ × V))) :
    (samplesBatch bySeries).Aligned ∧
      (samplesBatch bySeries).rows = buildSamplesBatch bySeries := by
  have hfold : samplesBatch bySeries =
      (buildSamplesBatch bySeries).foldl SamplesBatch.push .empty := by
    rw [buildSamplesBatch, List.foldl_flatMap, samplesBatch]
    congr 1
    funext b series
    rw [List.foldl_map]
  rw [hfold]
  exact SamplesBatch.foldl_push ⟨rfl, rfl⟩ _

/-! ### Partitions -/

/-- `as i32`. -/
def asI32 (n : ℤ) : ℤ := n.bmod (2 ^ 32)

/-- `epoch_days`: the days from 1970-01-01. -/
def epochDays (day : NaiveDate) : ℤ :=
  asI32 (day - (⟨1970, 1, 1⟩ : Gregorian.Date).dayNumber)

/-- The microseconds of a day. -/
def usPerDay : ℤ := 86400000000

/-- The batches `flush_samples` writes, each under its partition value. -/
def flushBatches (snap : Snapshot V) : List (ℤ × SamplesBatch V) :=
  snap.byDay.entries.map fun day => (epochDays day.1, samplesBatch day.2)

theorem flatMap_rows_flushBatches (snap : Snapshot V) :
    ((flushBatches snap).flatMap fun b => b.2.rows) = snap.samplesRows := by
  rw [flushBatches, List.flatMap_map, Snapshot.samplesRows]
  exact List.flatMap_congr fun day _ => (samplesBatch_spec day.2).2

/-- **The day of a timestamp** is the quotient, for negative timestamps too. -/
theorem dayOfUs_eq {us : ℤ} (h : InRangeMicros us) : dayOfUs us = us / usPerDay := by
  obtain ⟨hlo, hhi⟩ := h
  have hnanos : (us % 1000000 * 1000).toNat < 1000000000 := by omega
  have hsecs : minSecs ≤ us / 1000000 ∧ us / 1000000 ≤ maxSecs := by
    simp only [minSecs, maxSecs] at *
    omega
  rw [dayOfUs, DateTime.fromTimestamp, if_pos ⟨hsecs.1, hsecs.2, Or.inl hnanos⟩]
  show us / 1000000 / 86400 = us / usPerDay
  rw [Int.ediv_ediv_of_nonneg (by decide)]
  rfl

/-- **The partition value of a day in the calendar is the number of the day.** -/
theorem epochDays_eq {us : ℤ} (h : InRangeMicros us) :
    epochDays (us / usPerDay) = us / usPerDay := by
  have hepoch : (⟨1970, 1, 1⟩ : Gregorian.Date).dayNumber = 0 := by decide
  obtain ⟨hlo, hhi⟩ := h
  rw [epochDays, hepoch, Int.sub_zero, asI32]
  refine Int.bmod_eq_of_le ?_ ?_ <;> simp only [minSecs, maxSecs, usPerDay] at * <;> omega

/-! ### A stable sort -/

/-- **Sorting by a key** leaves what has one key in its order. -/
theorem filter_insertionSort {α κ : Type} [LinearOrder κ] (key : α → κ) (c : κ) (l : List α) :
    (l.insertionSort fun a b => key a ≤ key b).filter (fun a => decide (key a = c)) =
      l.filter fun a => decide (key a = c) := by
  have : Std.Total fun a b : α => key a ≤ key b := ⟨fun a b => le_total (key a) (key b)⟩
  have : IsTrans α fun a b => key a ≤ key b := ⟨fun _ _ _ => le_trans⟩
  have hkey : ∀ a ∈ l.filter (fun a => decide (key a = c)), key a = c := fun a ha =>
    of_decide_eq_true (List.mem_filter.mp ha).2
  have hsorted : (l.filter fun a => decide (key a = c)).Pairwise fun a b => key a ≤ key b :=
    List.pairwise_of_forall_mem_list fun a ha b hb => (hkey a ha).le.trans (hkey b hb).ge
  have hsub := (List.sublist_insertionSort hsorted List.filter_sublist).filter
    fun a => decide (key a = c)
  rw [List.filter_filter] at hsub
  simp only [Bool.and_self] at hsub
  refine (hsub.eq_of_length ?_).symm
  exact ((List.perm_insertionSort _ l).filter _).length_eq.symm

/-! ### What the batches hold -/

/-- What the batches of a snapshot owe to the samples it was made of. -/
structure DayBatches (xs : List (ValidatedSample V)) (snap : Snapshot V) : Prop where
  /-- The columns of a batch have one length. -/
  aligned : ∀ b ∈ flushBatches snap, b.2.Aligned
  /-- A day has one batch. -/
  distinct : ((flushBatches snap).map Prod.fst).Nodup
  /-- The rows are the samples, each once. -/
  once : ((flushBatches snap).flatMap fun b => b.2.rows).Perm (xs.map ValidatedSample.row)
  /-- A row is in the batch of its day. -/
  day : ∀ b ∈ flushBatches snap, ∀ r ∈ b.2.rows, b.1 = r.timestamp / usPerDay
  /-- The rows of a batch are in the order of the series and the timestamps. -/
  ordered : ∀ b ∈ flushBatches snap, b.2.rows.Pairwise fun r r' =>
    r.seriesId < r'.seriesId ∨ r.seriesId = r'.seriesId ∧ r.timestamp ≤ r'.timestamp
  /-- The rows of one series and one timestamp are in the order of their insertion. -/
  stable : ∀ b ∈ flushBatches snap, ∀ id ts, ts / usPerDay = b.1 →
    (b.2.rows.filter fun r => r.seriesId = id ∧ r.timestamp = ts) =
      (xs.filter fun x => x.seriesId = id ∧ x.tsUs = ts).map ValidatedSample.row
  /-- The number of rows is the one the snapshot counts. -/
  count : ((flushBatches snap).map fun b => b.2.rows.length).sum = snap.sampleCount

/-- The rows of a day are in the order of the series and the timestamps. -/
theorem pairwise_buildSamplesBatch (bySeries : SortedMap ℤ (List (ℤ × V))) :
    (buildSamplesBatch bySeries).Pairwise fun r r' =>
      r.seriesId < r'.seriesId ∨ r.seriesId = r'.seriesId ∧ r.timestamp ≤ r'.timestamp := by
  rw [buildSamplesBatch, List.pairwise_flatMap]
  refine ⟨fun series _ => ?_, ?_⟩
  · rw [List.pairwise_map]
    have : Std.Total fun p q : ℤ × V => p.1 ≤ q.1 := ⟨fun p q => le_total p.1 q.1⟩
    have : IsTrans (ℤ × V) fun p q => p.1 ≤ q.1 := ⟨fun _ _ _ => le_trans⟩
    exact (List.pairwise_insertionSort _ series.2).imp fun hle => Or.inr ⟨rfl, hle⟩
  · refine (List.pairwise_map.mp bySeries.keys_pairwise).imp fun hlt r hr r' hr' => ?_
    obtain ⟨_, -, rfl⟩ := List.mem_map.mp hr
    obtain ⟨_, -, rfl⟩ := List.mem_map.mp hr'
    exact Or.inl hlt

/-- **The rows of one series and one timestamp** are its points, in their order. -/
theorem filter_buildSamplesBatch (bySeries : SortedMap ℤ (List (ℤ × V))) (id ts : ℤ) :
    ((buildSamplesBatch bySeries).filter fun r => r.seriesId = id ∧ r.timestamp = ts) =
      (((bySeries.get? id).getD []).filter fun p => p.1 = ts).map fun p => ⟨id, p.1, p.2⟩ := by
  have hone : ∀ points : List (ℤ × V),
      (((points.insertionSort fun p q => p.1 ≤ q.1).map fun p =>
        (⟨id, p.1, p.2⟩ : SampleRow V)).filter fun r => r.seriesId = id ∧ r.timestamp = ts) =
          (points.filter fun p => p.1 = ts).map fun p => ⟨id, p.1, p.2⟩ := by
    intro points
    rw [List.filter_map, ← filter_insertionSort Prod.fst ts points]
    simp [Function.comp_def]
  rw [buildSamplesBatch, SortedMap.filter_flatMap_entries (k := id)]
  · rcases bySeries.get? id with _ | points
    · rfl
    · rw [Option.toList_some, List.flatMap_singleton, Option.getD_some]
      exact hone points
  · intro series _ r hr hp
    obtain ⟨point, -, rfl⟩ := List.mem_map.mp hr
    exact (of_decide_eq_true hp).1

/-- **The batches of a snapshot** that holds the points of some samples, day by day. -/
theorem dayBatches {xs : List (ValidatedSample V)} {snap : Snapshot V}
    (hrange : ∀ x ∈ xs, InRangeMicros x.tsUs)
    (hpoints : ∀ day id, snap.byDay.points day id = pointsOf xs day id)
    (hdense : snap.byDay.Dense) (hrows : snap.byDay.rows.Perm (xs.map ValidatedSample.row))
    (hcount : snap.sampleCount = xs.length) : DayBatches xs snap := by
  have hget : ∀ day ∈ snap.byDay.entries, ∀ id, (day.2.get? id).getD [] = pointsOf xs day.1 id := by
    intro day hday id
    have hmem : (day.1, day.2) ∈ snap.byDay.entries := hday
    rw [← hpoints, ByDay.points, SortedMap.get?_eq_some_iff.mpr hmem, Option.getD_some]
  -- every row of a day is a sample of that day
  have hsample : ∀ day ∈ snap.byDay.entries, ∀ r ∈ (samplesBatch day.2).rows,
      ∃ x ∈ xs, x.row = r ∧ day.1 = r.timestamp / usPerDay := by
    intro day hday r hr
    rw [(samplesBatch_spec day.2).2] at hr
    have hfilter : r ∈ (buildSamplesBatch day.2).filter fun r' =>
        r'.seriesId = r.seriesId ∧ r'.timestamp = r.timestamp :=
      List.mem_filter.mpr ⟨hr, decide_eq_true ⟨rfl, rfl⟩⟩
    rw [filter_buildSamplesBatch, hget day hday] at hfilter
    obtain ⟨p, hp, hpr⟩ := List.mem_map.mp hfilter
    obtain ⟨x, hx, rfl⟩ := List.mem_map.mp (List.mem_of_mem_filter hp)
    obtain ⟨hxs, hday'⟩ := List.mem_filter.mp hx
    obtain ⟨hxday, hxid⟩ := of_decide_eq_true hday'
    refine ⟨x, hxs, ?_, ?_⟩
    · rw [← hpr, ← hxid]
      rfl
    · rw [← hpr, ← hxday]
      exact dayOfUs_eq (hrange x hxs)
  have hpart : ∀ day ∈ snap.byDay.entries, epochDays day.1 = day.1 := by
    intro day hday
    obtain ⟨id, hid⟩ := hdense.mem_keys_iff.mp (List.mem_map_of_mem hday)
    rw [hpoints] at hid
    obtain ⟨p, hp⟩ := List.exists_mem_of_ne_nil _ hid
    obtain ⟨x, hx, -⟩ := List.mem_map.mp hp
    obtain ⟨hxs, hday'⟩ := List.mem_filter.mp hx
    rw [← (of_decide_eq_true hday').1, dayOfUs_eq (hrange x hxs)]
    exact epochDays_eq (hrange x hxs)
  refine ⟨?_, ?_, ?_, ?_, ?_, ?_, ?_⟩
  · intro b hb
    obtain ⟨day, -, rfl⟩ := List.mem_map.mp hb
    exact (samplesBatch_spec day.2).1
  · have hkeys : (flushBatches snap).map Prod.fst = snap.byDay.keys := by
      rw [flushBatches, List.map_map]
      exact List.map_congr_left hpart
    rw [hkeys]
    exact snap.byDay.keys_nodup
  · rw [flatMap_rows_flushBatches]
    exact snap.samplesRows_perm.trans hrows
  · intro b hb r hr
    obtain ⟨day, hday, rfl⟩ := List.mem_map.mp hb
    obtain ⟨x, hx, rfl, hd⟩ := hsample day hday r hr
    show epochDays day.1 = _
    rw [hd]
    exact epochDays_eq (hrange x hx)
  · intro b hb
    obtain ⟨day, -, rfl⟩ := List.mem_map.mp hb
    rw [(samplesBatch_spec day.2).2]
    exact pairwise_buildSamplesBatch day.2
  · intro b hb id ts hts
    obtain ⟨day, hday, rfl⟩ := List.mem_map.mp hb
    rw [(samplesBatch_spec day.2).2, filter_buildSamplesBatch, hget day hday, pointsOf,
      List.filter_map, List.filter_filter, List.map_map]
    have hts : ts / usPerDay = day.1 := hts.trans (hpart day hday)
    have hfilter : ∀ x ∈ xs, (decide (x.tsUs = ts) &&
        decide (dayOfUs x.tsUs = day.1 ∧ x.seriesId = id)) =
          decide (x.seriesId = id ∧ x.tsUs = ts) := by
      intro x hx
      rw [dayOfUs_eq (hrange x hx), Bool.eq_iff_iff]
      simp only [Bool.and_eq_true, decide_eq_true_eq]
      constructor
      · rintro ⟨rfl, -, hid⟩
        exact ⟨hid, rfl⟩
      · rintro ⟨hid, rfl⟩
        exact ⟨rfl, hts, hid⟩
    refine (congrArg (List.map _) (List.filter_congr hfilter)).trans ?_
    refine List.map_congr_left fun x hx => ?_
    rw [← (of_decide_eq_true (List.mem_filter.mp hx).2).1]
    rfl
  · have hlen := (snap.samplesRows_perm.trans hrows).length_eq
    rw [← List.length_flatMap, flatMap_rows_flushBatches, hlen, List.length_map, hcount]

/-- **A flush writes every sample once, in its own day**: over every run of insertions and
swap-outs of a buffer, the batches of each snapshot hold the samples of its epoch. -/
theorem dayBatches_run (seed : List ℤ) (acts : List (Conservation.Action V))
    (hrange : ∀ x ∈ Conservation.inserted acts, InRangeMicros x.tsUs) :
    List.Forall₂ (fun e snap => DayBatches (Conservation.samplesOf e) snap)
      (Conservation.epochs acts) (Conservation.holders seed acts) := by
  have hall := Conservation.forall₂_holders
    (P := fun e snap => (∀ day id, snap.byDay.points day id =
        pointsOf (Conservation.samplesOf e) day id) ∧ snap.byDay.Dense ∧
      snap.byDay.rows.Perm ((Conservation.samplesOf e).map ValidatedSample.row) ∧
      snap.sampleCount = (Conservation.samplesOf e).length)
    ⟨fun _ _ => rfl, ByDay.dense_empty, List.Perm.refl _, rfl⟩ ?_ seed acts
  · have hmem : ∀ e ∈ Conservation.epochs acts, ∀ x ∈ Conservation.samplesOf e,
        InRangeMicros x.tsUs := by
      intro e he x hx
      refine hrange x ?_
      rw [← Conservation.samplesOf_epochs]
      obtain ⟨a, ha, hx⟩ := List.mem_flatMap.mp hx
      exact List.mem_flatMap.mpr ⟨a, List.mem_flatten.mpr ⟨e, he, ha⟩, hx⟩
    refine List.forall₂_iff_zip.mpr ⟨hall.length_eq, fun {e snap} hzip => ?_⟩
    obtain ⟨hpoints, hdense, hrows, hcount⟩ := (List.forall₂_iff_zip.mp hall).2 hzip
    exact dayBatches (hmem e (List.of_mem_zip hzip).1) hpoints hdense hrows hcount
  · rintro b e a ⟨hpoints, hdense, hrows, hcount⟩
    refine ⟨fun day id => ?_, Buffer.dense_insertBatch hdense a.1 a.2, ?_, ?_⟩
    · have h := b.points_insertBatch a.1 a.2 day id
      rw [Conservation.samplesOf_append, Conservation.samplesOf_singleton, pointsOf_append,
        ← hpoints]
      exact h
    · rw [Conservation.samplesOf_append, Conservation.samplesOf_singleton, List.map_append]
      refine (b.rows_insertBatch a.1 a.2).trans ?_
      exact (List.perm_append_comm).trans (hrows.append_right _)
    · have h := b.insertBatch_sampleCount a.1 a.2
      rw [Conservation.samplesOf_append, Conservation.samplesOf_singleton, List.length_append,
        ← hcount]
      exact h

/-- Two samples of a series around midnight before the epoch, and one at the epoch. -/
theorem dayBatches_run_epoch :
    List.Forall₂ (fun e snap => DayBatches (V := ℕ) (Conservation.samplesOf e) snap)
      (Conservation.epochs [.insertBatch (1, [⟨7, "up", .empty, 0, 1⟩]),
        .insertBatch (2, [⟨7, "up", .empty, -1, 2⟩, ⟨7, "up", .empty, -86400000001, 3⟩]), .take])
      (Conservation.holders [] [.insertBatch (1, [⟨7, "up", .empty, 0, 1⟩]),
        .insertBatch (2, [⟨7, "up", .empty, -1, 2⟩, ⟨7, "up", .empty, -86400000001, 3⟩]), .take]) :=
  dayBatches_run [] _ (by decide)

end Skaldberg
