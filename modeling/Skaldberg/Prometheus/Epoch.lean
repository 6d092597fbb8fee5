import Skaldberg.Prometheus.ExactPoints
import Skaldberg.Prometheus.SelectedRows

/-!
# Samples at the epoch

Whether two evaluations agree on every table of samples of some series can be told from a few
tables: those with one sample of some of the series, at the epoch (`Skaldberg.Prometheus.atEpoch`).
There a series is selected with its sample and no other (`eq_of_mem_baseRows_atEpoch`), which is
also its latest (`mem_joinSeries_atEpoch`), and series that share a key are one point of the program
(`length_instantSelector_le_one`).
-/

namespace Skaldberg.Prometheus

variable {sel : VectorSelector}

/-- A table, of numbers, with one sample of a series at a timestamp. -/
structure Plain (t : Tables Exact) : Prop where
  /-- The values are numbers. -/
  numbers : Numbers t
  /-- A series has one sample at a timestamp. -/
  distinctTimestamps : DistinctTimestamps t

variable {value : ℤ → ℚ} {series ss : List Skaldberg.SeriesRow} {lo hi : ℤ}

/-- A table with a sample of some of the series, at the epoch. -/
def atEpoch (value : ℤ → ℚ) (series ss : List Skaldberg.SeriesRow) : Tables Exact where
  samples := ss.map fun s => ⟨s.seriesId, 0, .num (value s.seriesId)⟩
  series := series

theorem plain_atEpoch (h : (ss.map Skaldberg.SeriesRow.seriesId).Nodup) :
    Plain (atEpoch value series ss) where
  numbers sa hsa := by
    obtain ⟨s, -, rfl⟩ := List.mem_map.mp hsa
    exact ⟨_, rfl⟩
  distinctTimestamps := by
    refine List.Nodup.of_map Prod.fst ?_
    rw [atEpoch, List.map_map, List.map_map]
    exact h

theorem mem_baseRows_atEpoch (value : ℤ → ℚ) (hlo : lo ≤ 0) {s : Skaldberg.SeriesRow}
    (hs : s ∈ series)
    (hss : s ∈ ss) (hpush : sel.pushed s = true) :
    (⟨s.seriesId, 0, .num (value s.seriesId)⟩, s) ∈ baseRows
      (atEpoch value series ss) sel lo 0 := by
  refine mem_baseRows.mpr ⟨⟨List.mem_map_of_mem hss, hs, rfl⟩, hpush, ?_⟩
  rw [timestampBetween, Sql.Truth.holds_some, decide_eq_true_eq, usToTsLit_micros,
    usToTsLit_micros]
  constructor
  · show (if InRangeMicros lo then lo else 0) ≤ 0
    split_ifs <;> omega
  · show (0 : ℤ) ≤ if InRangeMicros 0 then 0 else 0
    split_ifs <;> omega

theorem eq_of_mem_baseRows_atEpoch (h : (series.map Skaldberg.SeriesRow.seriesId).Nodup)
    (hsub : ∀ s ∈ ss, s ∈ series) {r : SampleRow Exact × Skaldberg.SeriesRow}
    (hr : r ∈ baseRows (atEpoch value series ss) sel lo hi) :
    r.2 ∈ ss ∧ r.1 = ⟨r.2.seriesId, 0, .num (value r.2.seriesId)⟩ := by
  obtain ⟨⟨hsa, hs, hon⟩, -⟩ := mem_baseRows.mp hr
  obtain ⟨s, hss, hsa⟩ := List.mem_map.mp hsa
  have heq : s = r.2 := by
    refine List.inj_on_of_nodup_map h (hsub s hss) hs ?_
    rw [← hon, ← hsa]
  rw [← heq]
  exact ⟨hss, hsa.symm⟩

/-- **A sample at the epoch is the latest one there.** -/
theorem mem_latestRows_atEpoch (value : ℤ → ℚ)
    (h : (series.map Skaldberg.SeriesRow.seriesId).Nodup) (hsub : ∀ s ∈ ss, s ∈ series)
    (hlo : lo ≤ 0) {s : Skaldberg.SeriesRow} (hs : s ∈ ss) (hpush : sel.pushed s = true) :
    (⟨s.seriesId, 0, .num (value s.seriesId)⟩, s) ∈
      latestRows (atEpoch value series ss) sel lo 0 := by
  refine List.mem_filter.mpr ⟨mem_baseRows_atEpoch value hlo (hsub s hs) hs hpush, ?_⟩
  refine List.all_eq_true.mpr fun r hr => ?_
  rw [(eq_of_mem_baseRows_atEpoch h hsub hr).2]
  simp

/-- So it is a point of a query. -/
theorem mem_joinSeries_atEpoch (value : ℤ → ℚ)
    (h : (series.map Skaldberg.SeriesRow.seriesId).Nodup)
    (hss : (ss.map Skaldberg.SeriesRow.seriesId).Nodup) (hsub : ∀ s ∈ ss, s ∈ series)
    (E : Sql.Engine) {s : Skaldberg.SeriesRow} (hs : s ∈ ss) (hpush : sel.pushed s = true) :
    ((⟨(), s.seriesId, .num (value s.seriesId)⟩, s) : Point Unit Exact × Skaldberg.SeriesRow) ∈
      joinSeries (atEpoch value series ss) Point.seriesId
        (latestPoints E (atEpoch value series ss) sel 0) := by
  have hplain : Plain (atEpoch value series ss) := plain_atEpoch hss
  have hrow : OneRowPerSeries (atEpoch value series ss) := h
  refine (joinSeries_latestPoints_perm hrow hplain.distinctTimestamps E 0).mem_iff.mpr ?_
  exact (List.mem_map.mpr ⟨(⟨s.seriesId, 0, .num (value s.seriesId)⟩, s),
    mem_latestRows_atEpoch value h hsub (by decide) hs hpush, rfl⟩)

/-- **Series that share a key are one point of the program.** -/
theorem length_instantSelector_le_one (value : ℤ → ℚ)
    (h : (series.map Skaldberg.SeriesRow.seriesId).Nodup)
    (hsub : ∀ s ∈ ss, s ∈ series) {k : String}
    (hkey : ∀ s ∈ ss, sel.pushed s = true → seriesKey s.metricName s.labels = k) (E : Sql.Engine) :
    (instantSelector E (atEpoch value series ss) sel 0).length ≤ 1 := by
  rw [instantSelector, List.length_map, foldl_keepLatest_eq, SortedMap.values, List.length_map,
    ← List.length_map (f := Prod.fst)]
  have hkeys : ∀ k' ∈ ((runSelectorQuery E (atEpoch value series ss) sel
      (asI64 (0 - lookbackUs)) 0).foldl
        (fun m r => m.upsert (seriesKey r.metricName r.labels) (later r))
          (.empty : SortedMap String (SeriesRow Exact))).keys, k' ∈ [k] := by
    intro k' hk'
    rcases SortedMap.mem_keys_foldl_upsert.mp hk' with hk' | ⟨row, hrow, rfl⟩
    · exact absurd hk' List.not_mem_nil
    · obtain ⟨r, hr, rfl⟩ := List.mem_map.mp (E.mem_sort.mp (List.mem_of_mem_filter hrow))
      exact List.mem_singleton.mpr (hkey r.2 (eq_of_mem_baseRows_atEpoch h hsub hr).1
        (mem_baseRows.mp hr).2.1)
  exact ((SortedMap.keys_nodup _).subperm hkeys).length_le

end Skaldberg.Prometheus
