import Skaldberg.Prometheus.Epoch
import Skaldberg.Prometheus.GroupKey

/-!
# Pushed aggregations `without`

The query of an aggregation `without (…)` groups by the text of the labels that are left, whatever
its points are: the latest values of a selector, its samples over a range, or the values of a range
function at one timestamp or many. Its groups are those of the labels for every table of samples
exactly when the texts tell the labels of the selected series (`Skaldberg.Prometheus.ToldByText`),
and its values are those of the program when besides no two of these series share the key under
which the program collects their samples, and the program refuses none of them
(`Skaldberg.Prometheus.aggregateWithout_refines_iff`).

Each condition is needed, and one table of samples at a single timestamp shows it: of all the
series for the texts, of a refused series alone, of two series under one key.
-/

namespace Skaldberg.Prometheus

variable {t : Tables Exact} {sel : VectorSelector} {excluded : List String}

/-! ### The values of the groups -/

/-- **The query makes the aggregates of the groups** of labels left. -/
theorem instantAggregateWithout_eq (h : OneRowPerSeries t) (E : Sql.Engine) (keep : Exact → Bool)
    (op : AggOp) (timeUs : ℤ) {rows : List (Point Unit Exact × Skaldberg.SeriesRow)}
    (hrows : ∀ r ∈ rows, r.2 ∈ t.series ∧ r.1.seriesId = r.2.seriesId)
    (hsids : ((rows.map Prod.fst).map Point.seriesId).Nodup)
    (htold : ToldByText excluded (rows.map Prod.snd)) (hnum : ∀ r ∈ rows, r.1.value.IsNum)
    (hkeep : ∀ x : Exact, x.IsNum → keep x = true) :
    instantAggregateWithout E t keep op excluded timeUs (rows.map Prod.fst) =
      groupAggregates op (some (.excludes excluded)) timeUs (rows.map labelledRow) := by
  let sids : List ℤ := (rows.map Prod.fst).map Point.seriesId
  have hjoin : joinGk E t excluded sids (rows.map Prod.fst) =
      rows.map fun r => (r.1, spelling (remaining excluded r.2.labels)) := by
    refine joinGk_of_told h hsids hrows (fun r hr => ?_) htold
    exact List.mem_map_of_mem (List.mem_map_of_mem hr)
  -- the groups of a text are the groups of the labels it tells
  have hgroups : Sql.groupBy (fun r : Point Unit Exact × Skaldberg.SeriesRow =>
      (r.1.at_, spelling (remaining excluded r.2.labels))) rows =
        (Sql.groupBy (fun r => retainedLabels r.2.labels (some (.excludes excluded))) rows).map
          fun g => (((), spelling g.1), g.2) := by
    refine Sql.groupBy_comp_key (f := fun labels : Labels => ((), spelling labels))
      (fun _ _ => rfl) fun r hr r' hr' hkey => ?_
    exact htold.spelt_apart _ (List.mem_map_of_mem hr) _ (List.mem_map_of_mem hr')
      (congrArg Prod.snd hkey)
  have hgrouped : groupedWithout E t op excluded sids (rows.map Prod.fst) =
      (Sql.groupBy (fun r => retainedLabels r.2.labels (some (.excludes excluded))) rows).map
        fun g => (((), aggCall op (g.2.map fun r => r.1.value)),
          minSid (g.2.map fun r => r.1.seriesId)) := by
    rw [groupedWithout, hjoin, Sql.groupBy_map, hgroups, List.map_map, List.map_map]
    refine List.map_congr_left fun g _ => ?_
    simp only [Function.comp_apply, List.map_map]
    rfl
  have hlabels : (aggregateWithout E t op excluded sids (rows.map Prod.fst)).map Prod.snd =
      (Sql.groupBy (fun r => retainedLabels r.2.labels (some (.excludes excluded))) rows).map
        fun g => (g.1, aggCall op (g.2.map fun r => r.1.value)) := by
    let groups := Sql.groupBy (fun r : Point Unit Exact × Skaldberg.SeriesRow =>
      retainedLabels r.2.labels (some (.excludes excluded))) rows
    have hmap : (joinSeries t (fun g => minSid (g.2.map fun r => r.1.seriesId)) groups).map
        (fun x => (remaining excluded x.2.labels, aggCall op (x.1.2.map fun r => r.1.value))) =
          groups.map fun g => (g.1, aggCall op (g.2.map fun r => r.1.value)) := by
      refine map_joinSeries h fun g hg => ?_
      -- the least series of a group is one of its series
      have hne : (g.2.map fun r => r.1.seriesId) ≠ [] := by simpa using Sql.ne_nil_of_mem_groupBy hg
      obtain ⟨r, hr, hid⟩ := List.mem_map.mp (minSid_mem hne)
      obtain ⟨hmem, hkey⟩ := Sql.mem_of_mem_groupBy hg hr
      exact ⟨r.2, (hrows r hmem).1, (hrows r hmem).2.symm.trans hid, Prod.ext hkey rfl⟩
    change _ = groups.map _
    rw [aggregateWithout, hgrouped, List.map_map, ← hmap, joinSeries, Sql.join, List.flatMap_map,
      joinSeries, Sql.join, List.map_flatMap, List.map_flatMap]
    refine List.flatMap_congr fun g _ => ?_
    rw [List.map_map, List.map_map]
    rfl
  rw [← decodeInstant_groups hnum hkeep, instantAggregateWithout]
  exact congrArg (decodeInstant keep timeUs) hlabels

theorem mem_labelled_groupAggregates {op : AggOp} {modifier : Option LabelModifier} {timeUs : ℤ}
    {xs : List (Labels × Exact)} {x : Labels × Exact} :
    x ∈ (groupAggregates op modifier timeUs xs).map InstantPoint.labelled ↔
      (∃ y ∈ xs, retainedLabels y.1 modifier = x.1) ∧
        x.2 = applyAgg op ((xs.filter fun y =>
          decide (retainedLabels y.1 modifier = x.1)).map Prod.snd) := by
  rw [groupAggregates, List.map_map, List.mem_map]
  constructor
  · rintro ⟨g, hg, rfl⟩
    obtain ⟨hex, hrows⟩ := Sql.mem_groupBy.mp hg
    exact ⟨hex, congrArg (fun rs : List (Labels × Exact) => applyAgg op (rs.map Prod.snd)) hrows⟩
  · rintro ⟨hex, hval⟩
    exact ⟨(x.1, _), Sql.mem_groupBy.mpr ⟨hex, rfl⟩, Prod.ext rfl hval.symm⟩

/-- The group of a point. -/
theorem group_mem_groupAggregates (op : AggOp) (modifier : Option LabelModifier) (timeUs : ℤ)
    {xs : List (Labels × Exact)} {y : Labels × Exact} (hy : y ∈ xs) :
    (retainedLabels y.1 modifier, applyAgg op ((xs.filter fun x =>
      decide (retainedLabels x.1 modifier = retainedLabels y.1 modifier)).map Prod.snd)) ∈
        (groupAggregates op modifier timeUs xs).map InstantPoint.labelled :=
  mem_labelled_groupAggregates.mpr ⟨⟨y, hy, rfl⟩, rfl⟩

/-! ### Both evaluations -/

/-- The groups and the values of `without` agree, in the query and in the program. -/
structure WithoutAgrees (E : Sql.Engine) (t : Tables Exact) (sel : VectorSelector)
    (excluded : List String) : Prop where
  /-- The latest values of a selector are grouped by the labels left. -/
  latest : ∀ timeUs, GroupedByText E t excluded
    ((latestPoints E t sel timeUs).map Point.seriesId) (latestPoints E t sel timeUs)
  /-- So are its samples over a range. -/
  window : ∀ startUs endUs, GroupedByText E t excluded
    ((windowPoints t sel startUs endUs).map Point.seriesId).dedup (windowPoints t sel startUs endUs)
  /-- So are the values of a range function. -/
  rangefn : ∀ op rangeUs timeUs, GroupedByText E t excluded
    ((perSeriesRangefnCtes E t sel op rangeUs timeUs).map Point.seriesId)
    (perSeriesRangefnCtes E t sel op rangeUs timeUs)
  /-- So are the values of a range function over a range. -/
  rangefnRange : ∀ op rangeUs evals startUs endUs, GroupedByText E t excluded
    ((perSeriesRangefnRangeCtes E t sel op rangeUs evals startUs endUs).map Point.seriesId).dedup
    (perSeriesRangefnRangeCtes E t sel op rangeUs evals startUs endUs)
  /-- The aggregates are those of the program. -/
  values : ∀ op timeUs, SameValues (instantAggregateWithoutViaSql E t sel op excluded timeUs)
    (aggregateInstantPoints (instantSelector E t sel timeUs) op (some (.excludes excluded)) timeUs)

section Sufficient

variable (h : OneRowPerSeries t) (htold : ToldByText excluded (selectedSeries t sel))
include h htold

/-- Points of the selected series are grouped by the labels left. -/
theorem groupedByText_of_told {τ : Type} {E : Sql.Engine} {sids : List ℤ} (hsids : sids.Nodup)
    {points : List (Point τ Exact)} (hmem : ∀ p ∈ points, p.seriesId ∈ sids)
    (hseries : ∀ p ∈ points, ∃ s ∈ t.series, s.seriesId = p.seriesId ∧ sel.pushed s = true) :
    GroupedByText E t excluded sids points := by
  have hfst := map_fst_joinSeries h fun p hp => by
    obtain ⟨s, hs, hid, -⟩ := hseries p hp
    exact ⟨s, hs, hid⟩
  have hrows : ∀ r ∈ joinSeries t Point.seriesId points,
      r.1 ∈ points ∧ r.2 ∈ t.series ∧ r.1.seriesId = r.2.seriesId := by
    intro r hr
    obtain ⟨hp, hs, hon⟩ := Sql.mem_join.mp hr
    exact ⟨hp, hs, beq_iff_eq.mp hon⟩
  rw [← hfst]
  refine (groupedByText_iff h hsids (fun r hr => (hrows r hr).2) fun r hr =>
    hmem r.1 (hrows r hr).1).mpr (htold.mono fun s hs => ?_)
  obtain ⟨r, hr, rfl⟩ := List.mem_map.mp hs
  obtain ⟨hp, hs, hon⟩ := hrows r hr
  obtain ⟨s, hs', hid, hpush⟩ := hseries r.1 hp
  rw [series_eq h hs' hs (hid.trans hon)] at hpush
  exact List.mem_filter.mpr ⟨hs, hpush⟩

/-- **The query makes the aggregates of the groups** of the latest values. -/
theorem instantAggregateWithoutViaSql_eq (hplain : Plain t) (E : Sql.Engine) (op : AggOp)
    (timeUs : ℤ) :
    instantAggregateWithoutViaSql E t sel op excluded timeUs =
      groupAggregates op (some (.excludes excluded)) timeUs
        ((joinSeries t Point.seriesId (latestPoints E t sel timeUs)).map labelledRow) := by
  let d : Dataset Exact := ⟨t, fun s hs s' hs' hid => series_eq h hs hs' hid⟩
  have hlatest : ∀ p ∈ latestPoints E t sel timeUs,
      ∃ s ∈ t.series, s.seriesId = p.seriesId ∧ sel.pushed s = true :=
    fun p hp => d.hasSeries_of_mem_latestPoints hp
  have hfst := map_fst_joinSeries h fun p hp => by
    obtain ⟨s, hs, hid, -⟩ := hlatest p hp
    exact ⟨s, hs, hid⟩
  have hrows : ∀ r ∈ joinSeries t Point.seriesId (latestPoints E t sel timeUs),
      r.2 ∈ t.series ∧ r.1.seriesId = r.2.seriesId := by
    intro r hr
    obtain ⟨-, hs, hon⟩ := Sql.mem_join.mp hr
    exact ⟨hs, beq_iff_eq.mp hon⟩
  have hselected : ToldByText excluded
      ((joinSeries t Point.seriesId (latestPoints E t sel timeUs)).map Prod.snd) := by
    refine htold.mono fun s hs => ?_
    obtain ⟨r, hr, rfl⟩ := List.mem_map.mp hs
    obtain ⟨hp, hs, hon⟩ := Sql.mem_join.mp hr
    obtain ⟨s, hs', hid, hpush⟩ := hlatest r.1 hp
    rw [series_eq h hs' hs (hid.trans (beq_iff_eq.mp hon))] at hpush
    exact List.mem_filter.mpr ⟨hs, hpush⟩
  have hsids : (((joinSeries t Point.seriesId (latestPoints E t sel timeUs)).map Prod.fst).map
      Point.seriesId).Nodup := by
    rw [hfst]
    exact nodup_seriesId_latestPoints E t sel timeUs
  have hquery := instantAggregateWithout_eq h E (fun _ => true) op timeUs hrows hsids hselected
    (isNum_latestPoints h hplain.distinctTimestamps hplain.numbers E timeUs) fun _ _ => rfl
  rwa [hfst] at hquery

/-- **Where texts tell the labels, `without` agrees.** -/
theorem withoutAgrees_of_told (hplain : Plain t) (hkeys : DistinctKeys t sel)
    (haccept : NothingRefused t sel) (E : Sql.Engine) : WithoutAgrees E t sel excluded := by
  -- the table as a dataset, in which an identity stands for one series
  let d : Dataset Exact := ⟨t, fun s hs s' hs' hid => series_eq h hs hs' hid⟩
  have hlatest : ∀ timeUs, ∀ p ∈ latestPoints E t sel timeUs,
      ∃ s ∈ t.series, s.seriesId = p.seriesId ∧ sel.pushed s = true :=
    fun timeUs p hp => d.hasSeries_of_mem_latestPoints hp
  refine ⟨fun timeUs => ?_, fun startUs endUs => ?_, fun op rangeUs timeUs => ?_,
    fun op rangeUs evals startUs endUs => ?_, fun op timeUs => ?_⟩
  · exact groupedByText_of_told h htold (nodup_seriesId_latestPoints E t sel timeUs)
      (fun p hp => List.mem_map_of_mem hp) (hlatest timeUs)
  · exact groupedByText_of_told h htold (List.nodup_dedup _)
      (fun p hp => List.mem_dedup.mpr (List.mem_map_of_mem hp))
      fun p hp => d.hasSeries_of_mem_windowPoints hp
  · exact groupedByText_of_told h htold
      (nodup_seriesId_perSeriesRangefnCtes E t sel op rangeUs timeUs)
      (fun p hp => List.mem_map_of_mem hp) fun p hp => d.hasSeries_of_mem_perSeriesRangefnCtes hp
  · exact groupedByText_of_told h htold (List.nodup_dedup _)
      (fun p hp => List.mem_dedup.mpr (List.mem_map_of_mem hp))
      fun p hp => d.hasSeries_of_mem_perSeriesRangefnRangeCtes hp
  · rw [instantAggregateWithoutViaSql_eq h htold hplain]
    refine SameValues.of_perm (List.Perm.trans (groupAggregates_perm
      (labelledRow_perm h hplain.distinctTimestamps hkeys haccept E timeUs) ?_)
        (aggregateInstantPoints_perm _ op _ timeUs).symm)
    intro x hx
    obtain ⟨r, hr, rfl⟩ := List.mem_map.mp hx
    exact isNum_latestPoints h hplain.distinctTimestamps hplain.numbers E timeUs r hr

end Sufficient

/-! ### Samples at the epoch -/

section Necessary

variable {series : List Skaldberg.SeriesRow}

variable (h : (series.map Skaldberg.SeriesRow.seriesId).Nodup)
  (hagree : ∀ samples, Plain ⟨samples, series⟩ → ∀ E,
    WithoutAgrees E ⟨samples, series⟩ sel excluded)
include h hagree

/-- **The texts of the selected series have to tell their labels**: else a sample of each shows
it. -/
theorem toldByText_of_agrees : ToldByText excluded (series.filter sel.pushed) := by
  have hplain : Plain (atEpoch (fun _ => 0) series series) := plain_atEpoch h
  have hwindow := (hagree _ hplain Sql.Engine.stable).window 0 0
  have hrows : ∀ r ∈ (baseRows (atEpoch (fun _ => 0) series series) sel 0 0).map basePoint,
      r.2 ∈ series ∧ r.1.seriesId = r.2.seriesId := by
    intro r hr
    obtain ⟨r', hr', rfl⟩ := List.mem_map.mp hr
    obtain ⟨⟨-, hs, hon⟩, -⟩ := mem_baseRows.mp hr'
    exact ⟨hs, hon⟩
  have hpoints : windowPoints (atEpoch (fun _ => 0) series series) sel 0 0 =
      ((baseRows (atEpoch (fun _ => 0) series series) sel 0 0).map basePoint).map Prod.fst := by
    rw [List.map_map]
    rfl
  change GroupedByText _ (atEpoch (fun _ => 0) series series) _
    ((windowPoints (atEpoch (fun _ => 0) series series) sel 0 0).map Point.seriesId).dedup
      (windowPoints (atEpoch (fun _ => 0) series series) sel 0 0) at hwindow
  rw [hpoints] at hwindow
  have htold := (groupedByText_iff (t := atEpoch (fun _ => 0) series series) h
    (List.nodup_dedup _) hrows fun r hr =>
    List.mem_dedup.mpr (List.mem_map_of_mem (List.mem_map_of_mem hr))).mp hwindow
  refine htold.mono fun s hs => ?_
  obtain ⟨hs, hpush⟩ := List.mem_filter.mp hs
  exact List.mem_map.mpr ⟨_, List.mem_map_of_mem
    (mem_baseRows_atEpoch _ (le_refl 0) hs hs hpush), rfl⟩

/-- **The program may not refuse a selected series**: else a sample of it alone is a group of the
query. -/
theorem nothingRefused_of_agrees : NothingRefused (⟨[], series⟩ : Tables Exact) sel := by
  intro s hs hpush
  by_contra hrefused
  have hss : ([s].map Skaldberg.SeriesRow.seriesId).Nodup := List.nodup_singleton _
  have hsub : ∀ s' ∈ [s], s' ∈ series := fun s' hs' => List.mem_singleton.mp hs' ▸ hs
  have hplain : Plain (atEpoch (fun _ => 0) series [s]) := plain_atEpoch hss
  have hvalues := (hagree _ hplain Sql.Engine.stable).values .count 0
  have hnone : instantSelector Sql.Engine.stable (atEpoch (fun _ => 0) series [s]) sel 0 = [] := by
    have hrows : runSelectorQuery Sql.Engine.stable (atEpoch (fun _ => 0) series [s]) sel
        (asI64 (0 - lookbackUs)) 0 = [] := by
      refine List.filter_eq_nil_iff.mpr fun row hrow => ?_
      obtain ⟨r, hr, rfl⟩ := List.mem_map.mp (Sql.Engine.stable.mem_sort.mp hrow)
      rw [seriesRow, List.mem_singleton.mp (eq_of_mem_baseRows_atEpoch h hsub hr).1]
      exact hrefused
    rw [instantSelector, hrows]
    rfl
  have hmem := mem_joinSeries_atEpoch (fun _ => 0) h hss hsub Sql.Engine.stable
    (List.mem_singleton_self s) hpush
  have hgroup : ∃ v, (remaining excluded s.labels, v) ∈ (instantAggregateWithoutViaSql
      Sql.Engine.stable (atEpoch (fun _ => 0) series [s]) sel .count excluded 0).map
        InstantPoint.labelled := by
    rw [instantAggregateWithoutViaSql_eq (t := atEpoch (fun _ => 0) series [s]) h
      (toldByText_of_agrees h hagree) hplain]
    exact ⟨_, group_mem_groupAggregates _ _ _ (List.mem_map_of_mem hmem)⟩
  obtain ⟨v, hgroup⟩ := hgroup
  have hin := (hvalues _).mp hgroup
  change _ ∈ (aggregateInstantPoints
    (instantSelector Sql.Engine.stable (atEpoch (fun _ => 0) series [s]) sel 0)
    .count _ 0).map _ at hin
  rw [hnone] at hin
  exact List.not_mem_nil hin

/-- **The selected series may not share a key**: else two of them are one point of the program, and
are counted as one. -/
theorem distinctKeys_of_agrees : DistinctKeys (⟨[], series⟩ : Tables Exact) sel := by
  intro s hs s' hs' hpush hpush' hkey
  by_contra hne
  have hid : s.seriesId ≠ s'.seriesId := fun hid => hne (List.inj_on_of_nodup_map h hs hs' hid)
  have hss : ([s, s'].map Skaldberg.SeriesRow.seriesId).Nodup := by simpa using hid
  have hsub : ∀ x ∈ [s, s'], x ∈ series := by
    intro x hx
    rcases List.mem_pair.mp hx with rfl | rfl
    · exact hs
    · exact hs'
  have hplain : Plain (atEpoch (fun _ => 0) series [s, s']) := plain_atEpoch hss
  have hvalues := (hagree _ hplain Sql.Engine.stable).values .count 0
  let t : Tables Exact := atEpoch (fun _ => 0) series [s, s']
  let modifier : Option LabelModifier := some (.excludes excluded)
  -- the program has one point
  have hone : (instantSelector Sql.Engine.stable t sel 0).length ≤ 1 := by
    refine length_instantSelector_le_one _ h hsub (k := seriesKey s.metricName s.labels) ?_ _
    intro x hx
    rcases List.mem_pair.mp hx with rfl | rfl
    · exact fun _ => rfl
    · exact fun _ => hkey.symm
  have hcounted : ∀ x ∈ (aggregateInstantPoints (instantSelector Sql.Engine.stable t sel 0) .count
      modifier 0).map InstantPoint.labelled, x.2 = .num 1 ∧
        ∀ y ∈ (aggregateInstantPoints (instantSelector Sql.Engine.stable t sel 0) .count
          modifier 0).map InstantPoint.labelled, y = x := by
    have hperm := (aggregateInstantPoints_perm (instantSelector Sql.Engine.stable t sel 0) .count
      modifier 0).map InstantPoint.labelled
    match hinner : instantSelector Sql.Engine.stable t sel 0, hone with
    | [], _ =>
      rw [hinner] at hperm
      intro x hx
      exact absurd (hperm.mem_iff.mp hx) List.not_mem_nil
    | [p], _ =>
      rw [hinner] at hperm
      have hsingle : ((groupAggregates .count modifier 0 ([p].map InstantPoint.labelled)).map
          InstantPoint.labelled) = [(retainedLabels p.labels modifier, .num 1)] := by
        rw [groupAggregates, Sql.groupBy_const (k := retainedLabels p.labels modifier) (by simp
          [InstantPoint.labelled]) (by simp)]
        rfl
      rw [hsingle] at hperm
      intro x hx
      have hx := List.mem_singleton.mp (hperm.mem_iff.mp hx)
      refine ⟨by rw [hx], fun y hy => ?_⟩
      rw [List.mem_singleton.mp (hperm.mem_iff.mp hy), hx]
  -- the query counts both
  let rows := joinSeries t Point.seriesId (latestPoints Sql.Engine.stable t sel 0)
  have hmem := mem_joinSeries_atEpoch (fun _ => 0) h hss hsub Sql.Engine.stable
    (List.mem_cons_self ..) hpush
  have hmem' := mem_joinSeries_atEpoch (fun _ => 0) h hss hsub Sql.Engine.stable
    (List.mem_cons_of_mem _ (List.mem_singleton_self s')) hpush'
  have hquery := instantAggregateWithoutViaSql_eq (t := t) h (toldByText_of_agrees h hagree) hplain
    Sql.Engine.stable .count 0
  have hgroup := group_mem_groupAggregates .count modifier 0 (List.mem_map_of_mem (f := labelledRow)
    hmem)
  have hgroup' := group_mem_groupAggregates .count modifier 0
    (List.mem_map_of_mem (f := labelledRow)
    hmem')
  rw [← hquery] at hgroup hgroup'
  have hcount := hcounted _ ((hvalues _).mp hgroup)
  have hlabels := congrArg Prod.fst (hcount.2 _ ((hvalues _).mp hgroup'))
  have htwo : 2 ≤ (((rows.map labelledRow).filter fun x =>
      decide (retainedLabels x.1 modifier = retainedLabels s.labels modifier)).map
        Prod.snd).length := by
    rw [List.length_map, List.filter_map, List.length_map]
    have hnodup : [((⟨(), s.seriesId, .num 0⟩, s) : Point Unit Exact × Skaldberg.SeriesRow),
        (⟨(), s'.seriesId, .num 0⟩, s')].Nodup := by
      simp [hid]
    refine (hnodup.subperm fun r hr => ?_).length_le
    rcases List.mem_pair.mp hr with rfl | rfl
    · exact List.mem_filter.mpr ⟨hmem, decide_eq_true rfl⟩
    · exact List.mem_filter.mpr ⟨hmem', decide_eq_true hlabels⟩
  have hvalue := Exact.num.inj hcount.1
  have hlen : (((rows.map labelledRow).filter fun x =>
      decide (retainedLabels x.1 modifier = retainedLabels s.labels modifier)).map
        Prod.snd).length = 1 := by exact_mod_cast hvalue
  omega

end Necessary

/-- **`without` agrees on every table of samples** of some series exactly when the texts of the
selected series tell their labels, no two of them share a key and the program refuses none. -/
theorem aggregateWithout_refines_iff {series : List Skaldberg.SeriesRow}
    (h : (series.map Skaldberg.SeriesRow.seriesId).Nodup) (sel : VectorSelector)
    (excluded : List String) :
    (∀ samples, Plain ⟨samples, series⟩ → ∀ E, WithoutAgrees E ⟨samples, series⟩ sel excluded) ↔
      ToldByText excluded (series.filter sel.pushed) ∧
        DistinctKeys (⟨[], series⟩ : Tables Exact) sel ∧
          NothingRefused (⟨[], series⟩ : Tables Exact) sel := by
  constructor
  · intro hagree
    exact ⟨toldByText_of_agrees h hagree, distinctKeys_of_agrees h hagree,
      nothingRefused_of_agrees h hagree⟩
  · rintro ⟨htold, hkeys, haccept⟩ samples hplain E
    exact withoutAgrees_of_told (t := ⟨samples, series⟩) h htold hplain hkeys haccept E

/-- `sum without (zone) (up)`, for series of `up` with a job and an instance. -/
theorem aggregateWithout_refines_iff_jobsUp :
    WithoutAgrees Sql.Engine.stable jobsUp ⟨some "up", []⟩ ["zone"] :=
  (aggregateWithout_refines_iff (by decide) ⟨some "up", []⟩ ["zone"]).mpr
    ⟨by decide +kernel, by decide +kernel, VectorSelector.RegexFree.nothingRefused rfl⟩
    jobsUp.samples ⟨by decide, by decide⟩ Sql.Engine.stable

/-- **A series with no label left is lost**: `count without (job) (up)` has no point for
`up{job="a"}` in the query, and one in the program. -/
theorem without_loses_a_series :
    ¬WithoutAgrees Sql.Engine.stable
      ⟨[⟨1, 0, .num 1⟩], [⟨1, "up", SortedMap.empty.insert "job" "a"⟩]⟩ ⟨some "up", []⟩ ["job"] :=
  fun h => absurd (((h.values .count 0) (.empty, .num 1)).mpr (by decide +kernel))
    (by decide +kernel)

end Skaldberg.Prometheus
