import Skaldberg.Prometheus.PushedMatrices

/-!
# The matrices of groups

An aggregation in the query, and a quantile, answer with a row for each timestamp and group. A row
gets its labels from the columns of its group (`aggregateByTime`), or from the series that
represents the text of its group (`aggregateWithout`, `histogramQuantileOf`); either way the labels
tell the group, as the text of a group is spelt by the labels left. So there is one row for labels
and a timestamp, whatever the samples, and the answer is always told by its labels.
-/

namespace Skaldberg.Prometheus

variable {F τ : Type} {t : Tables F} {sel : VectorSelector} {points : List (Point τ F)}
  {keep : F → Bool} {rows : List (ℤ × Labels × Option F)}

/-! ### Decoded rows -/

theorem OfSeries.decodeRange {p : String → Bool} (h : ∀ r ∈ rows, PartOf t p "" r.2.1) :
    OfSeries t (Prometheus.decodeRange keep rows) := by
  refine ⟨p, fun s hs => ?_⟩
  rw [decodeRange_eq] at hs
  obtain ⟨g, hg, rfl⟩ := List.mem_map.mp hs
  obtain ⟨⟨x, hx, hkey⟩, -⟩ := SortedMap.mem_entries_foldl_push.mp (List.mem_of_mem_filter hg)
  have hrow := h _ (mem_keptRows.mp hx).1
  change PartOf t p "" g.1
  rw [← hkey]
  exact hrow

/-- **Rows at different timestamps where their labels are the same**, in the order of their
timestamps, make a matrix that is told by its labels. -/
theorem told_orderByTime {once labelled : Prop} (E : Sql.Engine)
    (h : rows.Pairwise fun a b => a.2.1 = b.2.1 → a.1 ≠ b.1) :
    Told once labelled (decodeRange keep (orderByTime E rows)) := by
  have hsorted := E.sort_pairwise (fun a b : ℤ × Labels × Option F => decide (a.1 ≤ b.1)) rows
    (fun a b => by simpa using le_total a.1 b.1) fun a b c => by simpa using le_trans
  have hdistinct := h.perm
    (E.sort_perm (fun a b : ℤ × Labels × Option F => decide (a.1 ≤ b.1)) rows).symm
    fun {a b} hab hlabels => (hab hlabels.symm).symm
  exact (grouped_decodeRange ((hsorted.and hdistinct).imp fun {a b} hab hlabels =>
    lt_of_le_of_ne (of_decide_eq_true hab.1) (hab.2 hlabels))).told

/-- Rows made of others are joined as these are. -/
theorem joinSeries_of_map {α β : Type} (t : Tables F) (sid : α → ℤ) (f : β → α) (rows : List β) :
    joinSeries t sid (rows.map f) =
      (joinSeries t (fun x => sid (f x)) rows).map fun x => (f x.1, x.2) := by
  rw [joinSeries, Sql.join, List.flatMap_map, joinSeries, Sql.join, List.map_flatMap]
  simp only [List.map_map]
  rfl

/-! ### Aggregations -/

section Aggregations

variable [F64 F] [DecidableEq τ] {op : AggOp} {modifier : Option LabelModifier} {E : Sql.Engine}
  {excluded : List String} {sids : List ℤ}

omit [DecidableEq τ] in
/-- **A point with a text has that of its series.** -/
theorem groupText_of_mem_joinGk (hrow : OneRowPerSeries t) (hsids : sids.Nodup)
    {r : Point τ F × String} (hr : r ∈ joinGk E t excluded sids points)
    {s : Skaldberg.SeriesRow} (hs : s ∈ t.series) (hid : s.seriesId = r.1.seriesId) :
    groupText excluded s = some r.2 := by
  obtain ⟨x, hx, rfl⟩ := List.mem_map.mp hr
  obtain ⟨-, hgk, hon⟩ := Sql.mem_join.mp hx
  have hkey : s.seriesId = x.2.1 := hid.trans (of_decide_eq_true hon)
  have hmem : s.seriesId ∈ sids := by
    obtain ⟨group, hgroup, hg⟩ := List.mem_map.mp hgk
    obtain ⟨⟨pair, hpair, hpkey⟩, -⟩ := Sql.mem_groupBy.mp hgroup
    obtain ⟨y, hy, hpair⟩ := List.mem_flatMap.mp hpair
    obtain ⟨k, -, rfl⟩ := List.mem_map.mp hpair
    rw [hkey, ← hg, ← hpkey]
    exact (Sql.mem_join.mp hy).1
  have hfilter : x.2 ∈ (gk E t excluded sids).filter fun g => decide (s.seriesId = g.1) :=
    List.mem_filter.mpr ⟨hgk, decide_eq_true hkey⟩
  rw [gk_filter_eq hrow hsids E hs hmem] at hfilter
  obtain ⟨text, htext, hx2⟩ := List.mem_map.mp hfilter
  rw [Option.mem_toList] at htext
  rw [htext, ← hx2]

/-- **There is one row of a text for labels and a timestamp.** -/
theorem pairwise_aggregateWithout (hrow : OneRowPerSeries t) (hsids : sids.Nodup) :
    (aggregateWithout E t op excluded sids points).Pairwise fun a b =>
      a.2.1 = b.2.1 → a.1 ≠ b.1 := by
  let groups := Sql.groupBy (fun r : Point τ F × String => (r.1.at_, r.2))
    (joinGk E t excluded sids points)
  let rep (g : (τ × String) × List (Point τ F × String)) : ℤ :=
    minSid (g.2.map fun r => r.1.seriesId)
  have hjoin : joinSeries t Prod.snd (groupedWithout E t op excluded sids points) =
      (joinSeries t rep groups).map fun x =>
        (((x.1.1.1, aggCall op (x.1.2.map fun r => r.1.value)), rep x.1), x.2) :=
    joinSeries_of_map t _ _ groups
  have hkeys : ((joinSeries t rep groups).map fun x => x.1.1).Nodup := by
    have hsub := (joinSeries_fst_sublist hrow rep groups).map Prod.fst
    rw [List.map_map] at hsub
    exact (Sql.nodup_groupBy_keys _ _).sublist hsub
  -- the labels of a row spell the text of its group
  have htext : ∀ x ∈ joinSeries t rep groups, groupText excluded x.2 = some x.1.1.2 := by
    intro x hx
    obtain ⟨hg, hs, hon⟩ := Sql.mem_join.mp hx
    have hne : (x.1.2.map fun r => r.1.seriesId) ≠ [] := by
      simpa using Sql.ne_nil_of_mem_groupBy hg
    obtain ⟨r, hr, hid⟩ := List.mem_map.mp (minSid_mem hne)
    obtain ⟨hmem, hkey⟩ := Sql.mem_of_mem_groupBy hg hr
    rw [groupText_of_mem_joinGk hrow hsids hmem hs ((beq_iff_eq.mp hon).symm.trans hid.symm)]
    exact congrArg some (congrArg Prod.snd hkey)
  rw [aggregateWithout, hjoin, List.map_map, List.pairwise_map]
  refine (List.pairwise_map.mp hkeys).imp_of_mem fun {x y} hx hy hne hlabels hat => hne ?_
  have hlabels : remaining excluded x.2.labels = remaining excluded y.2.labels := hlabels
  have hsame : groupText excluded x.2 = groupText excluded y.2 := by
    rw [groupText, groupText, hlabels]
  rw [htext x hx, htext y hy] at hsame
  exact Prod.ext hat (Option.some.inj hsame)

/-- **An aggregation of points in the query** is told by its labels. -/
theorem told_rangeAggregateOf {once labelled : Prop} (hrow : OneRowPerSeries t)
    (E : Sql.Engine) (keep : F → Bool) (op : AggOp) (modifier : Option LabelModifier)
    (points : List (Point ℤ F)) :
    Told once labelled (rangeAggregateOf E t keep op modifier points) := by
  rw [rangeAggregateOf]
  split
  · exact told_orderByTime E (pairwise_aggregateWithout hrow (List.nodup_dedup _))
  · exact (grouped_decodeRange aggregateByTime_pairwise).told

theorem OfSeries.rangeAggregateOf {points : List (Point ℤ F)} (hrow : OneRowPerSeries t)
    (hsampled : PointsSampled t sel points) (E : Sql.Engine) (keep : F → Bool) (op : AggOp)
    (modifier : Option LabelModifier) :
    OfSeries t (Prometheus.rangeAggregateOf E t keep op modifier points) := by
  rw [Prometheus.rangeAggregateOf]
  split
  · rename_i excluded hmod
    refine OfSeries.decodeRange (p := fun k => !excluded.contains k) fun r hr => ?_
    obtain ⟨x, hx, rfl⟩ := List.mem_map.mp (E.mem_sort.mp hr)
    obtain ⟨hgrouped, hs, hon⟩ := Sql.mem_join.mp hx
    obtain ⟨y, hy, hid⟩ := mem_groupedWithout hgrouped
    obtain ⟨z, hz, rfl⟩ := List.mem_map.mp hy
    exact ⟨x.2, hsampled.sampled hrow (Sql.mem_join.mp hz).1 hs
      ((beq_iff_eq.mp hon).symm.trans hid.symm), rfl, Or.inr rfl⟩
  · refine OfSeries.decodeRange (p := fun k => (aggregateGroupKeys modifier).contains k)
      fun r hr => ?_
    obtain ⟨g, hg, rfl⟩ := List.mem_map.mp hr
    obtain ⟨g', hg', rfl⟩ := List.mem_map.mp (E.mem_sort.mp hg)
    obtain ⟨⟨x, hx, hkey⟩, -⟩ := Sql.mem_groupBy.mp hg'
    obtain ⟨hpoint, hs, hon⟩ := Sql.mem_join.mp hx
    refine ⟨x.2, hsampled.sampled hrow hpoint hs (beq_iff_eq.mp hon).symm, ?_, Or.inr rfl⟩
    rw [← hkey]
    exact decodeLabels_labelColumns _ x.2

end Aggregations

/-! ### Quantiles -/

section Quantiles

variable [F64 F] [DecidableEq τ] {E : Sql.Engine} {buckets : List (GroupedBucket τ F)}

/-- **A bucket has a number of its own in its group.** -/
theorem nodup_rankedBuckets (E : Sql.Engine) (buckets : List (GroupedBucket τ F)) :
    ((rankedBuckets E buckets).map fun r => (r.bucket.partition, r.rn)).Nodup := by
  let numbered (rows : List (GroupedBucket τ F)) :=
    Sql.Engine.numberedFrom none 1 (E.sort (fun a b => F64.totalLe a.le b.le) rows)
  have hmap : (rankedBuckets E buckets).map (fun r => (r.bucket.partition, r.rn)) =
      (Sql.groupBy GroupedBucket.partition buckets).flatMap fun g =>
        (numbered g.2).map fun w => (w.row.partition, w.number) := by
    rw [rankedBuckets, E.overPartition_window, List.map_flatMap, List.map_flatMap]
    simp only [List.map_map]
    rfl
  have hpartition : ∀ g ∈ Sql.groupBy GroupedBucket.partition buckets, ∀ w ∈ numbered g.2,
      w.row.partition = g.1 := by
    intro g hg w hw
    have hrow := List.mem_map_of_mem (f := Sql.Engine.WindowRow.row) hw
    rw [Sql.Engine.map_row_numberedFrom] at hrow
    exact (Sql.mem_of_mem_groupBy hg (E.mem_sort.mp hrow)).2
  rw [hmap, List.nodup_flatMap]
  constructor
  · intro g _
    refine List.Nodup.of_map Prod.snd ?_
    rw [List.map_map]
    change ((numbered g.2).map Sql.Engine.WindowRow.number).Nodup
    rw [Sql.Engine.map_number_numberedFrom]
    exact List.nodup_range'
  · refine (List.pairwise_map.mp
      (Sql.nodup_groupBy_keys GroupedBucket.partition buckets)).imp_of_mem
        fun {g g'} hg hg' hne k hk hk' => hne ?_
    obtain ⟨w, hw, rfl⟩ := List.mem_map.mp hk
    obtain ⟨w', hw', hkey⟩ := List.mem_map.mp hk'
    rw [← hpartition g hg w hw, ← hpartition g' hg' w' hw']
    exact (congrArg Prod.fst hkey).symm

/-- A ranked bucket is a bucket. -/
theorem bucket_mem_of_ranked {r : RankedBucket τ F} (hr : r ∈ rankedBuckets E buckets) :
    r.bucket ∈ buckets := by
  obtain ⟨w, hw, rfl⟩ := List.mem_map.mp hr
  exact E.mem_window (Sql.mem_overPartition hw)

/-- The buckets in which a quantile is, with the representatives of their groups. -/
def crossed (q : F) (ranked : List (RankedBucket τ F)) :
    List ((((τ × String) × ℕ) × RankedBucket τ F) × String × ℤ) :=
  Sql.join (fun x rep => decide (x.1.1.2 = rep.1))
    (Sql.join (fun c r => decide (c.1 = r.bucket.partition ∧ c.2 = r.rn)) (crossing q ranked)
      ranked)
    (repSids ranked)

theorem quantileRows_eq (q : F) (ranked : List (RankedBucket τ F)) :
    quantileRows q ranked = (crossed q ranked).map fun r =>
      ((r.1.2.bucket.at_, interpolate q r.1.2), r.2.2) := rfl

/-- **A group has one row at a timestamp**: its first bucket that reaches the quantile, with its
representative. -/
theorem nodup_crossed (q : F) :
    ((crossed q (rankedBuckets E buckets)).map fun r => r.1.1.1).Nodup := by
  let ranked := rankedBuckets E buckets
  let found := Sql.join (fun (c : (τ × String) × ℕ) r =>
    decide (c.1 = r.bucket.partition ∧ c.2 = r.rn)) (crossing q ranked) ranked
  have hreps : ((repSids ranked).map Prod.fst).Nodup := by
    rw [repSids, List.map_map]
    exact Sql.nodup_groupBy_keys (fun r => r.bucket.groupKey) ranked
  have hkeys : ((crossing q ranked).map Prod.fst).Nodup := by
    rw [crossing, List.map_map]
    exact Sql.nodup_groupBy_keys (fun r : RankedBucket τ F => r.bucket.partition) _
  have hbucket : (found.map Prod.fst).Sublist (crossing q ranked) := by
    refine Sql.join_fst_sublist fun c _ => ?_
    have hle := Sql.length_filter_key_le (nodup_rankedBuckets E buckets) c
    refine (List.Perm.length_eq (List.Perm.of_eq (List.filter_congr fun r _ => ?_))).trans_le hle
    rw [decide_eq_decide]
    exact ⟨fun h => Prod.ext h.1.symm h.2.symm,
      fun h => ⟨congrArg Prod.fst h.symm, congrArg Prod.snd h.symm⟩⟩
  have hrep : ((crossed q ranked).map Prod.fst).Sublist found := by
    refine Sql.join_fst_sublist fun x _ => ?_
    have hle := Sql.length_filter_key_le hreps x.1.1.2
    simpa only [eq_comm] using hle
  have hsub := ((hrep.map Prod.fst).trans hbucket).map Prod.fst
  rw [List.map_map, List.map_map] at hsub
  exact hkeys.sublist hsub

omit [DecidableEq τ] in
/-- A bucket has the labels of its series. -/
theorem labels_of_mem_filteredBuckets {b : Bucket τ F} (hb : b ∈ filteredBuckets t points) :
    ∃ x ∈ points, ∃ s ∈ t.series, s.seriesId = x.seriesId ∧ b.seriesId = s.seriesId ∧
      b.labels = s.labels := by
  obtain ⟨r, hr, hb⟩ := List.mem_filterMap.mp hb
  obtain ⟨le, -, rfl⟩ := Option.map_eq_some_iff.mp hb
  obtain ⟨hx, hs, hon⟩ := Sql.mem_join.mp hr
  exact ⟨r.1, hx, r.2, hs, (beq_iff_eq.mp hon).symm, beq_iff_eq.mp hon, rfl⟩

section Points

variable (hrow : OneRowPerSeries t) (hpoints : (points.map fun x => (x.at_, x.seriesId)).Nodup)
include hrow hpoints

/-- **The text of a group is spelt by the labels of its representative**, the one of a point. -/
theorem text_of_mem_repSids {rep : String × ℤ}
    (hrep : rep ∈ repSids (rankedBuckets E (annotatedBuckets E (filteredBuckets t points))))
    {s : Skaldberg.SeriesRow} (hs : s ∈ t.series) (hid : s.seriesId = rep.2) :
    rep.1 = spelling (s.labels.erase "le") ∧ ∃ x ∈ points, s.seriesId = x.seriesId := by
  obtain ⟨r, hr, hkey, hrid⟩ := mem_repSids hrep
  have hmem := bucket_mem_of_ranked hr
  rw [annotatedBuckets_eq E (nodup_filteredBuckets hrow hpoints)] at hmem
  obtain ⟨b, hb, hbucket⟩ := List.mem_map.mp hmem
  obtain ⟨x, hx, s', hs', hxid, hbid, hlabels⟩ := labels_of_mem_filteredBuckets hb
  have hsame : s = s' := by
    refine series_eq hrow hs hs' ?_
    rw [hid, ← hrid, ← hbucket]
    exact hbid
  refine ⟨?_, x, hx, hsame ▸ hxid⟩
  rw [← hkey, ← hbucket, hsame, ← hlabels]

/-- **There is one quantile for labels and a timestamp.** -/
theorem pairwise_histogramQuantileOf (q : F) :
    (histogramQuantileOf E t q points).Pairwise fun a b => a.2.1 = b.2.1 → a.1 ≠ b.1 := by
  let ranked := rankedBuckets E (annotatedBuckets E (filteredBuckets t points))
  let sid (x : (((τ × String) × ℕ) × RankedBucket τ F) × String × ℤ) : ℤ := x.2.2
  have hkeys : ((joinSeries t sid (crossed q ranked)).map fun x => x.1.1.1.1).Nodup := by
    have hsub := (joinSeries_fst_sublist hrow sid (crossed q ranked)).map fun x => x.1.1.1
    rw [List.map_map] at hsub
    exact (nodup_crossed q).sublist hsub
  -- the timestamp and the labels of a row tell its group
  have hgroup : ∀ x ∈ joinSeries t sid (crossed q ranked), x.1.1.1.1 =
      (x.1.1.2.bucket.at_, spelling (x.2.labels.erase "le")) := by
    intro x hx
    obtain ⟨hfound, hs, hon⟩ := Sql.mem_join.mp hx
    obtain ⟨hcrossed, hrep, htext⟩ := Sql.mem_join.mp hfound
    have hpartition := (of_decide_eq_true (Sql.mem_join.mp hcrossed).2.2).1
    have hat : x.1.1.1.1.1 = x.1.1.2.bucket.at_ := congrArg Prod.fst hpartition
    refine Prod.ext hat ((of_decide_eq_true htext).trans ?_)
    exact (text_of_mem_repSids hrow hpoints hrep hs (beq_iff_eq.mp hon).symm).1
  rw [histogramQuantileOf, quantileRows_eq, joinSeries_of_map, List.map_map, List.pairwise_map]
  refine (List.pairwise_map.mp hkeys).imp_of_mem fun {x y} hx hy hne hlabels hat => hne ?_
  rw [hgroup x hx, hgroup y hy]
  exact Prod.ext hat (congrArg spelling hlabels)

/-- The labels of a quantile are those of a point, without the bound. -/
theorem series_of_mem_histogramQuantileOf {q : F} {r : τ × Labels × Option F}
    (hr : r ∈ histogramQuantileOf E t q points) :
    ∃ x ∈ points, ∃ s ∈ t.series, s.seriesId = x.seriesId ∧ r.2.1 = s.labels.erase "le" := by
  obtain ⟨x, hx, rfl⟩ := List.mem_map.mp hr
  obtain ⟨hrow', hs, hon⟩ := Sql.mem_join.mp hx
  obtain ⟨y, hy, hyx⟩ := List.mem_map.mp hrow'
  obtain ⟨-, hrep, -⟩ := Sql.mem_join.mp hy
  have hid : x.2.seriesId = y.2.2 := (beq_iff_eq.mp hon).symm.trans (congrArg Prod.snd hyx).symm
  obtain ⟨-, p, hp, hpid⟩ := text_of_mem_repSids hrow hpoints hrep hs hid
  exact ⟨p, hp, x.2, hs, hpid, rfl⟩

end Points

theorem OfSeries.histogramQuantileOf {points : List (Point ℤ F)} (hrow : OneRowPerSeries t)
    (hpoints : (points.map fun x => (x.at_, x.seriesId)).Nodup)
    (hsampled : PointsSampled t sel points) (q : F) :
    OfSeries t (Prometheus.decodeRange keep (orderByTime E
      (Prometheus.histogramQuantileOf E t q points))) := by
  refine OfSeries.decodeRange (p := fun k => decide (k ≠ "le")) fun r hr => ?_
  obtain ⟨x, hx, s, hs, hid, hlabels⟩ :=
    series_of_mem_histogramQuantileOf hrow hpoints (E.mem_sort.mp hr)
  exact ⟨s, hsampled.sampled hrow hx hs hid, hlabels, Or.inr rfl⟩

end Quantiles

end Skaldberg.Prometheus
