import Skaldberg.Prometheus.RankedBuckets
import Skaldberg.Prometheus.SortConsistency

/-!
# Pushed quantiles

The query of `histogram_quantile` finds for each group the quantile by the greatest rate of its
buckets (`Skaldberg.Prometheus.mem_histogramQuantileOf`). The program, given the same rates, finds
the quantile by the last rate. As long as no two groups spell alike, the two answers are the same
exactly when the two totals tell the same quantile of every group, at one timestamp as at many
(`Skaldberg.Prometheus.TotalsTell`, `Skaldberg.Prometheus.histogramQuantiles_agree_iff`).

Groups that spell alike are one to the query, under the labels of one of them. So an agreement
leaves quantiles to one of them at most (`Skaldberg.Prometheus.OneQuantilePerText`).
-/

namespace Skaldberg.Prometheus

/-- The bucket of some labels with a rate, if it is one of a group. -/
def bucketOf (group : Labels) (labels : Labels) (v : Exact) : Option (Exact × Exact) :=
  ((splitLe labels).filter fun b => decide (b.2 = group)).map fun b => (b.1, v)

/-! ### The quantile of some buckets -/

/-- **The program sorts the buckets of a group** by their bounds. -/
theorem quantile_sortByValue {V : BucketRates} {l : List (Exact × Exact)}
    (hperm : V.buckets.Perm l) (q : Exact) :
    quantileFromBuckets (sortByValue false Prod.fst l) q = quantileFromBuckets V.buckets q := by
  have hnan : ∀ b ∈ l, b.1 ≠ Exact.nan := by
    intro b hb heq
    rcases V.bound (hperm.mem_iff.mpr hb) with ⟨x, hx⟩ | hinf
    · rw [hx] at heq
      cases heq
    · rw [hinf] at heq
      cases heq
  have hsort : (sortByValue false Prod.fst l).Perm l := List.perm_insertionSort _ l
  rw [V.eq_of_perm_of_pairwise (hsort.trans hperm.symm)]
  refine (pairwise_sortByValue hnan).imp_of_mem fun {a b} ha hb hab => ?_
  rwa [rustOrder_eq_orderDir (hnan a (hsort.mem_iff.mp ha)) (hnan b (hsort.mem_iff.mp hb))] at hab

/-! ### In the program -/

theorem mem_histogramQuantileInstant {inner : List (InstantPoint Exact)} {q : Exact} {timeUs : ℤ}
    {x : InstantPoint Exact} :
    x ∈ histogramQuantileInstant inner q timeUs ↔ x.metricName = "" ∧ x.tsUs = timeUs ∧
      quantileFromBuckets (sortByValue false Prod.fst
        (inner.filterMap fun p => bucketOf x.labels p.labels p.value)) q = some x.value := by
  have hgroups : histogramInstantGroups inner = (inner.filterMap fun p =>
      (splitLe p.labels).map fun b => (b.2, b.1, p.value)).foldl
        (fun m r => m.push r.1 r.2) .empty := by
    rw [histogramInstantGroups, List.foldl_filterMap]
    congr 1
    funext m p
    cases splitLe (F := Exact) p.labels <;> rfl
  have hlist : ∀ group, ((inner.filterMap fun p => (splitLe p.labels).map fun b =>
      (b.2, b.1, p.value)).filter fun r => decide (r.1 = group)).map Prod.snd =
        inner.filterMap fun p => bucketOf group p.labels p.value := by
    intro group
    rw [List.filter_filterMap, List.map_filterMap]
    refine List.filterMap_congr fun p _ => ?_
    rw [bucketOf]
    cases hs : splitLe (F := Exact) p.labels with
    | none => rfl
    | some b => by_cases hb : b.2 = group <;> simp [hb, Option.filter]
  rw [histogramQuantileInstant_eq, List.mem_filterMap]
  constructor
  · rintro ⟨g, hg, hx⟩
    obtain ⟨v, hv, rfl⟩ := Option.map_eq_some_iff.mp hx
    rw [hgroups] at hg
    obtain ⟨-, hg2⟩ := SortedMap.mem_entries_foldl_push.mp hg
    rw [hg2, hlist] at hv
    exact ⟨rfl, rfl, hv⟩
  · rintro ⟨hname, hts, hv⟩
    obtain ⟨name, labels, ts, v⟩ := x
    obtain rfl : name = "" := hname
    obtain rfl : ts = timeUs := hts
    refine ⟨(labels, _), ?_, Option.map_eq_some_iff.mpr ⟨v, hv, rfl⟩⟩
    have hne : (inner.filterMap fun p => bucketOf labels p.labels p.value) ≠ [] := by
      intro hnil
      rw [hnil] at hv
      cases hv
    rw [hgroups, SortedMap.mem_entries_foldl_push, hlist]
    refine ⟨?_, rfl⟩
    rw [← hlist] at hne
    obtain ⟨r, hr⟩ := List.exists_mem_of_ne_nil _ fun h => hne (congrArg (List.map Prod.snd) h)
    obtain ⟨hr, hlabels⟩ := List.mem_filter.mp hr
    exact ⟨r, hr, of_decide_eq_true hlabels⟩

/-- The map of timestamps that a group of series is collected into. -/
def collectedBuckets (l : List ((Exact × Labels) × RangePoints Exact)) :
    SortedMap ℤ (List (Exact × Exact)) :=
  (l.flatMap fun x => x.2.points.map fun p => (p.1, x.1.1, p.2)).foldl
    (fun m e => m.push e.1 e.2) .empty

/-- The series that are buckets, with their bounds and groups. -/
def bucketSeries (inner : List (RangePoints Exact)) : List ((Exact × Labels) × RangePoints Exact) :=
  inner.filterMap fun s => (splitLe s.labels).map fun b => (b, s)

theorem entries_histogramRangeGroups (inner : List (RangePoints Exact)) :
    (histogramRangeGroups inner).entries.Perm
      ((Sql.groupBy (fun x => x.1.2) (bucketSeries inner)).map fun g =>
        (g.1, collectedBuckets g.2)) := by
  have hfold : histogramRangeGroups inner = (bucketSeries inner).foldl (fun m x =>
      m.upsert x.1.2 fun g => x.2.points.foldl (fun g p => g.push p.1 (x.1.1, p.2))
        (g.getD .empty)) .empty := by
    rw [histogramRangeGroups, bucketSeries, List.foldl_filterMap]
    congr 1
    funext m s
    cases splitLe (F := Exact) s.labels <;> rfl
  rw [hfold]
  refine SortedMap.entries_foldl_upsert_perm _ _ collectedBuckets (fun l hne => ?_) _
  have hrun : ∀ (l : List ((Exact × Labels) × RangePoints Exact))
      (m : SortedMap ℤ (List (Exact × Exact))),
      l.foldl (fun o x => some (x.2.points.foldl (fun g p => g.push p.1 (x.1.1, p.2))
        (o.getD .empty))) (some m) =
          some ((l.flatMap fun x => x.2.points.map fun p => (p.1, x.1.1, p.2)).foldl
            (fun m e => m.push e.1 e.2) m) := by
    intro l
    induction l with
    | nil => exact fun _ => rfl
    | cons x l ih =>
      intro m
      rw [List.foldl_cons, Option.getD_some, ih, List.flatMap_cons, List.foldl_append,
        List.foldl_map]
  obtain ⟨x, l, rfl⟩ := List.exists_cons_of_ne_nil hne
  rw [List.foldl_cons, hrun, collectedBuckets, List.flatMap_cons, List.foldl_append, List.foldl_map]
  rfl

/-- **The buckets of a group at a timestamp** are those of the rows there. -/
theorem map_snd_bucketSeries (inner : List (RangePoints Exact)) (group : Labels) (ts : ℤ) :
    ((((bucketSeries inner).filter fun x => decide (x.1.2 = group)).flatMap fun x =>
      x.2.points.map fun p => (p.1, x.1.1, p.2)).filter fun e => decide (e.1 = ts)).map Prod.snd =
        ((inner.flatMap RangePoints.rows).filter fun x => decide (x.tsUs = ts)).filterMap
          fun x => bucketOf group x.labels x.value := by
  induction inner with
  | nil => rfl
  | cons s inner ih =>
    have hrows : (s.rows.filter fun x => decide (x.tsUs = ts)).filterMap
        (fun x => bucketOf group x.labels x.value) =
          (s.points.filter fun p => decide (p.1 = ts)).filterMap
            fun p => bucketOf group s.labels p.2 := by
      rw [RangePoints.rows, List.filter_map, List.filterMap_map]
      rfl
    rw [List.flatMap_cons, List.filter_append, List.filterMap_append, ← ih, hrows, bucketSeries,
      List.filterMap_cons]
    simp only [bucketOf]
    cases hs : splitLe (F := Exact) s.labels with
    | none => simp [bucketSeries]
    | some b =>
      by_cases hb : b.2 = group
      · simp [bucketSeries, hb, Option.filter, List.filter_map, Function.comp_def]
      · simp [bucketSeries, hb]

/-- What is collected for a group at a timestamp are its buckets there. -/
theorem mem_collectedBuckets {inner : List (RangePoints Exact)} {group : Labels}
    {e : ℤ × List (Exact × Exact)} :
    e ∈ (collectedBuckets ((bucketSeries inner).filter fun x => decide (x.1.2 = group))).entries ↔
      e.2 ≠ [] ∧ e.2 = ((inner.flatMap RangePoints.rows).filter fun x =>
        decide (x.tsUs = e.1)).filterMap fun x => bucketOf group x.labels x.value := by
  rw [collectedBuckets, SortedMap.mem_entries_foldl_push, map_snd_bucketSeries]
  refine and_congr_left fun heq => ?_
  rw [heq, ← map_snd_bucketSeries, Ne, List.map_eq_nil_iff, List.filter_eq_nil_iff]
  push Not
  simp only [decide_eq_true_eq]

theorem mem_rows_histogramQuantileRange {inner : List (RangePoints Exact)} {q : Exact}
    {r : SeriesRow Exact} :
    r ∈ (histogramQuantileRange inner q).flatMap RangePoints.rows ↔ r.metricName = "" ∧
      quantileFromBuckets (sortByValue false Prod.fst
        (((inner.flatMap RangePoints.rows).filter fun x => decide (x.tsUs = r.tsUs)).filterMap
          fun x => bucketOf r.labels x.labels x.value)) q = some r.value := by
  rw [histogramQuantileRange_eq]
  constructor
  · intro hr
    obtain ⟨s, hs, hr⟩ := List.mem_flatMap.mp hr
    obtain ⟨g, hg, rfl⟩ := List.mem_map.mp (List.mem_of_mem_filter hs)
    obtain ⟨hname, hlabels, hp⟩ := mem_rows.mp hr
    obtain ⟨e, he, hv⟩ := List.mem_filterMap.mp hp
    obtain ⟨v, hv, hev⟩ := Option.map_eq_some_iff.mp hv
    obtain ⟨hts, hval⟩ := Prod.mk.inj hev
    obtain ⟨grp, hgrp, rfl⟩ := List.mem_map.mp ((entries_histogramRangeGroups inner).mem_iff.mp hg)
    have he : e ∈ (collectedBuckets grp.2).entries := he
    rw [(Sql.mem_groupBy.mp hgrp).2, mem_collectedBuckets] at he
    refine ⟨hname, ?_⟩
    rw [hlabels, ← hts, ← hval, ← hv, ← he.2]
  · rintro ⟨hname, hv⟩
    let bs := ((inner.flatMap RangePoints.rows).filter fun x => decide (x.tsUs = r.tsUs)).filterMap
      fun x => bucketOf r.labels x.labels x.value
    change quantileFromBuckets (sortByValue false Prod.fst bs) q = _ at hv
    have hne : bs ≠ [] := by
      intro hnil
      rw [hnil] at hv
      cases hv
    let sources := (bucketSeries inner).filter fun x => decide (x.1.2 = r.labels)
    have he : (r.tsUs, bs) ∈ (collectedBuckets sources).entries :=
      mem_collectedBuckets.mpr ⟨hne, rfl⟩
    have hgrp : (r.labels, sources) ∈ Sql.groupBy (fun x => x.1.2) (bucketSeries inner) := by
      refine Sql.mem_groupBy.mpr ⟨?_, rfl⟩
      have hsources : sources ≠ [] := by
        intro hnil
        rw [hnil] at he
        cases he
      obtain ⟨x, hx⟩ := List.exists_mem_of_ne_nil _ hsources
      obtain ⟨hx, hlabels⟩ := List.mem_filter.mp hx
      exact ⟨x, hx, of_decide_eq_true hlabels⟩
    have hg := (entries_histogramRangeGroups inner).mem_iff.mpr (List.mem_map_of_mem hgrp)
    have hp : (r.tsUs, r.value) ∈ (collectedBuckets sources).entries.filterMap fun e =>
        (quantileFromBuckets (sortByValue false Prod.fst e.2) q).map fun v => (e.1, v) :=
      List.mem_filterMap.mpr ⟨_, he, Option.map_eq_some_iff.mpr ⟨_, hv, rfl⟩⟩
    refine List.mem_flatMap.mpr ⟨_, List.mem_filter.mpr ⟨List.mem_map_of_mem hg, ?_⟩,
      mem_rows.mpr ⟨hname, rfl, hp⟩⟩
    rw [Bool.not_eq_true', List.isEmpty_eq_false_iff]
    exact List.ne_nil_of_mem hp

/-! ### Vectors of rates -/

section Rates

variable {τ : Type} [DecidableEq τ] {t : Tables Exact} {points : List (Point τ Exact)}

/-- Rates of series, of which each has at most one at a timestamp; the bounds of the buckets of a
group are distinct. -/
structure IsRateVector (t : Tables Exact) (points : List (Point τ Exact)) : Prop where
  /-- A series has one rate at a timestamp. -/
  oneRate : (points.map fun p => (p.at_, p.seriesId)).Nodup
  /-- The buckets of a group are rates under distinct bounds. -/
  rates : ∀ at_ labels, IsRates ((bucketsOfGroup t points at_ labels).map pairOf)

/-- The two totals tell the same quantile, for each group at each timestamp. -/
def TotalsTell (t : Tables Exact) (points : List (Point τ Exact)) (q : ℚ) : Prop :=
  ∀ at_ labels, ∀ V : BucketRates,
    V.buckets.Perm ((bucketsOfGroup t points at_ labels).map pairOf) → V.TotalTells q

/-- Of the groups that spell alike, one at most has quantiles. -/
def OneQuantilePerText (t : Tables Exact) (points : List (Point τ Exact)) : Prop :=
  ∀ at_ labels, ∀ V : BucketRates,
    V.buckets.Perm ((bucketsOfGroup t points at_ labels).map pairOf) → V.HasQuantile →
      ∀ at_' labels', ∀ V' : BucketRates,
        V'.buckets.Perm ((bucketsOfGroup t points at_' labels').map pairOf) → V'.HasQuantile →
          spelling labels = spelling labels' → labels = labels'

/-- The rows of the query are the quantiles of the program. -/
def RowsAgree (E : Sql.Engine) (t : Tables Exact) (points : List (Point τ Exact)) (q : ℚ) : Prop :=
  ∀ at_ labels v,
    (at_, labels, some v) ∈ histogramQuantileOf E t (.num q) points ∧ F64.isFinite v = true ↔
      quantileFromBuckets (sortByValue false Prod.fst
        ((bucketsOfGroup t points at_ labels).map pairOf)) (.num q) = some v

/-- The buckets of a group at a timestamp are those of its rows there. -/
theorem map_pairOf_bucketsOfGroup (at_ : τ) (labels : Labels) :
    (bucketsOfGroup t points at_ labels).map pairOf =
      ((joinSeries t Point.seriesId points).filter fun r => decide (r.1.at_ = at_)).filterMap
        fun r => bucketOf labels r.2.labels r.1.value := by
  rw [bucketsOfGroup, groupedBuckets, List.filter_filterMap, List.map_filterMap,
    List.filterMap_filter]
  refine List.filterMap_congr fun r _ => ?_
  rw [bucketOf, splitLe]
  cases (SortedMap.get? r.2.labels "le").bind (parseLe (F := Exact)) with
  | none => simp
  | some le =>
    by_cases hat : r.1.at_ = at_ <;> by_cases hlabels : r.2.labels.erase "le" = labels <;>
      simp [Option.filter, hat, hlabels, pairOf]

end Rates

/-! ### At one timestamp and at many -/

/-- The quantiles that the query makes of some rates at one time. -/
def quantilesByQuery (E : Sql.Engine) (t : Tables Exact) (q : Exact) (timeUs : ℤ)
    (points : List (Point Unit Exact)) : List (InstantPoint Exact) :=
  decodeInstant F64.isFinite timeUs ((histogramQuantileOf E t q points).map Prod.snd)

/-- The rates at one time, as the program has them. -/
def labelledPoints (t : Tables Exact) (timeUs : ℤ) (points : List (Point Unit Exact)) :
    List (InstantPoint Exact) :=
  (joinSeries t Point.seriesId points).map fun r =>
    ⟨r.2.metricName, r.2.labels, timeUs, r.1.value⟩

/-- The quantiles that the query makes of some rates at many timestamps. -/
def quantileRangesByQuery (E : Sql.Engine) (t : Tables Exact) (q : Exact)
    (points : List (Point ℤ Exact)) : List (RangePoints Exact) :=
  decodeRange F64.isFinite (orderByTime E (histogramQuantileOf E t q points))

/-- The quantiles of the query at one time are those of the program. -/
def InstantQuantilesAgree (E : Sql.Engine) (t : Tables Exact) (q : ℚ) (timeUs : ℤ)
    (points : List (Point Unit Exact)) : Prop :=
  ∀ x, x ∈ quantilesByQuery E t (.num q) timeUs points ↔
    x ∈ histogramQuantileInstant (labelledPoints t timeUs points) (.num q) timeUs

/-- The quantiles of the query at many timestamps are those of the program. -/
def RangeQuantilesAgree (E : Sql.Engine) (t : Tables Exact) (q : ℚ) (points : List (Point ℤ Exact))
    (inner : List (RangePoints Exact)) : Prop :=
  ∀ r, r ∈ (quantileRangesByQuery E t (.num q) points).flatMap RangePoints.rows ↔
    r ∈ (histogramQuantileRange inner (.num q)).flatMap RangePoints.rows

/-- A matrix presents some rates: its rows are the rates, with the labels of their series. -/
def Presents (inner : List (RangePoints Exact)) (t : Tables Exact) (points : List (Point ℤ Exact)) :
    Prop :=
  (inner.flatMap RangePoints.rows).Perm ((joinSeries t Point.seriesId points).map (rowOf id))

theorem instantHistogramQuantileViaSql_eq (E : Sql.Engine) (t : Tables Exact) (sel : VectorSelector)
    (rangeUs : ℤ) (op : RangeFnOp) (q : Exact) (timeUs : ℤ) :
    instantHistogramQuantileViaSql E t sel rangeUs op q timeUs =
      quantilesByQuery E t q timeUs (perSeriesRangefnCtes E t sel op rangeUs timeUs) := rfl

theorem mem_quantilesByQuery {E : Sql.Engine} {t : Tables Exact} {q : Exact} {timeUs : ℤ}
    {points : List (Point Unit Exact)} {x : InstantPoint Exact} :
    x ∈ quantilesByQuery E t q timeUs points ↔ x.metricName = "" ∧ x.tsUs = timeUs ∧
      ((), x.labels, some x.value) ∈ histogramQuantileOf E t q points ∧
        F64.isFinite x.value = true := by
  rw [quantilesByQuery, decodeInstant, List.filterMap_map, List.mem_filterMap]
  constructor
  · rintro ⟨⟨at_, labels, o⟩, hr, hx⟩
    obtain ⟨v, hv, rfl⟩ := Option.map_eq_some_iff.mp hx
    obtain ⟨hv, hkeep⟩ := Option.filter_eq_some_iff.mp hv
    obtain rfl : o = some v := hv
    exact ⟨rfl, rfl, hr, hkeep⟩
  · obtain ⟨name, labels, ts, v⟩ := x
    rintro ⟨hname, hts, hr, hkeep⟩
    obtain rfl : name = "" := hname
    obtain rfl : ts = timeUs := hts
    refine ⟨_, hr, Option.map_eq_some_iff.mpr ⟨v, Option.filter_eq_some_iff.mpr ⟨rfl, hkeep⟩, rfl⟩⟩

section Agreement

variable {t : Tables Exact} {q : ℚ} (h : OneRowPerSeries t) (h0 : 0 < q) (h1 : q < 1)
include h h0 h1

/-- **The rows of the query are the quantiles by the greatest rates.** -/
theorem mem_histogramQuantileOf_iff {τ : Type} [DecidableEq τ] {points : List (Point τ Exact)}
    (hrates : IsRateVector t points) (hspelt : GroupsSpeltApart t points) (E : Sql.Engine) {at_ : τ}
    {labels : Labels} {V : BucketRates}
    (hperm : V.buckets.Perm ((bucketsOfGroup t points at_ labels).map pairOf)) {v : Exact} :
    (at_, labels, some v) ∈ histogramQuantileOf E t (.num q) points ∧ F64.isFinite v = true ↔
      V.quantileByLargest q = some v := by
  rw [mem_histogramQuantileOf h hrates.oneRate hspelt, find?_rankPartition E hperm]
  simp only [Option.some.injEq, exists_eq_left']
  refine and_iff_left_of_imp fun hv => ?_
  rw [V.quantileByLargest_eq h0 h1] at hv
  split_ifs at hv
  cases hv
  rfl

/-- **When the rows of the query are the quantiles of the program**, as long as no two groups spell
alike. -/
theorem rowsAgree_iff {τ : Type} [DecidableEq τ] {points : List (Point τ Exact)}
    (hrates : IsRateVector t points) (hspelt : GroupsSpeltApart t points) (E : Sql.Engine) :
    RowsAgree E t points q ↔ TotalsTell t points q := by
  constructor
  · intro hagree at_ labels V hperm
    refine (V.quantile_eq_quantileByLargest_iff h0 h1).mp (Option.ext fun v => ?_)
    rw [← quantile_sortByValue hperm, ← hagree,
      mem_histogramQuantileOf_iff h h0 h1 hrates hspelt E hperm]
  · intro htell at_ labels v
    obtain ⟨V, hperm⟩ := (hrates.rates at_ labels).exists_perm
    rw [mem_histogramQuantileOf_iff h h0 h1 hrates hspelt E hperm, quantile_sortByValue hperm,
      (V.quantile_eq_quantileByLargest_iff h0 h1).mpr (htell at_ labels V hperm)]

/-- **An agreement leaves quantiles to one of the groups that spell alike.** -/
theorem oneQuantilePerText_of_rowsAgree {τ : Type} [DecidableEq τ] {points : List (Point τ Exact)}
    (hrates : IsRateVector t points) {E : Sql.Engine} (hagree : RowsAgree E t points q) :
    OneQuantilePerText t points := by
  have hrow : ∀ at_ labels, ∀ V : BucketRates,
      V.buckets.Perm ((bucketsOfGroup t points at_ labels).map pairOf) → V.HasQuantile →
        ∃ v, (at_, labels, some v) ∈ histogramQuantileOf E t (.num q) points := by
    intro at_ labels V hperm hquantile
    obtain ⟨v, hv⟩ := Option.isSome_iff_exists.mp ((V.isSome_quantile_iff h0 h1).mpr hquantile)
    exact ⟨v, ((hagree at_ labels v).mpr ((quantile_sortByValue hperm _).trans hv)).1⟩
  intro at_ labels V hperm hquantile at_' labels' V' hperm' hquantile' hspell
  obtain ⟨v, hv⟩ := hrow at_ labels V hperm hquantile
  obtain ⟨v', hv'⟩ := hrow at_' labels' V' hperm' hquantile'
  exact labels_eq_of_mem_histogramQuantileOf h hrates.oneRate hv hv' hspell

end Agreement

/-- **The quantiles at one time agree when the rows do.** -/
theorem instantQuantiles_agree_iff (E : Sql.Engine) (t : Tables Exact) (q : ℚ) (timeUs : ℤ)
    (points : List (Point Unit Exact)) :
    InstantQuantilesAgree E t q timeUs points ↔ RowsAgree E t points q := by
  have hbuckets : ∀ labels, (labelledPoints t timeUs points).filterMap
      (fun p => bucketOf labels p.labels p.value) =
        (bucketsOfGroup t points () labels).map pairOf := by
    intro labels
    rw [map_pairOf_bucketsOfGroup, List.filter_eq_self.mpr fun _ _ => decide_eq_true rfl,
      labelledPoints, List.filterMap_map]
    rfl
  simp only [InstantQuantilesAgree, mem_quantilesByQuery, mem_histogramQuantileInstant, hbuckets,
    RowsAgree]
  constructor
  · intro hagree at_ labels v
    simpa using hagree ⟨"", labels, timeUs, v⟩
  · intro hagree x
    rw [hagree () x.labels x.value]

/-- **The quantiles at many timestamps agree when the rows do.** -/
theorem rangeQuantiles_agree_iff {t : Tables Exact} {points : List (Point ℤ Exact)}
    {inner : List (RangePoints Exact)} (hrates : IsRateVector t points)
    (hinner : Presents inner t points) (E : Sql.Engine) (q : ℚ) :
    RangeQuantilesAgree E t q points inner ↔ RowsAgree E t points q := by
  have hbuckets : ∀ ts labels, (((inner.flatMap RangePoints.rows).filter fun x =>
      decide (x.tsUs = ts)).filterMap fun x => bucketOf labels x.labels x.value).Perm
        ((bucketsOfGroup t points ts labels).map pairOf) := by
    intro ts labels
    rw [map_pairOf_bucketsOfGroup]
    refine ((hinner.filter _).filterMap _).trans (List.Perm.of_eq ?_)
    rw [List.filter_map, List.filterMap_map]
    rfl
  have hprogram : ∀ ts labels, quantileFromBuckets (sortByValue false Prod.fst
      (((inner.flatMap RangePoints.rows).filter fun x => decide (x.tsUs = ts)).filterMap
        fun x => bucketOf labels x.labels x.value)) (.num q) =
          quantileFromBuckets (sortByValue false Prod.fst
            ((bucketsOfGroup t points ts labels).map pairOf)) (.num q) := by
    intro ts labels
    obtain ⟨V, hperm⟩ := (hrates.rates ts labels).exists_perm
    rw [quantile_sortByValue hperm, quantile_sortByValue (hperm.trans (hbuckets ts labels).symm)]
  simp only [RangeQuantilesAgree, quantileRangesByQuery, mem_rows_decodeRange, orderByTime,
    Sql.Engine.mem_sort, mem_rows_histogramQuantileRange, hprogram, RowsAgree]
  constructor
  · intro hagree ts labels v
    simpa using hagree ⟨"", labels, ts, v⟩
  · intro hagree r
    rw [hagree r.tsUs r.labels r.value]

theorem histogramQuantileOf_nil {τ : Type} [DecidableEq τ] (E : Sql.Engine) (t : Tables Exact)
    (q : Exact) : histogramQuantileOf E t q ([] : List (Point τ Exact)) = [] := by
  have hannotated : annotatedBuckets E (filteredBuckets t ([] : List (Point τ Exact))) = [] := rfl
  have hranked : rankedBuckets E ([] : List (GroupedBucket τ Exact)) = [] := by
    rw [rankedBuckets_eq]
    rfl
  rw [histogramQuantileOf, hannotated, hranked]
  rfl

/-- The evaluation of a matrix query is that of its rates. -/
theorem rangeHistogramQuantileViaSql_of_grid {startUs endUs stepUs : ℤ} {evals : List ℤ}
    (hgrid : evalGrid startUs endUs stepUs = .ok evals) (E : Sql.Engine) (t : Tables Exact)
    (sel : VectorSelector) (rangeUs : ℤ) (op : RangeFnOp) (q : Exact) :
    rangeHistogramQuantileViaSql E t sel rangeUs op q startUs endUs stepUs =
      .ok (quantileRangesByQuery E t q
        (perSeriesRangefnRangeCtes E t sel op rangeUs evals startUs endUs)) := by
  rw [rangeHistogramQuantileViaSql, hgrid]
  cases evals with
  | nil =>
    have hpoints : perSeriesRangefnRangeCtes E t sel op rangeUs [] startUs endUs = [] := by
      refine List.eq_nil_iff_forall_not_mem.mpr fun p hp => ?_
      obtain ⟨b, hb, -⟩ := exists_base_of_mem_perSeries hp
      cases hb
    rw [hpoints, quantileRangesByQuery, histogramQuantileOf_nil, orderByTime, E.sort_nil]
    rfl
  | cons et evals => rfl

/-- **When the quantiles of the query are those of the program**: as long as no two groups spell
alike, exactly when the two totals tell the same; and never when two groups that spell alike have
quantiles. -/
theorem histogramQuantiles_agree_iff (t : Tables Exact) (h : OneRowPerSeries t) (q : ℚ) (h0 : 0 < q)
    (h1 : q < 1) (E : Sql.Engine) :
    (∀ sel rangeUs op timeUs, instantHistogramQuantileViaSql E t sel rangeUs op (.num q) timeUs =
      quantilesByQuery E t (.num q) timeUs (perSeriesRangefnCtes E t sel op rangeUs timeUs)) ∧
    (∀ points timeUs, IsRateVector t points →
      (GroupsSpeltApart t points →
        (InstantQuantilesAgree E t q timeUs points ↔ TotalsTell t points q)) ∧
      (InstantQuantilesAgree E t q timeUs points → OneQuantilePerText t points)) ∧
    (∀ sel rangeUs op startUs endUs stepUs evals, evalGrid startUs endUs stepUs = .ok evals →
      rangeHistogramQuantileViaSql E t sel rangeUs op (.num q) startUs endUs stepUs =
        .ok (quantileRangesByQuery E t (.num q)
          (perSeriesRangefnRangeCtes E t sel op rangeUs evals startUs endUs))) ∧
    ∀ points inner, IsRateVector t points → Presents inner t points →
      (GroupsSpeltApart t points →
        (RangeQuantilesAgree E t q points inner ↔ TotalsTell t points q)) ∧
      (RangeQuantilesAgree E t q points inner → OneQuantilePerText t points) := by
  refine ⟨fun sel rangeUs op timeUs => rfl, fun points timeUs hrates => ?_,
    fun sel rangeUs op startUs endUs stepUs evals hgrid =>
      rangeHistogramQuantileViaSql_of_grid hgrid E t sel rangeUs op (.num q),
    fun points inner hrates hinner => ?_⟩
  · rw [instantQuantiles_agree_iff E t q timeUs points]
    exact ⟨fun hspelt => rowsAgree_iff h h0 h1 hrates hspelt E,
      oneQuantilePerText_of_rowsAgree h h0 h1 hrates⟩
  · rw [rangeQuantiles_agree_iff hrates hinner E q]
    exact ⟨fun hspelt => rowsAgree_iff h h0 h1 hrates hspelt E,
      oneQuantilePerText_of_rowsAgree h h0 h1 hrates⟩

/-! ### Two buckets -/

/-- The counters of two buckets, and their values after a minute. -/
def twoBuckets (lower upper : ℚ) : Tables Exact :=
  ⟨[⟨1, 0, .num 0⟩, ⟨2, 0, .num 0⟩, ⟨1, 60000000, .num lower⟩, ⟨2, 60000000, .num upper⟩],
    [⟨1, "latency_bucket", SortedMap.empty.insert "le" "1"⟩,
      ⟨2, "latency_bucket", SortedMap.empty.insert "le" "+Inf"⟩]⟩

/-- Their increases over the minute. -/
def twoRates {τ : Type} (at_ : τ) (lower upper : ℚ) : List (Point τ Exact) :=
  [⟨at_, 1, .num lower⟩, ⟨at_, 2, .num upper⟩]

section TwoBuckets

variable {τ : Type} (time : τ) (lower upper : ℚ)

theorem groupedBuckets_twoRates :
    groupedBuckets (twoBuckets lower upper) (twoRates time lower upper) =
      [⟨⟨time, 1, SortedMap.empty.insert "le" "1", .num lower, .num 1⟩, ""⟩,
        ⟨⟨time, 2, SortedMap.empty.insert "le" "+Inf", .num upper, .inf⟩, ""⟩] := by
  have hlower : splitLe (SortedMap.empty.insert "le" "1") = some (Exact.num 1, .empty) := by
    decide +kernel
  have hupper : splitLe (SortedMap.empty.insert "le" "+Inf") = some (Exact.inf, .empty) := by
    decide +kernel
  change [((⟨time, 1, .num lower⟩ : Point τ Exact), (⟨1, "latency_bucket",
    SortedMap.empty.insert "le" "1"⟩ : Skaldberg.SeriesRow)), (⟨time, 2, .num upper⟩,
      ⟨2, "latency_bucket", SortedMap.empty.insert "le" "+Inf"⟩)].filterMap _ = _
  simp only [List.filterMap_cons, List.filterMap_nil, hlower, hupper, Option.map_some]
  rfl

variable [DecidableEq τ]

/-- The buckets are one group, of no other labels. -/
theorem map_pairOf_twoRates (at_ : τ) (labels : Labels) :
    (bucketsOfGroup (twoBuckets lower upper) (twoRates time lower upper) at_ labels).map pairOf =
      if time = at_ ∧ SortedMap.empty = labels then
        [(.num 1, .num lower), (.inf, .num upper)] else [] := by
  have hlower : (SortedMap.empty.insert "le" "1" : Labels).erase "le" = .empty := by decide
  have hupper : (SortedMap.empty.insert "le" "+Inf" : Labels).erase "le" = .empty := by decide
  rw [bucketsOfGroup, groupedBuckets_twoRates]
  by_cases hgroup : time = at_ ∧ SortedMap.empty = labels
  · obtain ⟨rfl, rfl⟩ := hgroup
    simp [hlower, hupper, pairOf]
  · simp [hlower, hupper, hgroup]

omit [DecidableEq τ] in
theorem groupsSpeltApart_twoRates :
    GroupsSpeltApart (twoBuckets lower upper) (twoRates time lower upper) := by
  rw [GroupsSpeltApart, groupedBuckets_twoRates]
  simp only [List.mem_cons, List.not_mem_nil, or_false, forall_eq_or_imp, forall_eq]
  decide

variable {lower upper} in
theorem isRateVector_twoRates (hlower : 0 ≤ lower) (hupper : 0 ≤ upper) :
    IsRateVector (twoBuckets lower upper) (twoRates time lower upper) where
  oneRate := by simp [twoRates]
  rates at_ labels := by
    rw [map_pairOf_twoRates]
    split_ifs
    · refine ⟨?_, ?_, ?_⟩
      · simp [Exact.IsNum]
      · simp
      · simp [hlower, hupper]
    · exact ⟨by simp, by simp, by simp⟩

variable {lower upper} in
/-- The totals tell the same, when the rates increase. -/
theorem totalsTell_twoRates (hle : lower ≤ upper) (q : ℚ) :
    TotalsTell (twoBuckets lower upper) (twoRates time lower upper) q := by
  intro at_ labels V hperm
  rw [map_pairOf_twoRates] at hperm
  split_ifs at hperm
  · have hbuckets := V.eq_of_perm_of_pairwise hperm.symm (by simp [Exact.totalLe, Exact.rank])
    have hrates : V.rates = [lower, upper] := by
      refine List.map_injective_iff.mpr (fun _ _ => Exact.num.inj) ?_
      rw [← V.map_snd_buckets, ← hbuckets]
      rfl
    refine .inr ⟨by rw [hrates, List.length_cons, List.length_singleton], .inl ?_⟩
    simp [BucketRates.total, hrates, hle]
  · have hrates : V.rates = [] := by
      refine List.map_injective_iff.mpr (fun _ _ => Exact.num.inj) ?_
      rw [← V.map_snd_buckets, hperm.eq_nil]
      rfl
    exact .inl (by simp [hrates])

end TwoBuckets

/-- The rates of two buckets as a matrix. -/
def twoRanges (lower upper : ℚ) : List (RangePoints Exact) :=
  [⟨"latency_bucket", SortedMap.empty.insert "le" "1", [(60000000, .num lower)]⟩,
    ⟨"latency_bucket", SortedMap.empty.insert "le" "+Inf", [(60000000, .num upper)]⟩]

/-- The median of rates that increase is the same in the query and in the program. -/
theorem histogramQuantiles_agree_iff_twoBuckets :
    InstantQuantilesAgree Sql.Engine.stable (twoBuckets 4 6) (1 / 2) 60000000 (twoRates () 4 6) ∧
    OneQuantilePerText (twoBuckets 4 6) (twoRates () 4 6) ∧
    rangeHistogramQuantileViaSql Sql.Engine.stable (twoBuckets 4 6) ⟨some "latency_bucket", []⟩
        60000000 .increase (.num (1 / 2)) 60000000 60000000 60000000 =
      .ok (quantileRangesByQuery Sql.Engine.stable (twoBuckets 4 6) (.num (1 / 2))
        (perSeriesRangefnRangeCtes Sql.Engine.stable (twoBuckets 4 6) ⟨some "latency_bucket", []⟩
          .increase 60000000 [60000000] 60000000 60000000)) ∧
    RangeQuantilesAgree Sql.Engine.stable (twoBuckets 4 6) (1 / 2) (twoRates 60000000 4 6)
      (twoRanges 4 6) ∧
    OneQuantilePerText (twoBuckets 4 6) (twoRates (60000000 : ℤ) 4 6) := by
  obtain ⟨-, hinstant, hgrid, hrange⟩ := histogramQuantiles_agree_iff (twoBuckets 4 6)
    (by decide) (1 / 2) (by norm_num) (by norm_num) Sql.Engine.stable
  obtain ⟨hiff, hone⟩ := hinstant (twoRates () 4 6) 60000000
    (isRateVector_twoRates () (by norm_num) (by norm_num))
  obtain ⟨hiff', hone'⟩ := hrange (twoRates 60000000 4 6) (twoRanges 4 6)
    (isRateVector_twoRates 60000000 (by norm_num) (by norm_num)) (List.Perm.refl _)
  have hagree := (hiff (groupsSpeltApart_twoRates () 4 6)).mpr
    (totalsTell_twoRates () (by norm_num) _)
  have hagree' := (hiff' (groupsSpeltApart_twoRates 60000000 4 6)).mpr
    (totalsTell_twoRates 60000000 (by norm_num) _)
  exact ⟨hagree, hone hagree, hgrid _ _ _ _ _ _ [60000000] (by decide +kernel), hagree',
    hone' hagree'⟩

/-- The selector of the buckets with a finite bound. -/
def finiteBuckets : VectorSelector := ⟨some "latency_bucket", [⟨.notEqual, "le", "+Inf"⟩]⟩

/-- **The median of rates that decrease** is another one in the query, which takes the greatest rate
for the total; and the query finds a median of one bucket. -/
theorem decreasing_rates_disagree :
    OneRowPerSeries (twoBuckets 4 2) ∧ IsRateVector (twoBuckets 4 2) (twoRates () 4 2) ∧
      GroupsSpeltApart (twoBuckets 4 2) (twoRates () 4 2) ∧
      perSeriesRangefnCtes Sql.Engine.stable (twoBuckets 4 2) ⟨some "latency_bucket", []⟩
        .increase 60000000 60000000 = twoRates () 4 2 ∧
      instantHistogramQuantileViaSql Sql.Engine.stable (twoBuckets 4 2)
        ⟨some "latency_bucket", []⟩ 60000000 .increase (.num (1 / 2)) 60000000 =
          [⟨"", .empty, 60000000, .num (1 / 2)⟩] ∧
      histogramQuantileInstant (labelledPoints (twoBuckets 4 2) 60000000 (twoRates () 4 2))
        (.num (1 / 2)) 60000000 = [⟨"", .empty, 60000000, .num (1 / 4)⟩] ∧
      ¬InstantQuantilesAgree Sql.Engine.stable (twoBuckets 4 2) (1 / 2) 60000000
        (twoRates () 4 2) ∧
      instantHistogramQuantileViaSql Sql.Engine.stable (twoBuckets 4 2) finiteBuckets 60000000
        .increase (.num (1 / 2)) 60000000 = [⟨"", .empty, 60000000, .num (1 / 2)⟩] ∧
      histogramQuantileInstant (labelledPoints (twoBuckets 4 2) 60000000
        (perSeriesRangefnCtes Sql.Engine.stable (twoBuckets 4 2) finiteBuckets .increase 60000000
          60000000)) (.num (1 / 2)) 60000000 = [] := by
  have hquery : quantilesByQuery Sql.Engine.stable (twoBuckets 4 2) (.num (1 / 2)) 60000000
      (twoRates () 4 2) = [⟨"", .empty, 60000000, .num (1 / 2)⟩] := by
    decide +kernel
  have hprogram : histogramQuantileInstant (labelledPoints (twoBuckets 4 2) 60000000
      (twoRates () 4 2)) (.num (1 / 2)) 60000000 = [⟨"", .empty, 60000000, .num (1 / 4)⟩] := by
    decide +kernel
  refine ⟨by decide, isRateVector_twoRates () (by norm_num) (by norm_num),
    groupsSpeltApart_twoRates () 4 2, by decide +kernel, by decide +kernel, hprogram,
    fun hagree => ?_, by decide +kernel, by decide +kernel⟩
  have hmem := (hagree ⟨"", .empty, 60000000, .num (1 / 2)⟩).mp (hquery ▸ List.mem_singleton_self _)
  rw [hprogram] at hmem
  revert hmem
  decide +kernel

end Skaldberg.Prometheus
