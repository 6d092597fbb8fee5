import Skaldberg.Prometheus.TopK

/-!
# Quantiles of histograms

`histogram_quantile(q, …)` over the buckets of a histogram: series that differ in the label `le`
only, the upper bound of a bucket, and count everything below it. The program groups the points
by their other labels, sorts the buckets of a group and walks them to the one in which the
quantile falls (`Skaldberg.Prometheus.quantileFromBuckets`). The query computes the same in
windows over the buckets of a group (`Bucket`, `rankedBuckets`, `crossing`), where a group is the
text its labels spell.

The query is written once over any type of evaluation timestamps, as for range functions; only
the representative of a group, whose labels are those of the result, is chosen for all
timestamps together.
-/

namespace Skaldberg.Prometheus

variable {F τ : Type} [F64 F]

/-! ### In the program -/

/-- `parse_le`. -/
def parseLe (s : String) : Option F :=
  if s.toLower = "+inf" ∨ s.toLower = "inf" then some F64.inf
  else if s.toLower = "-inf" then some F64.negInf
  else F64.parse s

/-- The walk to the bucket in which a count falls, from the bound and the count below. -/
def walkBuckets (target : F) : F → F → List (F × F) → Option F
  | _, _, [] => none
  | lowerLe, lowerCount, (le, count) :: rest =>
    if F64.le target count then
      if F64.isInfinite le then some lowerLe
      else
        let bucketCount := F64.sub count lowerCount
        if F64.le bucketCount (F64.ofInt 0) then some le
        else
          let frac := F64.div (F64.sub target lowerCount) bucketCount
          some (F64.add lowerLe (F64.mul frac (F64.sub le lowerLe)))
    else walkBuckets target le count rest

/-- `quantile_from_buckets`. -/
def quantileFromBuckets (buckets : List (F × F)) (q : F) : Option F :=
  if buckets.length < 2 then none
  else
    buckets.getLast?.bind fun last =>
      let total := last.2
      if F64.le total (F64.ofInt 0) || F64.isNan q then none
      else if F64.le q (F64.ofInt 0) then
        (buckets.find? fun b => F64.lt (F64.ofInt 0) b.2).map Prod.fst
      else if F64.le (F64.ofInt 1) q then
        (buckets.reverse.find? fun b => F64.isFinite b.1).map Prod.fst
      else walkBuckets (F64.mul q total) (F64.ofInt 0) (F64.ofInt 0) buckets

/-- The bound of a bucket series and its other labels; nothing for a series that is no bucket. -/
def splitLe (labels : Labels) : Option (F × Labels) :=
  ((labels.get? "le").bind parseLe).map fun le => (le, labels.erase "le")

/-- `histogram_quantile_instant`. -/
def histogramQuantileInstant (inner : List (InstantPoint F)) (quantile : F) (timeUs : ℤ) :
    List (InstantPoint F) :=
  let groups : SortedMap Labels (List (F × F)) :=
    inner.foldl (fun m p => match splitLe p.labels with
      | some b => m.push b.2 (b.1, p.value)
      | none => m) .empty
  groups.entries.filterMap fun g =>
    (quantileFromBuckets (sortByValue false Prod.fst g.2) quantile).map fun v =>
      ⟨"", g.1, timeUs, v⟩

/-- `histogram_quantile_range`. -/
def histogramQuantileRange (inner : List (RangePoints F)) (quantile : F) : List (RangePoints F) :=
  let groups : SortedMap Labels (SortedMap ℤ (List (F × F))) :=
    inner.foldl (fun m s => match splitLe s.labels with
      | some b => m.upsert b.2 fun g =>
          s.points.foldl (fun g p => g.push p.1 (b.1, p.2)) (g.getD .empty)
      | none => m) .empty
  (groups.entries.map fun g =>
    (⟨"", g.1, g.2.entries.filterMap fun e =>
      (quantileFromBuckets (sortByValue false Prod.fst e.2) quantile).map fun v => (e.1, v)⟩ :
        RangePoints F)).filter fun s => !s.points.isEmpty

/-! ### In a query -/

/-- A row of `filtered_buckets`: a series with a bound, and its rate. -/
structure Bucket (τ F : Type) where
  /-- The evaluation timestamp. -/
  at_ : τ
  /-- The series. -/
  seriesId : ℤ
  /-- Its labels. -/
  labels : Labels
  /-- The cumulative count, or its rate. -/
  cum : F
  /-- The bound. -/
  le : F

/-- The bound of a bucket: `TRY_CAST` of the label, infinities under the names it knows. -/
def castLe (le : String) : Option F :=
  F64.tryCast (if le.toLower = "+inf" ∨ le.toLower = "inf" then "Infinity"
    else if le.toLower = "-inf" then "-Infinity" else le)

/-- `buckets`, then `filtered_buckets`: the series with a label `le` that is a number. -/
def filteredBuckets (t : Tables F) (points : List (Point τ F)) : List (Bucket τ F) :=
  (joinSeries t Point.seriesId points).filterMap fun r =>
    ((elementAt r.2.labels "le").bind castLe).map fun le =>
      ⟨r.1.at_, r.1.seriesId, r.2.labels, r.1.value, le⟩

/-- A row of `annotated`: a bucket with the text of its group. -/
structure GroupedBucket (τ F : Type) extends Bucket τ F where
  /-- The text that the labels other than `le` spell. -/
  groupKey : String

variable [DecidableEq τ]

/-- `gk_pairs`, then `gk`: the text that the other labels of a bucket spell, if it has any. -/
def bucketGk (E : Sql.Engine) (buckets : List (Bucket τ F)) : List ((τ × ℤ) × Option String) :=
  let pairs := buckets.flatMap fun b =>
    (b.labels.keys.filter fun k => k != "le").map fun k =>
      ((b.at_, b.seriesId), k, elementAt b.labels k)
  (Sql.groupBy Prod.fst pairs).map fun g => (g.1, stringAgg E (g.2.map Prod.snd))

/-- `annotated`. -/
def annotatedBuckets (E : Sql.Engine) (buckets : List (Bucket τ F)) : List (GroupedBucket τ F) :=
  (Sql.leftJoin (fun b g => decide ((b.at_, b.seriesId) = g.1)) buckets (bucketGk E buckets)).map
    fun r => ⟨r.1, (r.2.bind Prod.snd).getD ""⟩

/-- A row of `ranked`. -/
structure RankedBucket (τ F : Type) where
  /-- The bucket. -/
  bucket : GroupedBucket τ F
  /-- The bucket before it in its group. -/
  prev : Option (GroupedBucket τ F)
  /-- Its number in its group. -/
  rn : ℕ
  /-- The greatest count of its group. -/
  total : F

/-- The timestamp and the group of a bucket. -/
def GroupedBucket.partition (b : GroupedBucket τ F) : τ × String := (b.at_, b.groupKey)

/-- `ranked`. -/
def rankedBuckets (E : Sql.Engine) (buckets : List (GroupedBucket τ F)) :
    List (RankedBucket τ F) :=
  (Sql.overPartition (fun w => w.row.partition)
    (E.window GroupedBucket.partition (fun a b => F64.totalLe a.le b.le) buckets)).map fun r =>
      { bucket := r.1.row
        prev := r.1.prev
        rn := r.1.number
        total := (aggCall .max (r.2.map fun w => w.row.cum)).getD (F64.ofInt 0) }

/-- `rep`: the least series of each group. -/
def repSids (ranked : List (RankedBucket τ F)) : List (String × ℤ) :=
  (Sql.groupBy (fun r => r.bucket.groupKey) ranked).map fun g =>
    (g.1, minSid (g.2.map fun r => r.bucket.seriesId))

/-- `crossing`: the number of the first bucket of each group that reaches the quantile. -/
def crossing (q : F) (ranked : List (RankedBucket τ F)) : List ((τ × String) × ℕ) :=
  (Sql.groupBy (fun r => r.bucket.partition) (ranked.filter fun r =>
    F64.sqlLt (F64.ofInt 0) r.total && F64.totalLe (F64.mul q r.total) r.bucket.cum)).map fun g =>
      (g.1, (g.2.map RankedBucket.rn).min?.getD 0)

/-- The value interpolated in the bucket of the quantile. -/
def interpolate (q : F) (r : RankedBucket τ F) : F :=
  let prevLe := (r.prev.map fun b => b.le).getD (F64.ofInt 0)
  let prevCum := (r.prev.map fun b => b.cum).getD (F64.ofInt 0)
  let count := F64.sub r.bucket.cum prevCum
  if F64.sqlEq r.bucket.le F64.inf then prevLe
  else if F64.totalLe count (F64.ofInt 0) then r.bucket.le
  else
    F64.add prevLe (F64.mul (F64.div (F64.sub (F64.mul q r.total) prevCum) count)
      (F64.sub r.bucket.le prevLe))

/-- `crossing c JOIN ranked r ON … JOIN rep ON …`: the quantile of each group, with the series
that represents it. -/
def quantileRows (q : F) (ranked : List (RankedBucket τ F)) : List ((τ × F) × ℤ) :=
  let crossed := Sql.join (fun c r => decide (c.1 = r.bucket.partition ∧ c.2 = r.rn))
    (crossing q ranked) ranked
  (Sql.join (fun x rep => decide (x.1.1.2 = rep.1)) crossed (repSids ranked)).map fun r =>
    ((r.1.2.bucket.at_, interpolate q r.1.2), r.2.2)

/-- The quantiles of the groups of some points, under the labels of the group. -/
def histogramQuantileOf (E : Sql.Engine) (t : Tables F) (q : F) (points : List (Point τ F)) :
    List (τ × Labels × Option F) :=
  let ranked := rankedBuckets E (annotatedBuckets E (filteredBuckets t points))
  (joinSeries t Prod.snd (quantileRows q ranked)).map fun r =>
    (r.1.1.1, r.2.labels.erase "le", some r.1.1.2)

/-! ### The evaluators -/

omit [DecidableEq τ]

/-- `instant_histogram_quantile_via_sql`. -/
def instantHistogramQuantileViaSql (E : Sql.Engine) (t : Tables F) (sel : VectorSelector)
    (rangeUs : ℤ) (fnOp : RangeFnOp) (quantile : F) (timeUs : ℤ) : List (InstantPoint F) :=
  decodeInstant F64.isFinite timeUs ((histogramQuantileOf E t quantile
    (perSeriesRangefnCtes E t sel fnOp rangeUs timeUs)).map Prod.snd)

/-- `range_histogram_quantile_via_sql`. -/
def rangeHistogramQuantileViaSql (E : Sql.Engine) (t : Tables F) (sel : VectorSelector)
    (rangeUs : ℤ) (fnOp : RangeFnOp) (quantile : F) (startUs endUs stepUs : ℤ) :
    Except PromError (List (RangePoints F)) := do
  let evals ← evalGrid startUs endUs stepUs
  if evals.isEmpty then return []
  return decodeRange F64.isFinite (orderByTime E (histogramQuantileOf E t quantile
    (perSeriesRangefnRangeCtes E t sel fnOp rangeUs evals startUs endUs)))

/-! ### What a quantile can see of the tables -/

section Locality

variable {d : Dataset F} {p : Skaldberg.SeriesRow → Bool} {points : List (Point τ F)}

/-- A bucket is the point of a series with a bound. -/
theorem mem_filteredBuckets {t : Tables F} {b : Bucket τ F} (h : b ∈ filteredBuckets t points) :
    ∃ r ∈ joinSeries t Point.seriesId points, r.1.seriesId = b.seriesId ∧
      ((elementAt r.2.labels "le").bind (castLe (F := F))).isSome := by
  obtain ⟨r, hr, hb⟩ := List.mem_filterMap.mp h
  obtain ⟨le, hle, rfl⟩ := Option.map_eq_some_iff.mp hb
  exact ⟨r, hr, rfl, by rw [hle, Option.isSome_some]⟩

variable [DecidableEq τ]

/-- A ranked bucket is one of the buckets. -/
theorem mem_rankedBuckets {E : Sql.Engine} {buckets : List (Bucket τ F)} {r : RankedBucket τ F}
    (h : r ∈ rankedBuckets E (annotatedBuckets E buckets)) :
    ∃ b ∈ buckets, b.seriesId = r.bucket.seriesId := by
  obtain ⟨w, hw, rfl⟩ := List.mem_map.mp h
  obtain ⟨b, hb, hbw⟩ := List.mem_map.mp (E.mem_window (Sql.mem_overPartition hw))
  exact ⟨b.1, Sql.mem_of_mem_leftJoin hb, congrArg (fun b => b.seriesId) hbw⟩

omit [F64 F] [DecidableEq τ] in
/-- **The representative of a group of buckets is one of its series.** -/
theorem mem_repSids {ranked : List (RankedBucket τ F)} {rep : String × ℤ}
    (h : rep ∈ repSids ranked) :
    ∃ r ∈ ranked, r.bucket.groupKey = rep.1 ∧ r.bucket.seriesId = rep.2 := by
  obtain ⟨g, hg, rfl⟩ := List.mem_map.mp h
  have hne : (g.2.map fun r => r.bucket.seriesId) ≠ [] := by
    simpa using Sql.ne_nil_of_mem_groupBy hg
  obtain ⟨r, hr, hid⟩ := List.mem_map.mp (minSid_mem hne)
  obtain ⟨hmem, hkey⟩ := Sql.mem_of_mem_groupBy hg hr
  exact ⟨r, hmem, hkey, hid⟩

/-- **A quantile looks only at the series that are buckets.** -/
theorem histogramQuantileOf_filter
    (h : ∀ b ∈ filteredBuckets d.toTables points, d.keeps p b.seriesId = true) (E : Sql.Engine)
    (q : F) :
    histogramQuantileOf E (d.restrict p).toTables q
        (points.filter fun x => d.keeps p x.seriesId) =
      histogramQuantileOf E d.toTables q points := by
  have hbuckets : filteredBuckets (d.restrict p).toTables
      (points.filter fun x => d.keeps p x.seriesId) = filteredBuckets d.toTables points := by
    have hall : (filteredBuckets d.toTables points).filter (fun b => d.keeps p b.seriesId) =
        filteredBuckets d.toTables points := List.filter_eq_self.mpr h
    rw [← hall, filteredBuckets, d.joinSeries_filter, filteredBuckets, List.filterMap_filter,
      List.filter_filterMap]
    refine List.filterMap_congr fun r _ => ?_
    cases (elementAt r.2.labels "le").bind (castLe (F := F)) with
    | none => simp
    | some le => by_cases hk : d.keeps p r.1.seriesId <;> simp [hk, Option.filter]
  rw [histogramQuantileOf, hbuckets, histogramQuantileOf]
  refine congrArg (List.map _) (d.joinSeries_restrict fun x hx => ?_)
  obtain ⟨y, hy, rfl⟩ := List.mem_map.mp hx
  obtain ⟨r, hr, -, hid⟩ := mem_repSids (Sql.mem_join.mp hy).2.1
  obtain ⟨b, hb, hbid⟩ := mem_rankedBuckets hr
  exact hid ▸ hbid ▸ Dataset.keeps_iff.mp (h b hb)

end Locality

end Skaldberg.Prometheus
