import Skaldberg.Prometheus.Selector

/-!
# One value per series

What an evaluator aggregates, ranks or combines is one value per series: the latest sample of
the lookback window, every sample of a matrix window, or what `rate`, `irate`, `increase` or
`delta` makes of a range. All three are tables of `Skaldberg.Prometheus.Point`, computed from the
base rows of the selector.

An instant query and a matrix query compute a range function by the same query text, but for the
evaluation timestamp: the instant query has none, the matrix query adds it to every partition. So
the stages of the query are written once, over any type of evaluation timestamps
(`perSeriesRangefn`), and each of the two queries is their instance at its own base rows
(`perSeriesRangefnCtes`, `perSeriesRangefnRangeCtes`). Where a point comes from is then said once
too: `exists_base_of_mem_perSeries`.
-/

namespace Skaldberg.Prometheus

/-- A value of a series, at an evaluation timestamp when there are several. -/
structure Point (τ F : Type) where
  /-- The evaluation timestamp. -/
  at_ : τ
  /-- The series. -/
  seriesId : ℤ
  /-- The value. -/
  value : F
  deriving DecidableEq

/-- A sample that belongs to the window of an evaluation timestamp. -/
structure BaseRow (τ F : Type) where
  /-- The evaluation timestamp. -/
  at_ : τ
  /-- The series. -/
  seriesId : ℤ
  /-- The timestamp of the sample. -/
  tsUs : ℤ
  /-- The value of the sample. -/
  value : F
  deriving DecidableEq

variable {τ F : Type}

/-- The partition of a base row: its evaluation timestamp and its series. -/
def BaseRow.partition (b : BaseRow τ F) : τ × ℤ := (b.at_, b.seriesId)

/-! ### Range functions -/

section Stages

variable [F64 F]

/-- `value + 0.0`. -/
def plusZero (value : F) : F := F64.add value (F64.ofInt 0)

/-- `ORDER BY ts_us`. -/
def tsAsc (a b : BaseRow τ F) : Bool := decide (a.tsUs ≤ b.tsUs)

/-- `ORDER BY ts_us DESC`. -/
def tsDesc (a b : BaseRow τ F) : Bool := decide (b.tsUs ≤ a.tsUs)

/-- The increase from one value of a counter to the next; after a drop, the counter has restarted
from zero. -/
def resetAdjusted (prev value : F) : F :=
  if F64.totalLe prev value then F64.sub value prev else value

/-- The contribution of a row to the increase of its window: none for the first one. -/
def rowDelta (r : BaseRow τ F × Option (BaseRow τ F)) : F :=
  match r.2 with
  | none => F64.ofInt 0
  | some prev => resetAdjusted prev.value r.1.value

/-- A row of the `agg` stage of `rate` and `increase`. -/
structure WindowAgg (τ F : Type) where
  /-- The evaluation timestamp. -/
  at_ : τ
  /-- The series. -/
  seriesId : ℤ
  /-- The increase over the window, adjusted for resets. -/
  totalDelta : F
  /-- The last timestamp of the window. -/
  lastTsUs : ℤ
  /-- The first timestamp of the window. -/
  firstTsUs : ℤ
  /-- The number of samples in the window. -/
  n : ℕ

/-- The quotient of a value over microseconds by their number, per second. -/
def perSecond (delta : F) (us : ℤ) : F :=
  F64.div (F64.mul delta (F64.ofInt 1000000)) (F64.ofInt (asI64 us))

variable [DecidableEq τ]

/-- `adjusted`, then `agg`: the reset-adjusted increase of each window. -/
def windowAggs (E : Sql.Engine) (base : List (BaseRow τ F)) : List (WindowAgg τ F) :=
  (Sql.groupBy (fun r => r.1.partition) (E.lag BaseRow.partition tsAsc base)).map fun g =>
    let ts := g.2.map fun r => r.1.tsUs
    { at_ := g.1.1
      seriesId := g.1.2
      totalDelta := F64.sum (g.2.map rowDelta)
      -- a group has a row, so neither default is taken
      lastTsUs := ts.max?.getD 0
      firstTsUs := ts.min?.getD 0
      n := g.2.length }

/-- `per_series` of `rate` and `increase`: the windows with two samples and some extent. -/
def perSeriesOfAggs (value : WindowAgg τ F → F) (E : Sql.Engine) (base : List (BaseRow τ F)) :
    List (Point τ F) :=
  ((windowAggs E base).filter fun w => decide (2 ≤ w.n ∧ w.firstTsUs < w.lastTsUs)).map
    fun w => ⟨w.at_, w.seriesId, value w⟩

/-- A row of the `ranked` stage of `irate`. -/
structure IrateRow (τ F : Type) where
  /-- The sample. -/
  row : BaseRow τ F
  /-- The sample before it in its window. -/
  prev : Option (BaseRow τ F)
  /-- Its number from the end of its window. -/
  rnDesc : ℕ
  /-- The number of samples in its window. -/
  totalN : ℕ

/-- `ranked`, for `irate`. -/
def irateRanked (E : Sql.Engine) (base : List (BaseRow τ F)) : List (IrateRow τ F) :=
  let withPrev := E.lag BaseRow.partition tsAsc base
  let numbered := E.rowNumber (fun r => r.1.partition) (fun a b => tsDesc a.1 b.1) withPrev
  (Sql.overPartition (fun r => r.1.1.partition) numbered).map fun r =>
    ⟨r.1.1.1, r.1.1.2, r.1.2, r.2.length⟩

/-- `per_series` of `irate`: the last sample of each window with the one before it, when the
timestamps differ. -/
def perSeriesIrate (E : Sql.Engine) (base : List (BaseRow τ F)) : List (Point τ F) :=
  (irateRanked E base).filterMap fun r =>
    r.prev.bind fun prev =>
      if r.rnDesc = 1 ∧ 2 ≤ r.totalN ∧ prev.tsUs < r.row.tsUs then
        some ⟨r.row.at_, r.row.seriesId,
          perSecond (resetAdjusted prev.value r.row.value) (r.row.tsUs - prev.tsUs)⟩
      else none

/-- A row of the `ranked` stage of `delta`. -/
structure DeltaRow (τ F : Type) where
  /-- The sample. -/
  row : BaseRow τ F
  /-- Its number from the start of its window. -/
  rnAsc : ℕ
  /-- Its number from the end of its window. -/
  rnDesc : ℕ
  /-- The number of samples in its window. -/
  totalN : ℕ

/-- `ranked`, for `delta`. -/
def deltaRanked (E : Sql.Engine) (base : List (BaseRow τ F)) : List (DeltaRow τ F) :=
  let numberedAsc := E.rowNumber BaseRow.partition tsAsc base
  let numbered := E.rowNumber (fun r => r.1.partition) (fun a b => tsDesc a.1 b.1) numberedAsc
  (Sql.overPartition (fun r => r.1.1.partition) numbered).map fun r =>
    ⟨r.1.1.1, r.1.1.2, r.1.2, r.2.length⟩

/-- `per_series` of `delta`: the last value of each window less the first. -/
def perSeriesDelta (E : Sql.Engine) (base : List (BaseRow τ F)) : List (Point τ F) :=
  let ranked := deltaRanked E base
  let endpoints := ranked.filter fun r => decide (r.rnAsc = 1)
  let lastV := ranked.filter fun r => decide (r.rnDesc = 1)
  ((Sql.join (fun e l => decide (e.row.partition = l.row.partition)) endpoints lastV).filter
    fun r => decide (2 ≤ r.1.totalN)).map fun r =>
      ⟨r.1.row.at_, r.1.row.seriesId, F64.sub r.2.row.value r.1.row.value⟩

/-- The `per_series` table of a range function. -/
def perSeriesRangefn (E : Sql.Engine) (op : RangeFnOp) (base : List (BaseRow τ F)) :
    List (Point τ F) :=
  match op with
  | .rate => perSeriesOfAggs (fun w => perSecond w.totalDelta (w.lastTsUs - w.firstTsUs)) E base
  | .increase => perSeriesOfAggs WindowAgg.totalDelta E base
  | .irate => perSeriesIrate E base
  | .delta => perSeriesDelta E base

/-- **Where a value of a range function comes from**: a sample of its window. -/
theorem exists_base_of_mem_perSeries {E : Sql.Engine} {op : RangeFnOp} {base : List (BaseRow τ F)}
    {p : Point τ F} (h : p ∈ perSeriesRangefn E op base) :
    ∃ b ∈ base, b.at_ = p.at_ ∧ b.seriesId = p.seriesId := by
  have haggs : ∀ value : WindowAgg τ F → F, p ∈ perSeriesOfAggs value E base →
      ∃ b ∈ base, b.at_ = p.at_ ∧ b.seriesId = p.seriesId := by
    intro value h
    obtain ⟨w, hw, rfl⟩ := List.mem_map.mp h
    obtain ⟨g, hg, rfl⟩ := List.mem_map.mp (List.mem_of_mem_filter hw)
    obtain ⟨⟨r, hr, hkey⟩, -⟩ := Sql.mem_groupBy.mp hg
    exact ⟨r.1, E.mem_lag hr, congrArg Prod.fst hkey, congrArg Prod.snd hkey⟩
  cases op with
  | rate => exact haggs _ h
  | increase => exact haggs _ h
  | irate =>
    obtain ⟨r, hr, hp⟩ := List.mem_filterMap.mp h
    obtain ⟨x, hx, rfl⟩ := List.mem_map.mp hr
    obtain ⟨prev, -, hp⟩ := Option.bind_eq_some_iff.mp hp
    split_ifs at hp
    cases hp
    exact ⟨_, E.mem_lag (E.mem_rowNumber (Sql.mem_overPartition hx)), rfl, rfl⟩
  | delta =>
    obtain ⟨r, hr, rfl⟩ := List.mem_map.mp h
    have hfst := (Sql.mem_join.mp (List.mem_of_mem_filter hr)).1
    obtain ⟨x, hx, hrow⟩ := List.mem_map.mp (List.mem_of_mem_filter hfst)
    have hmem := E.mem_rowNumber (E.mem_rowNumber (Sql.mem_overPartition hx))
    exact ⟨_, hmem, congrArg (·.row.at_) hrow, congrArg (·.row.seriesId) hrow⟩

/-- **The values of a range function for some of the series** are those of their samples. -/
theorem perSeriesRangefn_filter (E : Sql.Engine) (op : RangeFnOp) (base : List (BaseRow τ F))
    (k : ℤ → Bool) :
    perSeriesRangefn E op (base.filter fun b => k b.seriesId) =
      (perSeriesRangefn E op base).filter fun x => k x.seriesId := by
  -- every window of these queries is partitioned by the evaluation timestamp and the series
  let Q : τ × ℤ → Bool := fun i => k i.2
  have hlag : E.lag BaseRow.partition tsAsc (base.filter fun b => k b.seriesId) =
      (E.lag BaseRow.partition tsAsc base).filter fun r => k r.1.seriesId :=
    E.lag_filter (Q := Q) fun _ _ => rfl
  have haggs : ∀ value : WindowAgg τ F → F,
      perSeriesOfAggs value E (base.filter fun b => k b.seriesId) =
        (perSeriesOfAggs value E base).filter fun x => k x.seriesId := by
    intro value
    rw [perSeriesOfAggs, windowAggs, hlag,
      Sql.groupBy_filter (q := fun r : BaseRow τ F × _ => k r.1.seriesId) (Q := Q) fun _ _ => rfl,
      perSeriesOfAggs, windowAggs]
    simp only [List.filter_map, List.filter_filter, Bool.and_comm]
    rfl
  cases op with
  | rate => exact haggs _
  | increase => exact haggs _
  | irate =>
    have hranked : irateRanked E (base.filter fun b => k b.seriesId) =
        (irateRanked E base).filter fun r => k r.row.seriesId := by
      rw [irateRanked, hlag,
        E.rowNumber_filter (q := fun r : BaseRow τ F × _ => k r.1.seriesId) (Q := Q) fun _ _ => rfl,
        Sql.overPartition_filter (q := fun r : (BaseRow τ F × _) × _ => k r.1.1.seriesId)
          (Q := Q) fun _ _ => rfl,
        irateRanked, List.filter_map]
      rfl
    rw [perSeriesRangefn, perSeriesIrate, hranked, List.filterMap_filter, perSeriesRangefn,
      perSeriesIrate, List.filter_filterMap]
    refine List.filterMap_congr fun r _ => ?_
    cases r.prev with
    | none => simp
    | some prev =>
      rw [Option.bind_some]
      split_ifs with hk hlast hlast <;> simp [Option.filter, *]
  | delta =>
    have hranked : deltaRanked E (base.filter fun b => k b.seriesId) =
        (deltaRanked E base).filter fun r => k r.row.seriesId := by
      rw [deltaRanked,
        E.rowNumber_filter (q := fun r : BaseRow τ F => k r.seriesId) (Q := Q) fun _ _ => rfl,
        E.rowNumber_filter (q := fun r : BaseRow τ F × _ => k r.1.seriesId) (Q := Q) fun _ _ => rfl,
        Sql.overPartition_filter (q := fun r : (BaseRow τ F × _) × _ => k r.1.1.seriesId)
          (Q := Q) fun _ _ => rfl,
        deltaRanked, List.filter_map]
      rfl
    have hpart : ∀ c : DeltaRow τ F → Bool,
        (deltaRanked E (base.filter fun b => k b.seriesId)).filter c =
          ((deltaRanked E base).filter c).filter fun r => k r.row.seriesId := by
      intro c
      rw [hranked, List.filter_comm]
    have hmatch : ∀ e ∈ (deltaRanked E base).filter fun r => decide (r.rnAsc = 1),
        ∀ l ∈ (deltaRanked E base).filter fun r => decide (r.rnDesc = 1),
          decide (e.row.partition = l.row.partition) = true →
            k e.row.seriesId = k l.row.seriesId :=
      fun _ _ _ _ hon => congrArg Q (of_decide_eq_true hon)
    have hjoin := Sql.join_filter_both _ (fun r : DeltaRow τ F => k r.row.seriesId)
      (fun r : DeltaRow τ F => k r.row.seriesId) hmatch
    simp only [perSeriesRangefn, perSeriesDelta, hpart]
    rw [hjoin, List.filter_comm, List.filter_map]
    rfl

end Stages

/-! ### The evaluation grid -/

/-- A request that is refused. -/
structure PromError where
  /-- The HTTP status. -/
  status : ℕ
  /-- The kind of error. -/
  errorType : String
  /-- What is wrong. -/
  message : String
  deriving DecidableEq

/-- `PromError::bad_data`. -/
def PromError.badData (message : String) : PromError := ⟨400, "bad_data", message⟩

/-- The most evaluation timestamps a matrix query may have. -/
def maxRangeEvals : ℕ := 11000

/-- The nearest value of an `i64`. -/
def saturate (n : ℤ) : ℤ := max (-9223372036854775808) (min 9223372036854775807 n)

/-- `i64::saturating_add`. -/
def saturatingAdd (a b : ℤ) : ℤ := saturate (a + b)

/-- `i64::saturating_sub`. -/
def saturatingSub (a b : ℤ) : ℤ := saturate (a - b)

/-- The loop that lists the evaluation timestamps, with room for some more of them; nothing when
it runs out of room. -/
def evalsFrom (endUs stepUs : ℤ) : ℕ → ℤ → Option (List ℤ)
  | 0, t => if t ≤ endUs then none else some []
  | room + 1, t =>
    if t ≤ endUs then (evalsFrom endUs stepUs room (saturatingAdd t stepUs)).map (t :: ·)
    else some []

/-- The evaluation timestamps of a matrix query over a range function, or its refusal. -/
def evalGrid (startUs endUs stepUs : ℤ) : Except PromError (List ℤ) :=
  match evalsFrom endUs stepUs maxRangeEvals startUs with
  | some evals => .ok evals
  | none => .error (.badData
      "range query produces > 11000 eval points; pick a larger step")

/-! ### Points of a selector -/

/-- `latest`: the value of the latest sample of each series in the lookback window. -/
def latestPoints (E : Sql.Engine) (t : Tables F) (sel : VectorSelector) (timeUs : ℤ) :
    List (Point Unit F) :=
  ((E.rowNumber (fun r => r.1.seriesId) (fun a b => decide (b.1.timestamp ≤ a.1.timestamp))
    (baseRows t sel (asI64 (timeUs - lookbackUs)) timeUs)).filter fun r => decide (r.2 = 1)).map
      fun r => ⟨(), r.1.1.seriesId, r.1.1.value⟩

/-- A base row as a point at the timestamp of its sample, with its series. -/
def basePoint (r : SampleRow F × Skaldberg.SeriesRow) : Point ℤ F × Skaldberg.SeriesRow :=
  (⟨r.1.timestamp, r.1.seriesId, r.1.value⟩, r.2)

/-- `samples_in_window`: every sample of the window. -/
def windowPoints (t : Tables F) (sel : VectorSelector) (startUs endUs : ℤ) : List (Point ℤ F) :=
  (baseRows t sel startUs endUs).map fun r => (basePoint r).1

/-- `(VALUES …) AS et(eval_us) JOIN samples sa ON …`: the samples in `(eval - range, eval]`, for
each evaluation timestamp. -/
def evalSamples (t : Tables F) (rangeUs : ℤ) (evals : List ℤ) : List (ℤ × SampleRow F) :=
  Sql.join (fun et sa => decide (asI64 (et - rangeUs) < sa.timestamp ∧ sa.timestamp ≤ et)) evals
    t.samples

variable [F64 F]

/-- The `base` stage of an instant range function: the samples in `[time - range, time]`. -/
def instantBase (t : Tables F) (sel : VectorSelector) (rangeUs timeUs : ℤ) :
    List (BaseRow Unit F) :=
  (baseRows t sel (asI64 (timeUs - rangeUs)) timeUs).map fun r =>
    ⟨(), r.1.seriesId, r.1.timestamp, plusZero r.1.value⟩

/-- `per_series_rangefn_ctes`. -/
def perSeriesRangefnCtes (E : Sql.Engine) (t : Tables F) (sel : VectorSelector) (op : RangeFnOp)
    (rangeUs timeUs : ℤ) : List (Point Unit F) :=
  perSeriesRangefn E op (instantBase t sel rangeUs timeUs)

/-- The `base` stage of a matrix range function. The window of the `WHERE` clause covers those of
all evaluation timestamps. -/
def rangeBase (t : Tables F) (sel : VectorSelector) (rangeUs : ℤ) (evals : List ℤ)
    (startUs endUs : ℤ) : List (BaseRow ℤ F) :=
  (Sql.select (fun r => selectorWhere sel (saturatingSub startUs rangeUs) endUs (r.1.2, r.2))
    (Sql.join (fun x s => x.2.seriesId == s.seriesId) (evalSamples t rangeUs evals) t.series)).map
      fun r => ⟨r.1.1, r.1.2.seriesId, r.1.2.timestamp, plusZero r.1.2.value⟩

/-- `per_series_rangefn_range_ctes`. -/
def perSeriesRangefnRangeCtes (E : Sql.Engine) (t : Tables F) (sel : VectorSelector)
    (op : RangeFnOp) (rangeUs : ℤ) (evals : List ℤ) (startUs endUs : ℤ) : List (Point ℤ F) :=
  perSeriesRangefn E op (rangeBase t sel rangeUs evals startUs endUs)

/-! ### Range functions of a selector -/

/-- `ORDER BY s.metric_name, at`, for the points of a matrix query. -/
def orderByNameTime (E : Sql.Engine) (rows : List (Point ℤ F × Skaldberg.SeriesRow)) :
    List (Point ℤ F × Skaldberg.SeriesRow) :=
  E.sort (fun a b => nameTimeLe (a.2.metricName, a.1.at_) (b.2.metricName, b.1.at_)) rows

/-- A point of a matrix query, with the columns of its series. -/
def pointRow (r : Point ℤ F × Skaldberg.SeriesRow) : SeriesRow F :=
  ⟨r.2.metricName, r.2.labels, r.1.at_, r.1.value⟩

/-- The rows of an instant query as points, through the filter of the program. -/
def decodeInstantRows (accept : Labels → Bool) (keep : F → Bool) (timeUs : ℤ)
    (rows : List (Point Unit F × Skaldberg.SeriesRow)) : List (InstantPoint F) :=
  (rows.filter fun r => accept r.2.labels && keep r.1.value).map fun r =>
    ⟨r.2.metricName, r.2.labels, timeUs, r.1.value⟩

/-- The rows of a matrix query as points, through the filter of the program. -/
def decodeRangeRows (accept : Labels → Bool) (keep : F → Bool)
    (rows : List (Point ℤ F × Skaldberg.SeriesRow)) : List (RangePoints F) :=
  (groupRowsBySeries ((rows.filter fun r => accept r.2.labels && keep r.1.value).map
    pointRow)).values

/-- `instant_range_fn_via_sql`: values that are not finite are dropped. -/
def instantRangeFnViaSql (E : Sql.Engine) (t : Tables F) (sel : VectorSelector)
    (rangeUs : ℤ) (op : RangeFnOp) (timeUs : ℤ) : List (InstantPoint F) :=
  decodeInstantRows sel.postFilter F64.isFinite timeUs
    (joinSeries t Point.seriesId (perSeriesRangefnCtes E t sel op rangeUs timeUs))

/-- `range_range_fn_via_sql`. -/
def rangeRangeFnViaSql (E : Sql.Engine) (t : Tables F) (sel : VectorSelector) (rangeUs : ℤ)
    (op : RangeFnOp) (startUs endUs stepUs : ℤ) : Except PromError (List (RangePoints F)) := do
  let evals ← evalGrid startUs endUs stepUs
  if evals.isEmpty then return []
  let points := perSeriesRangefnRangeCtes E t sel op rangeUs evals startUs endUs
  return decodeRangeRows sel.postFilter F64.isFinite
    (orderByNameTime E (joinSeries t Point.seriesId points))

/-! ### What the points can see of the tables

A point computed from the base rows of a selector belongs to a series that passes the conditions
of the query, and does not depend on the other series: in part of a dataset, the points are those
of that part. -/

section Locality

variable {sel : VectorSelector} {p : Skaldberg.SeriesRow → Bool}

omit [F64 F] in
theorem Dataset.hasSeries_of_mem_latestPoints {d : Dataset F} {E : Sql.Engine} {timeUs : ℤ}
    {x : Point Unit F} (h : x ∈ latestPoints E d.toTables sel timeUs) :
    d.HasSeries sel.pushed x.seriesId := by
  obtain ⟨r, hr, rfl⟩ := List.mem_map.mp h
  exact d.hasSeries_of_mem_baseRows (E.mem_rowNumber (List.mem_of_mem_filter hr))

omit [F64 F] in
theorem Dataset.hasSeries_of_mem_windowPoints {d : Dataset F} {startUs endUs : ℤ}
    {x : Point ℤ F} (h : x ∈ windowPoints d.toTables sel startUs endUs) :
    d.HasSeries sel.pushed x.seriesId := by
  obtain ⟨r, hr, rfl⟩ := List.mem_map.mp h
  exact d.hasSeries_of_mem_baseRows hr

theorem Dataset.hasSeries_of_mem_perSeriesRangefnCtes {d : Dataset F} {E : Sql.Engine}
    {op : RangeFnOp} {rangeUs timeUs : ℤ} {x : Point Unit F}
    (h : x ∈ perSeriesRangefnCtes E d.toTables sel op rangeUs timeUs) :
    d.HasSeries sel.pushed x.seriesId := by
  obtain ⟨b, hb, -, hid⟩ := exists_base_of_mem_perSeries h
  obtain ⟨r, hr, rfl⟩ := List.mem_map.mp hb
  exact hid ▸ d.hasSeries_of_mem_baseRows hr

theorem Dataset.hasSeries_of_mem_perSeriesRangefnRangeCtes {d : Dataset F} {E : Sql.Engine}
    {op : RangeFnOp} {rangeUs : ℤ} {evals : List ℤ} {startUs endUs : ℤ} {x : Point ℤ F}
    (h : x ∈ perSeriesRangefnRangeCtes E d.toTables sel op rangeUs evals startUs endUs) :
    d.HasSeries sel.pushed x.seriesId := by
  obtain ⟨b, hb, -, hid⟩ := exists_base_of_mem_perSeries h
  obtain ⟨r, hr, rfl⟩ := List.mem_map.mp hb
  obtain ⟨hjoin, hc⟩ := Sql.mem_select.mp hr
  obtain ⟨-, hs, hon⟩ := Sql.mem_join.mp hjoin
  rw [selectorWhere_holds, Bool.and_eq_true] at hc
  exact ⟨r.2, hs, (beq_iff_eq.mp hon).symm.trans hid, hc.1⟩

omit [F64 F] in
theorem Dataset.latestPoints_filter {d : Dataset F} {E : Sql.Engine} {timeUs : ℤ} :
    latestPoints E (d.restrict p).toTables sel timeUs =
      (latestPoints E d.toTables sel timeUs).filter fun x => d.keeps p x.seriesId := by
  rw [latestPoints, d.baseRows_filter, E.rowNumber_filter (Q := d.keeps p) fun _ _ => rfl,
    List.filter_comm, latestPoints, List.filter_map]
  rfl

omit [F64 F] in
theorem Dataset.windowPoints_filter {d : Dataset F} {startUs endUs : ℤ} :
    windowPoints (d.restrict p).toTables sel startUs endUs =
      (windowPoints d.toTables sel startUs endUs).filter fun x => d.keeps p x.seriesId := by
  rw [windowPoints, d.baseRows_filter, windowPoints, List.filter_map]
  rfl

theorem Dataset.perSeriesRangefnCtes_filter {d : Dataset F} {E : Sql.Engine} {op : RangeFnOp}
    {rangeUs timeUs : ℤ} :
    perSeriesRangefnCtes E (d.restrict p).toTables sel op rangeUs timeUs =
      (perSeriesRangefnCtes E d.toTables sel op rangeUs timeUs).filter fun x =>
        d.keeps p x.seriesId := by
  have hbase : instantBase (d.restrict p).toTables sel rangeUs timeUs =
      (instantBase d.toTables sel rangeUs timeUs).filter fun b => d.keeps p b.seriesId := by
    rw [instantBase, d.baseRows_filter, instantBase, List.filter_map]
    rfl
  rw [perSeriesRangefnCtes, hbase, perSeriesRangefn_filter, perSeriesRangefnCtes]

theorem Dataset.perSeriesRangefnRangeCtes_filter {d : Dataset F} {E : Sql.Engine}
    {op : RangeFnOp} {rangeUs : ℤ} {evals : List ℤ} {startUs endUs : ℤ} :
    perSeriesRangefnRangeCtes E (d.restrict p).toTables sel op rangeUs evals startUs endUs =
      (perSeriesRangefnRangeCtes E d.toTables sel op rangeUs evals startUs endUs).filter fun x =>
        d.keeps p x.seriesId := by
  have hevals : evalSamples (d.restrict p).toTables rangeUs evals =
      (evalSamples d.toTables rangeUs evals).filter fun r => d.keeps p r.2.seriesId :=
    Sql.join_filter_right
  have hbase : rangeBase (d.restrict p).toTables sel rangeUs evals startUs endUs =
      (rangeBase d.toTables sel rangeUs evals startUs endUs).filter fun b =>
        d.keeps p b.seriesId := by
    have hjoin := d.joinSeries_filter p (fun x => x.2.seriesId)
      (evalSamples d.toTables rangeUs evals)
    rw [joinSeries, joinSeries] at hjoin
    rw [rangeBase, hevals, hjoin, Sql.select, List.filter_comm, rangeBase, List.filter_map]
    rfl
  rw [perSeriesRangefnRangeCtes, hbase, perSeriesRangefn_filter, perSeriesRangefnRangeCtes]

omit [F64 F] in
/-- **What the program refuses may be left out of the query.** -/
theorem decodeInstantRows_filter {accept : Labels → Bool} {keep : F → Bool} {timeUs : ℤ}
    {rows : List (Point Unit F × Skaldberg.SeriesRow)} {k : ℤ → Bool}
    (haccept : ∀ r ∈ rows, accept r.2.labels = true → k r.1.seriesId = true) :
    decodeInstantRows accept keep timeUs (rows.filter fun r => k r.1.seriesId) =
      decodeInstantRows accept keep timeUs rows := by
  rw [decodeInstantRows, decodeInstantRows, List.filter_filter]
  refine congrArg _ (List.filter_congr fun r hr => ?_)
  have hk := haccept r hr
  grind

omit [F64 F] in
/-- **What the program refuses may be left out of a sorted query**, where the answer does not
depend on how the query orders rows of one series at one timestamp. -/
theorem decodeRangeRows_filter {E : Sql.Engine} {accept : Labels → Bool} {keep : F → Bool}
    {rows : List (Point ℤ F × Skaldberg.SeriesRow)} {k : ℤ → Bool}
    (haccept : ∀ r ∈ rows, accept r.2.labels = true → k r.1.seriesId = true)
    (hval : ∀ r ∈ rows, ∀ r' ∈ rows, accept r.2.labels = true → accept r'.2.labels = true →
      seriesKey r.2.metricName r.2.labels = seriesKey r'.2.metricName r'.2.labels →
      r.1.at_ = r'.1.at_ → pointRow r = pointRow r') :
    decodeRangeRows accept keep (orderByNameTime E (rows.filter fun r => k r.1.seriesId)) =
      decodeRangeRows accept keep (orderByNameTime E rows) := by
  let answer (rows : List (Point ℤ F × Skaldberg.SeriesRow)) : List (SeriesRow F) :=
    ((orderByNameTime E rows).filter fun r => accept r.2.labels && keep r.1.value).map pointRow
  have hsorted : ∀ rows, (answer rows).Pairwise fun a b =>
      nameTimeLe (a.metricName, a.tsUs) (b.metricName, b.tsUs) = true := by
    intro rows
    rw [List.pairwise_map]
    exact (E.sort_pairwise
      (fun a b => nameTimeLe (a.2.metricName, a.1.at_) (b.2.metricName, b.1.at_)) rows
      (fun _ _ => nameTimeLe_total _ _) fun _ _ _ => nameTimeLe_trans).filter _
  have hperm : (answer (rows.filter fun r => k r.1.seriesId)).Perm (answer rows) := by
    refine ((((E.sort_perm _ _).filter _).trans ?_).trans
      ((E.sort_perm _ rows).filter _).symm).map _
    rw [List.filter_filter]
    refine List.Perm.of_eq (List.filter_congr fun r hr => ?_)
    have := haccept r hr
    grind
  refine congrArg SortedMap.values
    (groupRowsBySeries_eq_of_perm hperm.symm (hsorted _) (hsorted _) ?_).symm
  intro a ha b hb
  obtain ⟨r, hr, rfl⟩ := List.mem_map.mp ha
  obtain ⟨r', hr', rfl⟩ := List.mem_map.mp hb
  simp only [List.mem_filter, orderByNameTime, Sql.Engine.mem_sort, Bool.and_eq_true] at hr hr'
  exact hval r hr.1 r' hr'.1 hr.2.1 hr'.2.1

end Locality

end Skaldberg.Prometheus
