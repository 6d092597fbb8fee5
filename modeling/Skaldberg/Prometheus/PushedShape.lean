import Skaldberg.Prometheus.Evaluate

/-!
# Expressions answered by one query

The expressions whose evaluation is a single query, `Skaldberg.Prometheus.PushedShape`: an
aggregation or a cut of a selector or of a range function, and a quantile of a range function.
The evaluators pick one of many near-identical functions for them, by the kind of answer, by what
stands inside and by the modifier; here they are five (`PushedShape.evalInstant`,
`PushedShape.evalRange`), over a table of points, and `evaluateInstant_of_pushedShape` and
`evaluateRange_of_pushedShape` say that these are what the evaluators compute.

What such a query aggregates or ranks is a table of points with their series and their group
(`groupedPoints`). The rest of the module says what becomes of the answer in part of a dataset:
an aggregation is unchanged when every grouped series is in that part
(`instantAggregateOf_filter`, `rangeAggregateOf_filter`), a cut is cut to that part when it
consists of whole groups (`topkOf_filter`).
-/

namespace Skaldberg.Prometheus

variable {F τ : Type} [F64 F]

/-! ### Shapes -/

/-- An expression that is answered by one query: an aggregation or a cut of what can be pushed
down, or a quantile of a range function. -/
inductive PushedShape (F : Type)
  /-- `agg(…)`. -/
  | aggregate (op : AggOp) (modifier : Option LabelModifier) (inner : Pushdown)
  /-- `topk(n, …)`, `bottomk(n, …)`. -/
  | topK (n : ℕ) (top : Bool) (modifier : Option LabelModifier) (inner : Pushdown)
  /-- `histogram_quantile(q, fn(sel[range]))`. -/
  | quantile (q : F) (sel : VectorSelector) (rangeUs : ℤ) (fnOp : RangeFnOp)

/-- The query that answers an expression, where a single one does. -/
def pushedShape (e : Expr F) : Option (PushedShape F) :=
  match detectQueryKind e with
  | some (.aggregate op modifier inner) =>
    (pushdown modifier inner).map (.aggregate op modifier)
  | some (.topK n top modifier inner) => (pushdown modifier inner).map (.topK n top modifier)
  | some (.histogramQuantile q inner) =>
    (quantilePushdown q inner).map fun x => .quantile q x.1 x.2.1 x.2.2
  | _ => none

/-- The selector that is pushed down. -/
def Pushdown.sel : Pushdown → VectorSelector
  | .selector sel => sel
  | .rangeFn sel _ _ => sel

/-- The selector of the query. -/
def PushedShape.sel : PushedShape F → VectorSelector
  | .aggregate _ _ inner => inner.sel
  | .topK _ _ _ inner => inner.sel
  | .quantile _ sel _ _ => sel

/-- The values that are kept: all of those of a selector, the finite ones of a range function. -/
def Pushdown.keep : Pushdown → F → Bool
  | .selector _ => fun _ => true
  | .rangeFn _ _ _ => F64.isFinite

/-- The points at one timestamp of what is pushed down. -/
def Pushdown.instantPoints (E : Sql.Engine) (t : Tables F) (timeUs : ℤ) :
    Pushdown → List (Point Unit F)
  | .selector sel => latestPoints E t sel timeUs
  | .rangeFn sel rangeUs op => perSeriesRangefnCtes E t sel op rangeUs timeUs

/-- The points over a range of what is pushed down; only a range function has evaluation
timestamps. -/
def Pushdown.rangePoints (E : Sql.Engine) (t : Tables F) (startUs endUs : ℤ) (evals : List ℤ) :
    Pushdown → List (Point ℤ F)
  | .selector sel => windowPoints t sel startUs endUs
  | .rangeFn sel rangeUs op => perSeriesRangefnRangeCtes E t sel op rangeUs evals startUs endUs

/-- The points over a range with their series, as a cut ranks them. -/
def Pushdown.rangeRows (E : Sql.Engine) (t : Tables F) (startUs endUs : ℤ) (evals : List ℤ) :
    Pushdown → List (Point ℤ F × Skaldberg.SeriesRow)
  | .selector sel => (baseRows t sel startUs endUs).map basePoint
  | .rangeFn sel rangeUs op =>
    joinSeries t Point.seriesId (perSeriesRangefnRangeCtes E t sel op rangeUs evals startUs endUs)

/-- The answer over the evaluation timestamps, where there are any to choose. -/
def Pushdown.overGrid (startUs endUs stepUs : ℤ) (answer : List ℤ → List (RangePoints F)) :
    Pushdown → Except PromError (List (RangePoints F))
  | .selector _ => .ok (answer [])
  | .rangeFn _ _ _ => do
    let evals ← evalGrid startUs endUs stepUs
    if evals.isEmpty then return []
    return answer evals

/-- The evaluation timestamps of a query: none for a selector, the grid for a range function. -/
def Pushdown.Grid (startUs endUs stepUs : ℤ) (evals : List ℤ) : Pushdown → Prop
  | .selector _ => evals = []
  | .rangeFn _ _ _ => evalGrid startUs endUs stepUs = .ok evals

omit [F64 F] in
/-- **An answer over a grid is that at its timestamps.** -/
theorem Pushdown.overGrid_congr {startUs endUs stepUs : ℤ}
    {answer answer' : List ℤ → List (RangePoints F)} {inner : Pushdown}
    (h : ∀ evals, inner.Grid startUs endUs stepUs evals → answer evals = answer' evals) :
    inner.overGrid startUs endUs stepUs answer = inner.overGrid startUs endUs stepUs answer' := by
  cases inner with
  | selector sel => exact congrArg Except.ok (h [] rfl)
  | rangeFn sel rangeUs op =>
    simp only [Pushdown.overGrid]
    cases hgrid : evalGrid startUs endUs stepUs with
    | error err => rfl
    | ok evals =>
      have hevals : answer evals = answer' evals := h evals hgrid
      change (if evals.isEmpty = true then (pure [] : Except PromError _)
        else pure (answer evals)) =
        if evals.isEmpty = true then pure [] else pure (answer' evals)
      rw [hevals]

/-! ### The answers -/

/-- An aggregation of points at one timestamp. -/
def instantAggregateOf (E : Sql.Engine) (t : Tables F) (keep : F → Bool) (op : AggOp)
    (modifier : Option LabelModifier) (timeUs : ℤ) (points : List (Point Unit F)) :
    List (InstantPoint F) :=
  match modifierExcludedKeys modifier with
  | some excluded => instantAggregateWithout E t keep op excluded timeUs points
  | none => instantAggregateBy t keep op modifier timeUs points

/-- An aggregation of points over a range. -/
def rangeAggregateOf (E : Sql.Engine) (t : Tables F) (keep : F → Bool) (op : AggOp)
    (modifier : Option LabelModifier) (points : List (Point ℤ F)) : List (RangePoints F) :=
  match modifierExcludedKeys modifier with
  | some excluded => rangeAggregateWithout E t keep op excluded points
  | none => rangeAggregateBy E t keep op modifier points

/-- The points that a cut keeps, before the filter of the program. -/
def topkOf [DecidableEq τ] (E : Sql.Engine) (t : Tables F) (n : ℕ) (top : Bool)
    (modifier : Option LabelModifier) (sids : List ℤ) (points : List (Point τ F))
    (rows : List (Point τ F × Skaldberg.SeriesRow)) : List (Point τ F × Skaldberg.SeriesRow) :=
  match modifierExcludedKeys modifier with
  | some excluded => topkWithout E t n top excluded sids points
  | none => topkBy E t n top (aggregateGroupKeys modifier) rows

/-- The answer at one timestamp. -/
def PushedShape.evalInstant (E : Sql.Engine) (t : Tables F) (timeUs : ℤ) :
    PushedShape F → List (InstantPoint F)
  | .aggregate op modifier inner =>
    instantAggregateOf E t inner.keep op modifier timeUs (inner.instantPoints E t timeUs)
  | .topK n top modifier inner =>
    let points := inner.instantPoints E t timeUs
    if n = 0 then []
    else
      decodeInstantRows inner.sel.postFilter inner.keep timeUs
        (topkOf E t n top modifier (points.map Point.seriesId) points
          (joinSeries t Point.seriesId points))
  | .quantile q sel rangeUs fnOp =>
    instantHistogramQuantileViaSql E t sel rangeUs fnOp q timeUs

/-- The answer over a range. -/
def PushedShape.evalRange (E : Sql.Engine) (t : Tables F) (startUs endUs stepUs : ℤ) :
    PushedShape F → Except PromError (List (RangePoints F))
  | .aggregate op modifier inner =>
    inner.overGrid startUs endUs stepUs fun evals =>
      rangeAggregateOf E t inner.keep op modifier (inner.rangePoints E t startUs endUs evals)
  | .topK n top modifier inner =>
    if n = 0 then .ok []
    else
      inner.overGrid startUs endUs stepUs fun evals =>
        let points := inner.rangePoints E t startUs endUs evals
        decodeRangeRows inner.sel.postFilter inner.keep (orderByNameTime E
          (topkOf E t n top modifier (points.map Point.seriesId).dedup points
            (inner.rangeRows E t startUs endUs evals)))
  | .quantile q sel rangeUs fnOp =>
    rangeHistogramQuantileViaSql E t sel rangeUs fnOp q startUs endUs stepUs

/-- A quantile over a range is an answer over a grid, too. -/
theorem rangeHistogramQuantileViaSql_eq (E : Sql.Engine) (t : Tables F) (sel : VectorSelector)
    (rangeUs : ℤ) (fnOp : RangeFnOp) (q : F) (startUs endUs stepUs : ℤ) :
    rangeHistogramQuantileViaSql E t sel rangeUs fnOp q startUs endUs stepUs =
      (Pushdown.rangeFn sel rangeUs fnOp).overGrid startUs endUs stepUs fun evals =>
        decodeRange F64.isFinite (orderByTime E (histogramQuantileOf E t q
          (perSeriesRangefnRangeCtes E t sel fnOp rangeUs evals startUs endUs))) := rfl

/-- **The instant evaluator answers such an expression by its query.** -/
theorem evaluateInstant_of_pushedShape {e : Expr F} {shape : PushedShape F}
    (h : pushedShape e = some shape) (E : Sql.Engine) (t : Tables F) (timeUs : ℤ) :
    evaluateInstant E t timeUs e = .ok (shape.evalInstant E t timeUs) := by
  rw [pushedShape] at h
  split at h
  · rename_i op modifier inner hkind
    obtain ⟨x, hx, rfl⟩ := Option.map_eq_some_iff.mp h
    rw [evaluateInstant_aggregate hkind, hx]
    cases x <;> rfl
  · rename_i n top modifier inner hkind
    obtain ⟨x, hx, rfl⟩ := Option.map_eq_some_iff.mp h
    rw [evaluateInstant_topK hkind, hx]
    rcases modifier with _ | _ | _ <;> cases x <;> rfl
  · rename_i q inner hkind
    obtain ⟨⟨sel, rangeUs, fnOp⟩, hx, rfl⟩ := Option.map_eq_some_iff.mp h
    rw [evaluateInstant_histogramQuantile hkind, hx]
    rfl
  · cases h

/-- **The matrix evaluator answers such an expression by its query.** -/
theorem evaluateRange_of_pushedShape {e : Expr F} {shape : PushedShape F}
    (h : pushedShape e = some shape) (E : Sql.Engine) (t : Tables F) (startUs endUs stepUs : ℤ) :
    evaluateRange E t startUs endUs stepUs e = shape.evalRange E t startUs endUs stepUs := by
  rw [pushedShape] at h
  split at h
  · rename_i op modifier inner hkind
    obtain ⟨x, hx, rfl⟩ := Option.map_eq_some_iff.mp h
    rw [evaluateRange_aggregate hkind, hx]
    rcases modifier with _ | _ | _ <;> cases x <;> rfl
  · rename_i n top modifier inner hkind
    obtain ⟨x, hx, rfl⟩ := Option.map_eq_some_iff.mp h
    rw [evaluateRange_topK hkind, hx]
    -- the cut of a selector tests its number inside the answer, that of a range function around it
    cases x with
    | selector sel =>
      rcases modifier with _ | _ | _ <;> exact apply_ite Except.ok (n = 0) _ _
    | rangeFn sel rangeUs fnOp => rcases modifier with _ | _ | _ <;> rfl
  · rename_i q inner hkind
    obtain ⟨⟨sel, rangeUs, fnOp⟩, hx, rfl⟩ := Option.map_eq_some_iff.mp h
    rw [evaluateRange_histogramQuantile hkind, hx]
    rfl
  · cases h

/-! ### What is grouped -/

/-- A point with its series and the group that the query puts it in. -/
structure GroupedPoint (τ F : Type) where
  /-- The point. -/
  point : Point τ F
  /-- Its series. -/
  series : Skaldberg.SeriesRow
  /-- The group: the columns of the labels of a `by`, or the text of a `without`. -/
  group : List (Option String) ⊕ String

/-- The points that a query groups: with a modifier `without`, those of series that have a
text. -/
def groupedPoints (E : Sql.Engine) (t : Tables F) (modifier : Option LabelModifier)
    (sids : List ℤ) (points : List (Point τ F)) : List (GroupedPoint τ F) :=
  match modifierExcludedKeys modifier with
  | some excluded =>
    (joinSeries t (fun r => r.1.seriesId) (joinGk E t excluded sids points)).map fun r =>
      ⟨r.1.1, r.2, .inr r.1.2⟩
  | none =>
    (joinSeries t Point.seriesId points).map fun r =>
      ⟨r.1, r.2, .inl (labelColumns (aggregateGroupKeys modifier) r.2)⟩

section Part

variable {d : Dataset F} {p : Skaldberg.SeriesRow → Bool} {E : Sql.Engine}
  {modifier : Option LabelModifier} {sids : List ℤ}

theorem mem_groupedPoints_of_joinGk {excluded : List String} {points : List (Point τ F)}
    (hmod : modifierExcludedKeys modifier = some excluded) {r : Point τ F × String}
    (hr : r ∈ joinGk E d.toTables excluded sids points) {s : Skaldberg.SeriesRow}
    (hs : s ∈ d.series) (hid : s.seriesId = r.1.seriesId) :
    ⟨r.1, s, .inr r.2⟩ ∈ groupedPoints E d.toTables modifier sids points := by
  rw [groupedPoints, hmod]
  exact List.mem_map.mpr ⟨(r, s), Sql.mem_join.mpr ⟨hr, hs, beq_iff_eq.mpr hid.symm⟩, rfl⟩

theorem mem_groupedPoints_of_joinSeries {points : List (Point τ F)}
    (hmod : modifierExcludedKeys modifier = none) {r : Point τ F × Skaldberg.SeriesRow}
    (hr : r ∈ joinSeries d.toTables Point.seriesId points) :
    ⟨r.1, r.2, .inl (labelColumns (aggregateGroupKeys modifier) r.2)⟩ ∈
      groupedPoints E d.toTables modifier sids points := by
  rw [groupedPoints, hmod]
  exact List.mem_map.mpr ⟨r, hr, rfl⟩

theorem keeps_of_mem_groupedPoints {points : List (Point τ F)} {g : GroupedPoint τ F}
    (hg : g ∈ groupedPoints E d.toTables modifier sids points) :
    d.keeps p g.point.seriesId = p g.series := by
  rw [groupedPoints] at hg
  cases hmod : modifierExcludedKeys modifier with
  | none =>
    simp only [hmod] at hg
    obtain ⟨r, hr, rfl⟩ := List.mem_map.mp hg
    exact keeps_of_mem_joinSeries hr
  | some excluded =>
    simp only [hmod] at hg
    obtain ⟨r, hr, rfl⟩ := List.mem_map.mp hg
    exact keeps_of_mem_joinSeries hr

/-- Where every grouped series is in a part, every point with a text is of that part. -/
theorem keeps_of_mem_joinGk {excluded : List String} {points : List (Point τ F)}
    (hmod : modifierExcludedKeys modifier = some excluded)
    (h : ∀ g ∈ groupedPoints E d.toTables modifier sids points, p g.series = true) :
    ∀ r ∈ joinGk E d.toTables excluded sids points, d.keeps p r.1.seriesId = true := by
  intro r hr
  obtain ⟨s, hs, hid⟩ := exists_series_of_mem_joinGk hr
  rw [← hid, d.keeps_of_mem hs]
  exact h _ (mem_groupedPoints_of_joinGk hmod hr hs hid)

/-- **An aggregation looks only at the series that are grouped.** -/
theorem instantAggregateOf_filter {points : List (Point Unit F)}
    (h : ∀ g ∈ groupedPoints E d.toTables modifier (points.map Point.seriesId) points,
      p g.series = true) (keep : F → Bool) (op : AggOp) (timeUs : ℤ) :
    instantAggregateOf E (d.restrict p).toTables keep op modifier timeUs
        (points.filter fun x => d.keeps p x.seriesId) =
      instantAggregateOf E d.toTables keep op modifier timeUs points := by
  rw [instantAggregateOf, instantAggregateOf]
  cases hmod : modifierExcludedKeys modifier with
  | none =>
    have hrows : ∀ r ∈ joinSeries d.toTables Point.seriesId points, p r.2 = true :=
      fun r hr => h _ (mem_groupedPoints_of_joinSeries hmod hr)
    simp only [instantAggregateBy, aggregateBy_filter hrows]
  | some excluded =>
    have hsids : (points.filter fun x => d.keeps p x.seriesId).map Point.seriesId =
        (points.map Point.seriesId).filter (d.keeps p) := by
      rw [List.filter_map]
      rfl
    simp only [instantAggregateWithout, hsids,
      aggregateWithout_filter (keeps_of_mem_joinGk hmod h)]

/-- The same over a range. -/
theorem rangeAggregateOf_filter {points : List (Point ℤ F)}
    (h : ∀ g ∈ groupedPoints E d.toTables modifier (points.map Point.seriesId).dedup points,
      p g.series = true) (keep : F → Bool) (op : AggOp) :
    rangeAggregateOf E (d.restrict p).toTables keep op modifier
        (points.filter fun x => d.keeps p x.seriesId) =
      rangeAggregateOf E d.toTables keep op modifier points := by
  rw [rangeAggregateOf, rangeAggregateOf]
  cases hmod : modifierExcludedKeys modifier with
  | none =>
    have hrows : ∀ r ∈ joinSeries d.toTables Point.seriesId points, p r.2 = true :=
      fun r hr => h _ (mem_groupedPoints_of_joinSeries hmod hr)
    simp only [rangeAggregateBy, aggregateByTime_filter hrows]
  | some excluded =>
    have hsids : ((points.filter fun x => d.keeps p x.seriesId).map Point.seriesId).dedup =
        (points.map Point.seriesId).dedup.filter (d.keeps p) := by
      rw [← Sql.dedup_filter, List.filter_map]
      rfl
    simp only [rangeAggregateWithout, hsids,
      aggregateWithout_filter (keeps_of_mem_joinGk hmod h)]

variable [DecidableEq τ] {points : List (Point τ F)}
  {rows : List (Point τ F × Skaldberg.SeriesRow)}

/-- **A cut keeps grouped points.** -/
theorem mem_topkOf (hrows : ∀ r ∈ rows, r ∈ joinSeries d.toTables Point.seriesId points) {n : ℕ}
    {top : Bool} {r : Point τ F × Skaldberg.SeriesRow}
    (h : r ∈ topkOf E d.toTables n top modifier sids points rows) :
    ∃ g ∈ groupedPoints E d.toTables modifier sids points, g.point = r.1 ∧ g.series = r.2 := by
  rw [topkOf] at h
  cases hmod : modifierExcludedKeys modifier with
  | none =>
    simp only [hmod] at h
    obtain ⟨hranked, hs, hid⟩ := mem_keepTop h
    obtain ⟨x, hx, hxr⟩ := hranked
    obtain ⟨y, hy, hyx⟩ := mem_rankPoints hx
    have hpoint := (Sql.mem_join.mp (hrows y hy)).1
    have hmem : r ∈ joinSeries d.toTables Point.seriesId points :=
      Sql.mem_join.mpr ⟨hxr ▸ hyx ▸ hpoint, hs, beq_iff_eq.mpr hid⟩
    exact ⟨_, mem_groupedPoints_of_joinSeries hmod hmem, rfl, rfl⟩
  | some excluded =>
    simp only [hmod] at h
    obtain ⟨hranked, hs, hid⟩ := mem_keepTop h
    obtain ⟨x, hx, hxr⟩ := hranked
    obtain ⟨y, hy, hyx⟩ := mem_rankPoints hx
    have hpoint : y.1 = r.1 := hyx.trans hxr
    exact ⟨_, mem_groupedPoints_of_joinGk hmod hy hs (hpoint ▸ hid.symm), hpoint, rfl⟩

/-- **A cut of whole groups is the cut of these groups.** -/
theorem topkOf_filter (hrows : ∀ r ∈ rows, r ∈ joinSeries d.toTables Point.seriesId points)
    (h : ∀ g ∈ groupedPoints E d.toTables modifier sids points,
      ∀ g' ∈ groupedPoints E d.toTables modifier sids points,
        g.point.at_ = g'.point.at_ → g.group = g'.group → p g.series = p g'.series)
    (n : ℕ) (top : Bool) :
    topkOf E (d.restrict p).toTables n top modifier (sids.filter (d.keeps p))
        (points.filter fun x => d.keeps p x.seriesId)
        (rows.filter fun r => d.keeps p r.1.seriesId) =
      (topkOf E d.toTables n top modifier sids points rows).filter fun r =>
        d.keeps p r.1.seriesId := by
  rw [topkOf, topkOf]
  cases hmod : modifierExcludedKeys modifier with
  | none =>
    refine topkBy_filter (fun r hr r' hr' hat hgroup => ?_) E n top
    rw [keeps_of_mem_joinSeries (hrows r hr), keeps_of_mem_joinSeries (hrows r' hr')]
    exact h _ (mem_groupedPoints_of_joinSeries hmod (hrows r hr)) _
      (mem_groupedPoints_of_joinSeries hmod (hrows r' hr')) hat (congrArg Sum.inl hgroup)
  | some excluded =>
    refine topkWithout_filter (fun r hr r' hr' hat htext => ?_) n top
    obtain ⟨s, hs, hid⟩ := exists_series_of_mem_joinGk hr
    obtain ⟨s', hs', hid'⟩ := exists_series_of_mem_joinGk hr'
    rw [← hid, ← hid', d.keeps_of_mem hs, d.keeps_of_mem hs']
    exact h _ (mem_groupedPoints_of_joinGk hmod hr hs hid) _
      (mem_groupedPoints_of_joinGk hmod hr' hs' hid') hat (congrArg Sum.inr htext)

end Part

end Skaldberg.Prometheus
