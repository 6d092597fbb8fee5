import Skaldberg.Prometheus.PushedShape

/-!
# What a matcher keeps out

A series that a matcher refuses should have no influence on an answer: two datasets that agree on
the series a selector is for (`Skaldberg.Prometheus.Agree`) should give the same result. A query
that does more than select leaves regular expressions, and all but one matcher on the metric name,
out of its conditions. A cut applies the expressions afterwards, to what it has kept; an
aggregation and a quantile never do. So `sum(up{job=~"a"})` adds up the jobs that are not `a` too
(`pushed_matcher_interferes`).

What is true is that the answer depends on the series the matchers accept alone where the data
leave the query no choice (`PushedShape.SeparatedInstant`, `PushedShape.SeparatedRange`): every
series that an aggregation groups satisfies the matchers; so does every bucket of a quantile;
and the regular expressions accept or refuse whole groups of a cut. A matrix cut also
sorts what it keeps before it filters it, so there no accepted series may have two values at one
timestamp, whose order is the engine's, unless none is refused.

The proof compares a dataset with the part of it that the matchers accept: the points of that
part are those of its series, and under the conditions above nothing else reaches the answer.
-/

namespace Skaldberg.Prometheus

variable {F τ : Type} [F64 F]

/-- Two datasets agree on the series that pass a test: these are the same, with the same
samples. -/
def Agree (p : Skaldberg.SeriesRow → Bool) (d d' : Dataset F) : Prop :=
  (d.restrict p).toTables = (d'.restrict p).toTables

/-- What satisfies every matcher passes the filter of the program. -/
theorem postFilter_of_matches {sel : VectorSelector} {s : Skaldberg.SeriesRow}
    (h : sel.matches s = true) : sel.postFilter s.labels = true := by
  rw [VectorSelector.matches, Bool.and_eq_true, List.all_eq_true] at h
  rw [VectorSelector.postFilter, List.all_eq_true]
  intro m hm
  have hmem := List.mem_filter.mp (List.mem_of_mem_filter hm)
  have haccept := h.2 m hmem.1
  rwa [Matcher.matchesSeries, if_neg (by simpa using hmem.2)] at haccept

/-! ### The points of part of a dataset -/

theorem Pushdown.instantPoints_filter {d : Dataset F} {p : Skaldberg.SeriesRow → Bool}
    {E : Sql.Engine} {timeUs : ℤ} {inner : Pushdown} :
    inner.instantPoints E (d.restrict p).toTables timeUs =
      (inner.instantPoints E d.toTables timeUs).filter fun x => d.keeps p x.seriesId := by
  cases inner with
  | selector sel => exact d.latestPoints_filter
  | rangeFn sel rangeUs op => exact d.perSeriesRangefnCtes_filter

theorem Pushdown.rangePoints_filter {d : Dataset F} {p : Skaldberg.SeriesRow → Bool}
    {E : Sql.Engine} {startUs endUs : ℤ} {evals : List ℤ} {inner : Pushdown} :
    inner.rangePoints E (d.restrict p).toTables startUs endUs evals =
      (inner.rangePoints E d.toTables startUs endUs evals).filter fun x =>
        d.keeps p x.seriesId := by
  cases inner with
  | selector sel => exact d.windowPoints_filter
  | rangeFn sel rangeUs op => exact d.perSeriesRangefnRangeCtes_filter

theorem Pushdown.rangeRows_filter {d : Dataset F} {p : Skaldberg.SeriesRow → Bool}
    {E : Sql.Engine} {startUs endUs : ℤ} {evals : List ℤ} {inner : Pushdown} :
    inner.rangeRows E (d.restrict p).toTables startUs endUs evals =
      (inner.rangeRows E d.toTables startUs endUs evals).filter fun r =>
        d.keeps p r.1.seriesId := by
  cases inner with
  | selector sel =>
    rw [Pushdown.rangeRows, d.baseRows_filter, Pushdown.rangeRows, List.filter_map]
    rfl
  | rangeFn sel rangeUs op =>
    rw [Pushdown.rangeRows, d.perSeriesRangefnRangeCtes_filter, d.joinSeries_filter]
    rfl

/-- What a matrix cut ranks are the points with their series. -/
theorem Pushdown.mem_rangeRows {d : Dataset F} {E : Sql.Engine} {startUs endUs : ℤ}
    {evals : List ℤ} {inner : Pushdown} {r : Point ℤ F × Skaldberg.SeriesRow}
    (h : r ∈ inner.rangeRows E d.toTables startUs endUs evals) :
    r ∈ joinSeries d.toTables Point.seriesId
      (inner.rangePoints E d.toTables startUs endUs evals) := by
  cases inner with
  | selector sel =>
    obtain ⟨x, hx, rfl⟩ := List.mem_map.mp h
    obtain ⟨⟨-, hs, hid⟩, -⟩ := mem_baseRows.mp hx
    exact Sql.mem_join.mpr ⟨List.mem_map_of_mem hx, hs, beq_iff_eq.mpr hid⟩
  | rangeFn sel rangeUs op => exact h

/-! ### Where the data leave no choice -/

section Conditions

variable (E : Sql.Engine) (d : Dataset F) (sel : VectorSelector) (modifier : Option LabelModifier)
  (sids : List ℤ) (points : List (Point τ F))

/-- Every series that is grouped satisfies the matchers. -/
def GroupsMatch : Prop :=
  ∀ g ∈ groupedPoints E d.toTables modifier sids points, sel.matches g.series = true

/-- Every grouped series that the program accepts satisfies the matchers, and the program accepts
or refuses the series of one group together. -/
structure CutsMatch : Prop where
  /-- What is accepted satisfies the matchers. -/
  accepted : ∀ g ∈ groupedPoints E d.toTables modifier sids points,
    sel.postFilter g.series.labels = true → sel.matches g.series = true
  /-- A group is accepted or refused as a whole. -/
  whole : ∀ g ∈ groupedPoints E d.toTables modifier sids points,
    ∀ g' ∈ groupedPoints E d.toTables modifier sids points,
      g.point.at_ = g'.point.at_ → g.group = g'.group →
        sel.postFilter g.series.labels = sel.postFilter g'.series.labels

/-- Every bucket satisfies the matchers. -/
def BucketsMatch : Prop :=
  ∀ r ∈ joinSeries d.toTables Point.seriesId points,
    ((elementAt r.2.labels "le").bind (castLe (F := F))).isSome = true → sel.matches r.2 = true

/-- The order of the points of an accepted series is that of their timestamps: it has no two
values at one timestamp, or nothing is refused. -/
def OrderSettled (points : List (Point ℤ F)) : Prop :=
  (∀ g ∈ groupedPoints E d.toTables modifier sids points,
    sel.postFilter g.series.labels = true) ∨
  ∀ g ∈ groupedPoints E d.toTables modifier sids points,
    ∀ g' ∈ groupedPoints E d.toTables modifier sids points,
      sel.postFilter g.series.labels = true → sel.postFilter g'.series.labels = true →
      seriesKey g.series.metricName g.series.labels =
        seriesKey g'.series.metricName g'.series.labels →
      g.point.at_ = g'.point.at_ → pointRow (g.point, g.series) = pointRow (g'.point, g'.series)

end Conditions

/-- The condition on a dataset under which the answer at one timestamp depends on the series that
satisfy the matchers alone. -/
def PushedShape.SeparatedInstant (E : Sql.Engine) (d : Dataset F) (timeUs : ℤ) :
    PushedShape F → Prop
  | .aggregate _ modifier inner =>
    let points := inner.instantPoints E d.toTables timeUs
    GroupsMatch E d inner.sel modifier (points.map Point.seriesId) points
  | .topK n _ modifier inner =>
    let points := inner.instantPoints E d.toTables timeUs
    n = 0 ∨ CutsMatch E d inner.sel modifier (points.map Point.seriesId) points
  | .quantile _ sel rangeUs fnOp =>
    BucketsMatch d sel (perSeriesRangefnCtes E d.toTables sel fnOp rangeUs timeUs)

/-- The condition on a dataset under which the answer over a range depends on the series that
satisfy the matchers alone. -/
def PushedShape.SeparatedRange (E : Sql.Engine) (d : Dataset F) (startUs endUs stepUs : ℤ) :
    PushedShape F → Prop
  | .aggregate _ modifier inner =>
    ∀ evals, inner.Grid startUs endUs stepUs evals →
      let points := inner.rangePoints E d.toTables startUs endUs evals
      GroupsMatch E d inner.sel modifier (points.map Point.seriesId).dedup points
  | .topK n _ modifier inner =>
    n = 0 ∨ ∀ evals, inner.Grid startUs endUs stepUs evals →
      let points := inner.rangePoints E d.toTables startUs endUs evals
      CutsMatch E d inner.sel modifier (points.map Point.seriesId).dedup points ∧
        OrderSettled E d inner.sel modifier (points.map Point.seriesId).dedup points
  | .quantile _ sel rangeUs fnOp =>
    ∀ evals, evalGrid startUs endUs stepUs = .ok evals →
      BucketsMatch d sel (perSeriesRangefnRangeCtes E d.toTables sel fnOp rangeUs evals
        startUs endUs)

/-! ### The answer of the accepted part -/

section Restrict

variable {E : Sql.Engine} {d : Dataset F} {sel : VectorSelector} {modifier : Option LabelModifier}
  {sids : List ℤ} {points : List (Point τ F)}

/-- On what is grouped, the matchers say what the filter of the program says. -/
theorem CutsMatch.matches_eq (h : CutsMatch E d sel modifier sids points) {g : GroupedPoint τ F}
    (hg : g ∈ groupedPoints E d.toTables modifier sids points) :
    sel.matches g.series = sel.postFilter g.series.labels := by
  rw [Bool.eq_iff_iff]
  exact ⟨postFilter_of_matches, h.accepted g hg⟩

theorem CutsMatch.whole_matches (h : CutsMatch E d sel modifier sids points) :
    ∀ g ∈ groupedPoints E d.toTables modifier sids points,
      ∀ g' ∈ groupedPoints E d.toTables modifier sids points,
        g.point.at_ = g'.point.at_ → g.group = g'.group →
          sel.matches g.series = sel.matches g'.series := by
  intro g hg g' hg' hat hgroup
  rw [h.matches_eq hg, h.matches_eq hg', h.whole g hg g' hg' hat hgroup]

/-- What is accepted of a cut is of the part that satisfies the matchers. -/
theorem CutsMatch.keeps [DecidableEq τ] (h : CutsMatch E d sel modifier sids points)
    {rows : List (Point τ F × Skaldberg.SeriesRow)}
    (hrows : ∀ r ∈ rows, r ∈ joinSeries d.toTables Point.seriesId points) {n : ℕ} {top : Bool} :
    ∀ r ∈ topkOf E d.toTables n top modifier sids points rows,
      sel.postFilter r.2.labels = true → d.keeps sel.matches r.1.seriesId = true := by
  intro r hr haccept
  obtain ⟨g, hg, hpoint, hseries⟩ := mem_topkOf hrows hr
  rw [← hpoint, keeps_of_mem_groupedPoints hg, h.matches_eq hg, hseries]
  exact haccept

/-- A matrix cut that has ranked the accepted part alone answers what it answers. -/
theorem CutsMatch.decodeRangeRows_filter {points : List (Point ℤ F)}
    (h : CutsMatch E d sel modifier sids points) {rows : List (Point ℤ F × Skaldberg.SeriesRow)}
    (hrows : ∀ r ∈ rows, r ∈ joinSeries d.toTables Point.seriesId points)
    (horder : OrderSettled E d sel modifier sids points) {n : ℕ} {top : Bool} {keep : F → Bool} :
    decodeRangeRows sel.postFilter keep (orderByNameTime E
        ((topkOf E d.toTables n top modifier sids points rows).filter fun r =>
          d.keeps sel.matches r.1.seriesId)) =
      decodeRangeRows sel.postFilter keep (orderByNameTime E
        (topkOf E d.toTables n top modifier sids points rows)) := by
  rcases horder with hall | hval
  · have hself : ∀ r ∈ topkOf E d.toTables n top modifier sids points rows,
        d.keeps sel.matches r.1.seriesId = true := by
      intro r hr
      obtain ⟨g, hg, -, hseries⟩ := mem_topkOf hrows hr
      exact h.keeps hrows r hr (hseries ▸ hall g hg)
    rw [List.filter_eq_self.mpr hself]
  · refine Prometheus.decodeRangeRows_filter (h.keeps hrows) fun r hr r' hr' ha ha' hkey hat => ?_
    obtain ⟨g, hg, hpoint, hseries⟩ := mem_topkOf hrows hr
    obtain ⟨g', hg', hpoint', hseries'⟩ := mem_topkOf hrows hr'
    obtain rfl : (g.point, g.series) = r := Prod.ext hpoint hseries
    obtain rfl : (g'.point, g'.series) = r' := Prod.ext hpoint' hseries'
    exact hval g hg g' hg' ha ha' hkey hat

/-- **The answer at one timestamp is that of the accepted part.** -/
theorem PushedShape.evalInstant_restrict {shape : PushedShape F} {timeUs : ℤ}
    (h : shape.SeparatedInstant E d timeUs) :
    shape.evalInstant E (d.restrict shape.sel.matches).toTables timeUs =
      shape.evalInstant E d.toTables timeUs := by
  cases shape with
  | aggregate op modifier inner =>
    simp only [PushedShape.evalInstant, PushedShape.sel, Pushdown.instantPoints_filter]
    exact instantAggregateOf_filter h _ _ _
  | topK n top modifier inner =>
    simp only [PushedShape.evalInstant, PushedShape.sel, Pushdown.instantPoints_filter]
    rcases h with hn | h
    · simp only [hn, if_true]
    · have hrows : ∀ r ∈ joinSeries d.toTables Point.seriesId
          (inner.instantPoints E d.toTables timeUs), r ∈ joinSeries d.toTables Point.seriesId
            (inner.instantPoints E d.toTables timeUs) := fun _ hr => hr
      have hsids : ((inner.instantPoints E d.toTables timeUs).filter fun x =>
          d.keeps inner.sel.matches x.seriesId).map Point.seriesId =
            ((inner.instantPoints E d.toTables timeUs).map Point.seriesId).filter
              (d.keeps inner.sel.matches) := by
        rw [List.filter_map]
        rfl
      rw [hsids, d.joinSeries_filter, topkOf_filter hrows h.whole_matches,
        decodeInstantRows_filter (h.keeps hrows)]
  | quantile q sel rangeUs fnOp =>
    have hbuckets : ∀ b ∈ filteredBuckets d.toTables
        (perSeriesRangefnCtes E d.toTables sel fnOp rangeUs timeUs),
          d.keeps sel.matches b.seriesId = true := by
      intro b hb
      obtain ⟨r, hr, hid, hbound⟩ := mem_filteredBuckets hb
      rw [← hid, keeps_of_mem_joinSeries hr]
      exact h r hr hbound
    simp only [PushedShape.evalInstant, PushedShape.sel, instantHistogramQuantileViaSql,
      d.perSeriesRangefnCtes_filter, histogramQuantileOf_filter hbuckets]

/-- **The answer over a range is that of the accepted part.** -/
theorem PushedShape.evalRange_restrict {shape : PushedShape F} {startUs endUs stepUs : ℤ}
    (h : shape.SeparatedRange E d startUs endUs stepUs) :
    shape.evalRange E (d.restrict shape.sel.matches).toTables startUs endUs stepUs =
      shape.evalRange E d.toTables startUs endUs stepUs := by
  cases shape with
  | aggregate op modifier inner =>
    rw [PushedShape.evalRange, PushedShape.evalRange]
    refine Pushdown.overGrid_congr fun evals hevals => ?_
    simp only [PushedShape.sel, Pushdown.rangePoints_filter]
    exact rangeAggregateOf_filter (h evals hevals) _ _
  | topK n top modifier inner =>
    rw [PushedShape.evalRange, PushedShape.evalRange]
    rcases h with hn | h
    · simp only [hn, if_true]
    · refine congrArg (fun answer => if n = 0 then .ok [] else answer)
        (Pushdown.overGrid_congr fun evals hevals => ?_)
      obtain ⟨hcuts, horder⟩ := h evals hevals
      have hrows : ∀ r ∈ inner.rangeRows E d.toTables startUs endUs evals,
          r ∈ joinSeries d.toTables Point.seriesId
            (inner.rangePoints E d.toTables startUs endUs evals) := fun _ =>
        Pushdown.mem_rangeRows
      have hsids : (((inner.rangePoints E d.toTables startUs endUs evals).filter fun x =>
          d.keeps inner.sel.matches x.seriesId).map Point.seriesId).dedup =
            ((inner.rangePoints E d.toTables startUs endUs evals).map
              Point.seriesId).dedup.filter (d.keeps inner.sel.matches) := by
        rw [← Sql.dedup_filter, List.filter_map]
        rfl
      simp only [PushedShape.sel, Pushdown.rangePoints_filter, Pushdown.rangeRows_filter]
      rw [hsids, topkOf_filter hrows hcuts.whole_matches]
      exact hcuts.decodeRangeRows_filter hrows horder
  | quantile q sel rangeUs fnOp =>
    have hbuckets : ∀ evals, evalGrid startUs endUs stepUs = .ok evals →
        ∀ b ∈ filteredBuckets d.toTables
          (perSeriesRangefnRangeCtes E d.toTables sel fnOp rangeUs evals startUs endUs),
            d.keeps sel.matches b.seriesId = true := by
      intro evals hevals b hb
      obtain ⟨r, hr, hid, hbound⟩ := mem_filteredBuckets hb
      rw [← hid, keeps_of_mem_joinSeries hr]
      exact h evals hevals r hr hbound
    rw [PushedShape.evalRange, PushedShape.evalRange, rangeHistogramQuantileViaSql_eq,
      rangeHistogramQuantileViaSql_eq]
    refine Pushdown.overGrid_congr fun evals hgrid => ?_
    rw [PushedShape.sel, d.perSeriesRangefnRangeCtes_filter,
      histogramQuantileOf_filter (hbuckets evals hgrid)]

end Restrict

/-! ### Non-interference -/

/-- **Where the data leave the query no choice, a series that a matcher refuses does not influence
the answer**: an expression that is answered by one query has the same result, at one timestamp
and over a range, on any two datasets that agree on the series that satisfy the matchers. -/
theorem evaluate_eq_of_agree {e : Expr F} {shape : PushedShape F}
    (he : pushedShape e = some shape) (E : Sql.Engine) {d d' : Dataset F}
    (hagree : Agree shape.sel.matches d d') :
    (∀ timeUs, shape.SeparatedInstant E d timeUs → shape.SeparatedInstant E d' timeUs →
      evaluateInstant E d.toTables timeUs e = evaluateInstant E d'.toTables timeUs e) ∧
    ∀ startUs endUs stepUs, shape.SeparatedRange E d startUs endUs stepUs →
      shape.SeparatedRange E d' startUs endUs stepUs →
        evaluateRange E d.toTables startUs endUs stepUs e =
          evaluateRange E d'.toTables startUs endUs stepUs e := by
  rw [Agree] at hagree
  constructor
  · intro timeUs h h'
    rw [evaluateInstant_of_pushedShape he, evaluateInstant_of_pushedShape he,
      ← shape.evalInstant_restrict h, ← shape.evalInstant_restrict h', hagree]
  · intro startUs endUs stepUs h h'
    rw [evaluateRange_of_pushedShape he, evaluateRange_of_pushedShape he,
      ← shape.evalRange_restrict h, ← shape.evalRange_restrict h', hagree]

/-! ### The sum of the jobs -/

/-- The series `up{job="a"}` and `up{job="b"}`. -/
def upSeries : List Skaldberg.SeriesRow :=
  [⟨1, "up", SortedMap.empty.insert "job" "a"⟩, ⟨2, "up", SortedMap.empty.insert "job" "b"⟩]

/-- These series, with some samples. -/
def upDataset (samples : List (SampleRow Whole)) : Dataset Whole where
  samples := samples
  series := upSeries
  functional := by decide +kernel

/-- `up{job=~"a"}`. -/
def upSelector : VectorSelector := ⟨some "up", [⟨.re (· == "a"), "job", "a"⟩]⟩

/-- `sum(up{job=~"a"})`. -/
def sumOfUp : Expr Whole := .aggregate .sum (.vectorSelector upSelector) none none

theorem pushedShape_sumOfUp :
    pushedShape sumOfUp = some (.aggregate .sum none (.selector upSelector)) := rfl

/-- Samples of `up{job="a"}` alone decide whether two of these datasets agree. -/
theorem agree_upDataset {samples samples' : List (SampleRow Whole)}
    (h : (restrict upSelector.matches (upDataset samples).toTables).samples =
      (restrict upSelector.matches (upDataset samples').toTables).samples) :
    Agree upSelector.matches (upDataset samples) (upDataset samples') :=
  congrArg (Tables.mk · _) h

/-- A sample of the job `b` that is too old for the window does not matter. -/
theorem evaluate_eq_of_agree_sumOfUp :
    evaluateInstant Sql.Engine.stable (upDataset [⟨1, 0, .num 1⟩]).toTables 0 sumOfUp =
      evaluateInstant Sql.Engine.stable
        (upDataset [⟨1, 0, .num 1⟩, ⟨2, -1000000000, .num 2⟩]).toTables 0 sumOfUp := by
  refine (evaluate_eq_of_agree pushedShape_sumOfUp Sql.Engine.stable
    (agree_upDataset (by decide +kernel))).1 0 ?_ ?_
  · change ∀ g ∈ _, _
    decide +kernel
  · change ∀ g ∈ _, _
    decide +kernel

/-- **A series that a matcher refuses is added up**: `sum(up{job=~"a"})` is 1 without a sample of
`up{job="b"}`, and 3 with one. -/
theorem pushed_matcher_interferes :
    ∃ (e : Expr Whole) (shape : PushedShape Whole) (d d' : Dataset Whole),
      pushedShape e = some shape ∧ Agree shape.sel.matches d d' ∧
        evaluateInstant Sql.Engine.stable d.toTables 0 e ≠
          evaluateInstant Sql.Engine.stable d'.toTables 0 e := by
  refine ⟨sumOfUp, _, upDataset [⟨1, 0, .num 1⟩], upDataset [⟨1, 0, .num 1⟩, ⟨2, 0, .num 2⟩],
    pushedShape_sumOfUp, agree_upDataset (by decide +kernel), ?_⟩
  rw [evaluateInstant_of_pushedShape pushedShape_sumOfUp,
    evaluateInstant_of_pushedShape pushedShape_sumOfUp]
  decide +kernel

end Skaldberg.Prometheus
