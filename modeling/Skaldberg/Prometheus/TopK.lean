import Skaldberg.Prometheus.Aggregate

/-!
# topk and bottomk

The `n` largest or smallest series of each group. Unlike an aggregation this is a filter: the
surviving series keep their name and all their labels. In a query the points are numbered within
their group in the order of their values and the first `n` kept (`rankPoints`, `keepTop`), and
only then does the program apply the matchers that were left to it: a series that one of these
refuses has been counted among the `n`.

As for aggregations, the stages are written once over a table of points with what groups them,
and look at the tables only through the series of the points (`topkBy_filter`,
`topkWithout_filter`).
-/

namespace Skaldberg.Prometheus

variable {F τ β : Type} [F64 F]

/-! ### In the program -/

/-- The comparison of the sort: the values that are not comparable count as equal. -/
def rustOrder (top : Bool) (a b : F) : Bool := if top then !F64.lt a b else !F64.lt b a

/-- `sort_by`, which keeps the order of equal elements. -/
def sortByValue {α : Type} (top : Bool) (value : α → F) (l : List α) : List α :=
  l.insertionSort fun a b => rustOrder top (value a) (value b) = true

/-- `topk_instant_points`. -/
def topkInstantPoints (inner : List (InstantPoint F)) (n : ℕ) (top : Bool)
    (modifier : Option LabelModifier) : List (InstantPoint F) :=
  if n = 0 then []
  else
    let groups : SortedMap Labels (List (InstantPoint F)) :=
      inner.foldl (fun m p => m.push (retainedLabels p.labels modifier) p) .empty
    groups.values.flatMap fun members => (sortByValue top InstantPoint.value members).take n

/-- The rows of the `n` best members of a group at each of its timestamps. -/
def topkOfGroup (n : ℕ) (top : Bool) (members : List (RangePoints F)) : List (SeriesRow F) :=
  let byTs := members.map fun m => (m, SortedMap.ofList m.points)
  let allTs : SortedMap ℤ Unit :=
    SortedMap.ofList (members.flatMap fun m => m.points.map fun p => (p.1, ()))
  allTs.keys.flatMap fun ts =>
    let atTs := byTs.filterMap fun m => (m.2.get? ts).map fun v => (m.1, v)
    ((sortByValue top Prod.snd atTs).take n).map fun e => ⟨e.1.metricName, e.1.labels, ts, e.2⟩

/-- `topk_range_points`. -/
def topkRangePoints (inner : List (RangePoints F)) (n : ℕ) (top : Bool)
    (modifier : Option LabelModifier) : List (RangePoints F) :=
  if n = 0 then []
  else
    let groups : SortedMap Labels (List (RangePoints F)) :=
      inner.foldl (fun m s => m.push (retainedLabels s.labels modifier) s) .empty
    (groupRowsBySeries (groups.values.flatMap fun members => topkOfGroup n top members)).values

/-! ### In a query -/

/-- `ORDER BY value DESC` for topk, `ASC` for bottomk. -/
def orderDir (top : Bool) (a b : F) : Bool := if top then F64.totalLe b a else F64.totalLe a b

/-- `ranked`: the points with their number within their timestamp and group. -/
def rankPoints {κ : Type} [DecidableEq τ] [DecidableEq κ] (E : Sql.Engine) (top : Bool)
    (group : β → κ) (rows : List (Point τ F × β)) : List (Point τ F × ℕ) :=
  (E.rowNumber (fun r => (r.1.at_, group r.2)) (fun a b => orderDir top a.1.value b.1.value)
    rows).map fun r => (r.1.1, r.2)

/-- `SELECT … FROM ranked rk JOIN series s ON … WHERE rk.rnk <= n`. -/
def keepTop (t : Tables F) (n : ℕ) (ranked : List (Point τ F × ℕ)) :
    List (Point τ F × Skaldberg.SeriesRow) :=
  ((joinSeries t (fun r => r.1.seriesId) ranked).filter fun r => decide (r.1.2 ≤ n)).map
    fun r => (r.1.1, r.2)

/-- The best points of each group of label columns. -/
def topkBy [DecidableEq τ] (E : Sql.Engine) (t : Tables F) (n : ℕ) (top : Bool)
    (keys : List String) (rows : List (Point τ F × Skaldberg.SeriesRow)) :
    List (Point τ F × Skaldberg.SeriesRow) :=
  keepTop t n (rankPoints E top (labelColumns keys) rows)

/-- The best points of each group of a text. -/
def topkWithout [DecidableEq τ] (E : Sql.Engine) (t : Tables F) (n : ℕ) (top : Bool)
    (excluded : List String) (sids : List ℤ) (points : List (Point τ F)) :
    List (Point τ F × Skaldberg.SeriesRow) :=
  keepTop t n (rankPoints E top id (joinGk E t excluded sids points))

/-! ### The evaluators -/

/-- `instant_topk_without_via_sql`. -/
def instantTopkWithoutViaSql (E : Sql.Engine) (t : Tables F) (sel : VectorSelector) (n : ℕ)
    (top : Bool) (excluded : List String) (timeUs : ℤ) : List (InstantPoint F) :=
  let points := latestPoints E t sel timeUs
  decodeInstantRows sel.postFilter (fun _ => true) timeUs
    (topkWithout E t n top excluded (points.map Point.seriesId) points)

/-- `instant_topk_via_sql`. -/
def instantTopkViaSql (E : Sql.Engine) (t : Tables F) (sel : VectorSelector) (n : ℕ) (top : Bool)
    (modifier : Option LabelModifier) (timeUs : ℤ) : List (InstantPoint F) :=
  if n = 0 then []
  else
    match modifierExcludedKeys modifier with
    | some excluded => instantTopkWithoutViaSql E t sel n top excluded timeUs
    | none =>
      decodeInstantRows sel.postFilter (fun _ => true) timeUs
        (topkBy E t n top (aggregateGroupKeys modifier)
          (joinSeries t Point.seriesId (latestPoints E t sel timeUs)))

/-- `instant_topk_over_rangefn_without_via_sql`. -/
def instantTopkOverRangefnWithoutViaSql (E : Sql.Engine) (t : Tables F) (sel : VectorSelector)
    (rangeUs : ℤ) (fnOp : RangeFnOp) (n : ℕ) (top : Bool) (excluded : List String) (timeUs : ℤ) :
    List (InstantPoint F) :=
  let points := perSeriesRangefnCtes E t sel fnOp rangeUs timeUs
  decodeInstantRows sel.postFilter F64.isFinite timeUs
    (topkWithout E t n top excluded (points.map Point.seriesId) points)

/-- `instant_topk_over_rangefn_via_sql`: values that are not finite are dropped, after the cut. -/
def instantTopkOverRangefnViaSql (E : Sql.Engine) (t : Tables F) (sel : VectorSelector)
    (rangeUs : ℤ) (fnOp : RangeFnOp) (n : ℕ) (top : Bool) (modifier : Option LabelModifier)
    (timeUs : ℤ) : List (InstantPoint F) :=
  if n = 0 then []
  else
    match modifierExcludedKeys modifier with
    | some excluded =>
      instantTopkOverRangefnWithoutViaSql E t sel rangeUs fnOp n top excluded timeUs
    | none =>
      decodeInstantRows sel.postFilter F64.isFinite timeUs
        (topkBy E t n top (aggregateGroupKeys modifier)
          (joinSeries t Point.seriesId (perSeriesRangefnCtes E t sel fnOp rangeUs timeUs)))

/-- `range_topk_without_via_sql`. -/
def rangeTopkWithoutViaSql (E : Sql.Engine) (t : Tables F) (sel : VectorSelector) (n : ℕ)
    (top : Bool) (excluded : List String) (startUs endUs : ℤ) : List (RangePoints F) :=
  let points := windowPoints t sel startUs endUs
  decodeRangeRows sel.postFilter (fun _ => true) (orderByNameTime E
    (topkWithout E t n top excluded (points.map Point.seriesId).dedup points))

/-- `range_topk_via_sql`. The samples of the window are ranked where they are joined with their
series. -/
def rangeTopkViaSql (E : Sql.Engine) (t : Tables F) (sel : VectorSelector) (n : ℕ) (top : Bool)
    (modifier : Option LabelModifier) (startUs endUs : ℤ) : List (RangePoints F) :=
  if n = 0 then []
  else
    match modifierExcludedKeys modifier with
    | some excluded => rangeTopkWithoutViaSql E t sel n top excluded startUs endUs
    | none =>
      decodeRangeRows sel.postFilter (fun _ => true) (orderByNameTime E
        (topkBy E t n top (aggregateGroupKeys modifier)
          ((baseRows t sel startUs endUs).map basePoint)))

/-- `range_topk_over_rangefn_without_via_sql`. -/
def rangeTopkOverRangefnWithoutViaSql (E : Sql.Engine) (t : Tables F) (sel : VectorSelector)
    (rangeUs : ℤ) (fnOp : RangeFnOp) (n : ℕ) (top : Bool) (excluded : List String)
    (startUs endUs stepUs : ℤ) : Except PromError (List (RangePoints F)) := do
  let evals ← evalGrid startUs endUs stepUs
  if evals.isEmpty then return []
  let points := perSeriesRangefnRangeCtes E t sel fnOp rangeUs evals startUs endUs
  return decodeRangeRows sel.postFilter F64.isFinite (orderByNameTime E
    (topkWithout E t n top excluded (points.map Point.seriesId).dedup points))

/-- `range_topk_over_rangefn_via_sql`. -/
def rangeTopkOverRangefnViaSql (E : Sql.Engine) (t : Tables F) (sel : VectorSelector)
    (rangeUs : ℤ) (fnOp : RangeFnOp) (n : ℕ) (top : Bool) (modifier : Option LabelModifier)
    (startUs endUs stepUs : ℤ) : Except PromError (List (RangePoints F)) :=
  if n = 0 then .ok []
  else
    match modifierExcludedKeys modifier with
    | some excluded =>
      rangeTopkOverRangefnWithoutViaSql E t sel rangeUs fnOp n top excluded startUs endUs stepUs
    | none => do
      let evals ← evalGrid startUs endUs stepUs
      if evals.isEmpty then return []
      let points := perSeriesRangefnRangeCtes E t sel fnOp rangeUs evals startUs endUs
      return decodeRangeRows sel.postFilter F64.isFinite (orderByNameTime E
        (topkBy E t n top (aggregateGroupKeys modifier) (joinSeries t Point.seriesId points)))

/-! ### What a cut can see of the tables -/

section Locality

variable [DecidableEq τ] {d : Dataset F} {p : Skaldberg.SeriesRow → Bool}

theorem mem_rankPoints {κ : Type} [DecidableEq κ] {E : Sql.Engine} {top : Bool} {group : β → κ}
    {rows : List (Point τ F × β)} {r : Point τ F × ℕ} (h : r ∈ rankPoints E top group rows) :
    ∃ x ∈ rows, x.1 = r.1 := by
  obtain ⟨x, hx, rfl⟩ := List.mem_map.mp h
  exact ⟨x.1, E.mem_rowNumber hx, rfl⟩

omit [F64 F] [DecidableEq τ] in
/-- A row that is kept is a ranked point with its series. -/
theorem mem_keepTop {t : Tables F} {n : ℕ} {ranked : List (Point τ F × ℕ)}
    {r : Point τ F × Skaldberg.SeriesRow} (h : r ∈ keepTop t n ranked) :
    (∃ x ∈ ranked, x.1 = r.1) ∧ r.2 ∈ t.series ∧ r.1.seriesId = r.2.seriesId := by
  obtain ⟨x, hx, rfl⟩ := List.mem_map.mp h
  obtain ⟨hranked, hs, hon⟩ := Sql.mem_join.mp (List.mem_of_mem_filter hx)
  exact ⟨⟨x.1, hranked, rfl⟩, hs, beq_iff_eq.mp hon⟩

/-- **A rank is a matter of its group**: leaving whole groups out changes no other rank. -/
theorem rankPoints_filter {κ : Type} [DecidableEq κ] {group : β → κ}
    {rows : List (Point τ F × β)} {k : ℤ → Bool}
    (h : ∀ r ∈ rows, ∀ r' ∈ rows, r.1.at_ = r'.1.at_ → group r.2 = group r'.2 →
      k r.1.seriesId = k r'.1.seriesId) (E : Sql.Engine) (top : Bool) :
    rankPoints E top group (rows.filter fun r => k r.1.seriesId) =
      (rankPoints E top group rows).filter fun r => k r.1.seriesId := by
  obtain ⟨Q, hQ⟩ := Sql.exists_test_of_key (fun r : Point τ F × β => (r.1.at_, group r.2))
    (fun r => k r.1.seriesId) fun r hr r' hr' hkey =>
      h r hr r' hr' (congrArg Prod.fst hkey) (congrArg Prod.snd hkey)
  rw [rankPoints, E.rowNumber_filter hQ, rankPoints, List.filter_map]
  rfl

omit [F64 F] [DecidableEq τ] in
theorem keepTop_filter (n : ℕ) (ranked : List (Point τ F × ℕ)) :
    keepTop (d.restrict p).toTables n (ranked.filter fun r => d.keeps p r.1.seriesId) =
      (keepTop d.toTables n ranked).filter fun r => d.keeps p r.1.seriesId := by
  have hjoin := d.joinSeries_filter p (fun r => r.1.seriesId) ranked
  rw [keepTop, hjoin, List.filter_comm, keepTop, List.filter_map]
  rfl

/-- **Leaving out whole groups of label columns** leaves the cuts of the others. -/
theorem topkBy_filter {keys : List String} {rows : List (Point τ F × Skaldberg.SeriesRow)}
    (h : ∀ r ∈ rows, ∀ r' ∈ rows, r.1.at_ = r'.1.at_ →
      labelColumns keys r.2 = labelColumns keys r'.2 →
        d.keeps p r.1.seriesId = d.keeps p r'.1.seriesId) (E : Sql.Engine) (n : ℕ) (top : Bool) :
    topkBy E (d.restrict p).toTables n top keys (rows.filter fun r => d.keeps p r.1.seriesId) =
      (topkBy E d.toTables n top keys rows).filter fun r => d.keeps p r.1.seriesId := by
  rw [topkBy, rankPoints_filter h, keepTop_filter, topkBy]

/-- **Leaving out whole groups of a text** leaves the cuts of the others. -/
theorem topkWithout_filter {E : Sql.Engine} {excluded : List String} {sids : List ℤ}
    {points : List (Point τ F)}
    (h : ∀ r ∈ joinGk E d.toTables excluded sids points,
      ∀ r' ∈ joinGk E d.toTables excluded sids points, r.1.at_ = r'.1.at_ → r.2 = r'.2 →
        d.keeps p r.1.seriesId = d.keeps p r'.1.seriesId) (n : ℕ) (top : Bool) :
    topkWithout E (d.restrict p).toTables n top excluded (sids.filter (d.keeps p))
        (points.filter fun x => d.keeps p x.seriesId) =
      (topkWithout E d.toTables n top excluded sids points).filter fun r =>
        d.keeps p r.1.seriesId := by
  rw [topkWithout, joinGk_filter, rankPoints_filter h, keepTop_filter, topkWithout]

end Locality

end Skaldberg.Prometheus
