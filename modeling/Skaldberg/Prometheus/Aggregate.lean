import Mathlib.Order.WithBot
import Skaldberg.Prometheus.RangeFn

/-!
# Aggregations

`sum`, `avg`, `min`, `max` and `count` over the groups of a modifier. In the program the groups
are keyed by the labels that the modifier retains (`Skaldberg.Prometheus.retainedLabels`). In a
query they cannot be: `by (…)` groups by the columns of its labels, which may be missing, and
`without (…)`, which does not know the labels in advance, by a text that a series spells its
other labels into (`gk`), from which the labels of the group are recovered through one of its
series (`aggregateWithout`).

The queries of an aggregation differ in where their points come from and in whether a value that
is not finite is dropped, which only those over a range function do. The stages are written once
over a table of points; each of the evaluators is an instance under its own name.

Every stage looks at the tables only through the series its points belong to, so an aggregation
of points of a selector is the same over the tables with only these series
(`aggregateBy_filter`, `aggregateWithout_filter`).
-/

namespace Skaldberg.Prometheus

variable {F τ : Type}

/-! ### In the program -/

/-- `retained_labels`: the labels of the group of a series. -/
def retainedLabels (labels : Labels) : Option LabelModifier → Labels
  | some (.includes ls) => labels.filter fun k _ => ls.contains k
  | some (.excludes ls) => labels.filter fun k _ => !ls.contains k
  | none => .empty

section Program

variable [F64 F]

/-- `apply_agg`. -/
def applyAgg (op : AggOp) (values : List F) : F :=
  match op with
  | .sum => F64.sum values
  | .avg =>
    if values.isEmpty then F64.ofInt 0
    else F64.div (F64.sum values) (F64.ofInt values.length)
  | .min => values.foldl F64.fmin F64.inf
  | .max => values.foldl F64.fmax F64.negInf
  | .count => F64.ofInt values.length

/-- `aggregate_instant_points`. -/
def aggregateInstantPoints (inner : List (InstantPoint F)) (op : AggOp)
    (modifier : Option LabelModifier) (timeUs : ℤ) : List (InstantPoint F) :=
  let groups : SortedMap Labels (List F) :=
    inner.foldl (fun m p => m.push (retainedLabels p.labels modifier) p.value) .empty
  groups.entries.map fun g => ⟨"", g.1, timeUs, applyAgg op g.2⟩

/-- The values of a group's series at each timestamp. -/
def alignByTs (members : List (RangePoints F)) : SortedMap ℤ (List F) :=
  members.foldl (fun m s => s.points.foldl (fun m p => m.push p.1 p.2) m) .empty

/-- `aggregate_range_points`. -/
def aggregateRangePoints (inner : List (RangePoints F)) (op : AggOp)
    (modifier : Option LabelModifier) : List (RangePoints F) :=
  let groups : SortedMap Labels (List (RangePoints F)) :=
    inner.foldl (fun m s => m.push (retainedLabels s.labels modifier) s) .empty
  (groups.entries.map fun g =>
    (⟨"", g.1, (alignByTs g.2).entries.map fun e => (e.1, applyAgg op e.2)⟩ : RangePoints F)).filter
      fun s => !s.points.isEmpty

end Program

/-! ### In a query -/

/-- `modifier_excluded_keys`. -/
def modifierExcludedKeys : Option LabelModifier → Option (List String)
  | some (.excludes ls) => some ls
  | _ => none

/-- `aggregate_group_keys`. -/
def aggregateGroupKeys : Option LabelModifier → List String
  | some (.includes ls) => ls
  | _ => []

/-- `aggregate_can_push_down`: every modifier can. -/
def aggregateCanPushDown : Option LabelModifier → Bool
  | none => true
  | some (.includes _) => true
  | some (.excludes _) => true

/-- The columns of the labels of a `by`. -/
def labelColumns (keys : List String) (s : Skaldberg.SeriesRow) : List (Option String) :=
  keys.map (elementAt s.labels)

/-- The labels of a row of a `by`, those that are not missing. -/
def decodeLabels (keys : List String) (cols : List (Option String)) : Labels :=
  (keys.zip cols).foldl (fun m e => match e.2 with
    | some v => m.insert e.1 v
    | none => m) .empty

/-- `ORDER BY` of the label columns, missing ones last, and then of the timestamp. -/
def columnsTimeLe (a b : ℤ × List (Option String)) : Bool :=
  let cols (c : List (Option String)) : List (WithTop String) := c
  decide (toLex (cols a.2, a.1) ≤ toLex (cols b.2, b.1))

/-- `agg_call_sql`: an aggregate over the values of a group, missing where there is none to
aggregate, unless they are counted. -/
def aggCall [F64 F] (op : AggOp) (values : List F) : Option F :=
  match op, values with
  | .count, _ => some (F64.ofInt values.length)
  | _, [] => none
  | .sum, _ => some (F64.sum values)
  | .avg, _ => some (F64.div (F64.sum values) (F64.ofInt values.length))
  | .min, v :: vs => some (vs.foldl (fun a b => if F64.totalLe a b then a else b) v)
  | .max, v :: vs => some (vs.foldl (fun a b => if F64.totalLe a b then b else a) v)

/-- `SELECT cols, agg FROM points JOIN series GROUP BY cols`. Without columns there is no
`GROUP BY`, and one row even when there is nothing to aggregate. -/
def aggregateBy [F64 F] (t : Tables F) (op : AggOp) (keys : List String)
    (points : List (Point Unit F)) : List (Labels × Option F) :=
  let rows := joinSeries t Point.seriesId points
  if keys.isEmpty then [(.empty, aggCall op (rows.map fun r => r.1.value))]
  else
    (Sql.groupBy (fun r => labelColumns keys r.2) rows).map fun g =>
      (decodeLabels keys g.1, aggCall op (g.2.map fun r => r.1.value))

/-- `SELECT at, cols, agg FROM points JOIN series GROUP BY at, cols ORDER BY cols, at`. -/
def aggregateByTime [F64 F] (E : Sql.Engine) (t : Tables F) (op : AggOp) (keys : List String)
    (points : List (Point ℤ F)) : List (ℤ × Labels × Option F) :=
  let rows := joinSeries t Point.seriesId points
  let groups := (Sql.groupBy (fun r => (r.1.at_, labelColumns keys r.2)) rows).map fun g =>
    (g.1, aggCall op (g.2.map fun r => r.1.value))
  (E.sort (fun a b => columnsTimeLe a.1 b.1) groups).map fun g =>
    (g.1.1, decodeLabels keys g.1.2, g.2)

/-- `string_agg(k || '=' || v, ',' ORDER BY k)`: missing when there is no text to join. -/
def stringAgg (E : Sql.Engine) (pairs : List (String × Option String)) : Option String :=
  let texts := (E.sort (fun a b => decide (a.1 ≤ b.1)) pairs).filterMap fun e =>
    e.2.map fun v => e.1 ++ "=" ++ v
  if texts.isEmpty then none else some (",".intercalate texts)

/-- `gk_pairs`: the labels of some series, without those under excluded keys. A series with none
left has no row. -/
def gkPairs (t : Tables F) (excluded : List String) (sids : List ℤ) :
    List (ℤ × String × Option String) :=
  (joinSeries t id sids).flatMap fun r =>
    (r.2.labels.keys.filter fun k => !excluded.contains k).map fun k =>
      (r.1, k, elementAt r.2.labels k)

/-- `gk`: the text that the labels of a series spell. -/
def gk (E : Sql.Engine) (t : Tables F) (excluded : List String) (sids : List ℤ) :
    List (ℤ × String) :=
  (Sql.groupBy Prod.fst (gkPairs t excluded sids)).map fun g =>
    (g.1, (stringAgg E (g.2.map Prod.snd)).getD "")

/-- `MIN(series_id)`. -/
def minSid (sids : List ℤ) : ℤ := sids.min?.getD 0

/-- The points with the text of their series, for the series that have one. -/
def joinGk [F64 F] (E : Sql.Engine) (t : Tables F) (excluded : List String) (sids : List ℤ)
    (points : List (Point τ F)) : List (Point τ F × String) :=
  (Sql.join (fun p g => decide (p.seriesId = g.1)) points (gk E t excluded sids)).map fun r =>
    (r.1, r.2.2)

/-- `grouped`: an aggregate for each timestamp and text, with the least series of its group. -/
def groupedWithout [F64 F] [DecidableEq τ] (E : Sql.Engine) (t : Tables F) (op : AggOp)
    (excluded : List String) (sids : List ℤ) (points : List (Point τ F)) :
    List ((τ × Option F) × ℤ) :=
  (Sql.groupBy (fun r => (r.1.at_, r.2)) (joinGk E t excluded sids points)).map fun g =>
    ((g.1.1, aggCall op (g.2.map fun r => r.1.value)), minSid (g.2.map fun r => r.1.seriesId))

/-- `SELECT labels, at, agg FROM grouped JOIN series ON rep_sid = series_id`, and the labels under
excluded keys stripped in the program. -/
def aggregateWithout [F64 F] [DecidableEq τ] (E : Sql.Engine) (t : Tables F) (op : AggOp)
    (excluded : List String) (sids : List ℤ) (points : List (Point τ F)) :
    List (τ × Labels × Option F) :=
  (joinSeries t Prod.snd (groupedWithout E t op excluded sids points)).map fun r =>
    (r.1.1.1, r.2.labels.filter fun k _ => !excluded.contains k, r.1.1.2)

/-! ### The evaluators -/

section Evaluators

variable [F64 F]

/-- The rows of an instant aggregation as points, without those that are missing or refused. -/
def decodeInstant (keep : F → Bool) (timeUs : ℤ) (rows : List (Labels × Option F)) :
    List (InstantPoint F) :=
  rows.filterMap fun r => (r.2.filter keep).map fun v => ⟨"", r.1, timeUs, v⟩

/-- The rows of a matrix aggregation as points, by the labels of their group. -/
def decodeRange (keep : F → Bool) (rows : List (ℤ × Labels × Option F)) : List (RangePoints F) :=
  let byGroup : SortedMap Labels (List (ℤ × F)) :=
    rows.foldl (fun m r => match r.2.2.filter keep with
      | some v => m.push r.2.1 (r.1, v)
      | none => m) .empty
  (byGroup.entries.filter fun g => !g.2.isEmpty).map fun g => ⟨"", g.1, g.2⟩

/-- `ORDER BY grouped.timestamp`. -/
def orderByTime (E : Sql.Engine) (rows : List (ℤ × Labels × Option F)) :
    List (ℤ × Labels × Option F) :=
  E.sort (fun a b => decide (a.1 ≤ b.1)) rows

/-- An aggregation `by` over points at one timestamp. -/
def instantAggregateBy (t : Tables F) (keep : F → Bool) (op : AggOp)
    (modifier : Option LabelModifier) (timeUs : ℤ) (points : List (Point Unit F)) :
    List (InstantPoint F) :=
  decodeInstant keep timeUs (aggregateBy t op (aggregateGroupKeys modifier) points)

/-- An aggregation `without` over points at one timestamp. -/
def instantAggregateWithout (E : Sql.Engine) (t : Tables F) (keep : F → Bool) (op : AggOp)
    (excluded : List String) (timeUs : ℤ) (points : List (Point Unit F)) :
    List (InstantPoint F) :=
  decodeInstant keep timeUs ((aggregateWithout E t op excluded (points.map Point.seriesId)
    points).map Prod.snd)

/-- An aggregation `by` over points at many timestamps. -/
def rangeAggregateBy (E : Sql.Engine) (t : Tables F) (keep : F → Bool) (op : AggOp)
    (modifier : Option LabelModifier) (points : List (Point ℤ F)) : List (RangePoints F) :=
  decodeRange keep (aggregateByTime E t op (aggregateGroupKeys modifier) points)

/-- An aggregation `without` over points at many timestamps; the text of a series is computed
once for all of them. -/
def rangeAggregateWithout (E : Sql.Engine) (t : Tables F) (keep : F → Bool) (op : AggOp)
    (excluded : List String) (points : List (Point ℤ F)) : List (RangePoints F) :=
  decodeRange keep (orderByTime E (aggregateWithout E t op excluded
    (points.map Point.seriesId).dedup points))

/-- `instant_aggregate_without_via_sql`. -/
def instantAggregateWithoutViaSql (E : Sql.Engine) (t : Tables F) (sel : VectorSelector)
    (op : AggOp) (excluded : List String) (timeUs : ℤ) : List (InstantPoint F) :=
  instantAggregateWithout E t (fun _ => true) op excluded timeUs (latestPoints E t sel timeUs)

/-- `instant_aggregate_via_sql`. -/
def instantAggregateViaSql (E : Sql.Engine) (t : Tables F) (sel : VectorSelector) (op : AggOp)
    (modifier : Option LabelModifier) (timeUs : ℤ) : List (InstantPoint F) :=
  match modifierExcludedKeys modifier with
  | some excluded => instantAggregateWithoutViaSql E t sel op excluded timeUs
  | none => instantAggregateBy t (fun _ => true) op modifier timeUs (latestPoints E t sel timeUs)

/-- `instant_aggregate_over_rangefn_without_via_sql`. -/
def instantAggregateOverRangefnWithoutViaSql (E : Sql.Engine) (t : Tables F)
    (sel : VectorSelector) (rangeUs : ℤ) (fnOp : RangeFnOp) (op : AggOp) (excluded : List String)
    (timeUs : ℤ) : List (InstantPoint F) :=
  instantAggregateWithout E t F64.isFinite op excluded timeUs
    (perSeriesRangefnCtes E t sel fnOp rangeUs timeUs)

/-- `instant_aggregate_over_rangefn_via_sql`: values that are not finite are dropped. -/
def instantAggregateOverRangefnViaSql (E : Sql.Engine) (t : Tables F) (sel : VectorSelector)
    (rangeUs : ℤ) (fnOp : RangeFnOp) (op : AggOp) (modifier : Option LabelModifier) (timeUs : ℤ) :
    List (InstantPoint F) :=
  match modifierExcludedKeys modifier with
  | some excluded =>
    instantAggregateOverRangefnWithoutViaSql E t sel rangeUs fnOp op excluded timeUs
  | none =>
    instantAggregateBy t F64.isFinite op modifier timeUs
      (perSeriesRangefnCtes E t sel fnOp rangeUs timeUs)

/-- `range_aggregate_without_via_sql`. -/
def rangeAggregateWithoutViaSql (E : Sql.Engine) (t : Tables F) (sel : VectorSelector)
    (op : AggOp) (excluded : List String) (startUs endUs : ℤ) : List (RangePoints F) :=
  rangeAggregateWithout E t (fun _ => true) op excluded (windowPoints t sel startUs endUs)

/-- `range_aggregate_via_sql`. -/
def rangeAggregateViaSql (E : Sql.Engine) (t : Tables F) (sel : VectorSelector) (op : AggOp)
    (modifier : Option LabelModifier) (startUs endUs : ℤ) : List (RangePoints F) :=
  match modifierExcludedKeys modifier with
  | some excluded => rangeAggregateWithoutViaSql E t sel op excluded startUs endUs
  | none =>
    rangeAggregateBy E t (fun _ => true) op modifier (windowPoints t sel startUs endUs)

/-- `range_aggregate_over_rangefn_without_via_sql`. -/
def rangeAggregateOverRangefnWithoutViaSql (E : Sql.Engine) (t : Tables F) (sel : VectorSelector)
    (rangeUs : ℤ) (fnOp : RangeFnOp) (op : AggOp) (excluded : List String)
    (startUs endUs stepUs : ℤ) : Except PromError (List (RangePoints F)) := do
  let evals ← evalGrid startUs endUs stepUs
  if evals.isEmpty then return []
  return rangeAggregateWithout E t F64.isFinite op excluded
    (perSeriesRangefnRangeCtes E t sel fnOp rangeUs evals startUs endUs)

/-- `range_aggregate_over_rangefn_via_sql`. -/
def rangeAggregateOverRangefnViaSql (E : Sql.Engine) (t : Tables F) (sel : VectorSelector)
    (rangeUs : ℤ) (fnOp : RangeFnOp) (op : AggOp) (modifier : Option LabelModifier)
    (startUs endUs stepUs : ℤ) : Except PromError (List (RangePoints F)) :=
  match modifierExcludedKeys modifier with
  | some excluded =>
    rangeAggregateOverRangefnWithoutViaSql E t sel rangeUs fnOp op excluded startUs endUs stepUs
  | none => do
    let evals ← evalGrid startUs endUs stepUs
    if evals.isEmpty then return []
    return rangeAggregateBy E t F64.isFinite op modifier
      (perSeriesRangefnRangeCtes E t sel fnOp rangeUs evals startUs endUs)

end Evaluators

/-! ### What an aggregation can see of the tables -/

section Locality

variable {d : Dataset F} {p : Skaldberg.SeriesRow → Bool} {points : List (Point τ F)}

/-- **The text of a series is spelt by its own labels**: in part of a dataset, the series of that
part have the texts they have. -/
theorem gk_filter (E : Sql.Engine) (excluded : List String) (sids : List ℤ) :
    gk E (d.restrict p).toTables excluded (sids.filter (d.keeps p)) =
      (gk E d.toTables excluded sids).filter fun g => d.keeps p g.1 := by
  have hjoin := d.joinSeries_filter p id sids
  have hpairs : gkPairs (d.restrict p).toTables excluded (sids.filter (d.keeps p)) =
      (gkPairs d.toTables excluded sids).filter fun r => d.keeps p r.1 := by
    rw [gkPairs, gkPairs, ← Sql.flatMap_filter (c := fun r => d.keeps p (id r.1)), ← hjoin]
    · rfl
    · rintro r - x hx
      obtain ⟨k, -, rfl⟩ := List.mem_map.mp hx
      rfl
  rw [gk, hpairs, Sql.groupBy_filter (Q := d.keeps p) fun _ _ => rfl, gk, List.filter_map]
  rfl

/-- A text belongs to a series. -/
theorem exists_series_of_mem_gk {t : Tables F} {E : Sql.Engine} {excluded : List String}
    {sids : List ℤ} {g : ℤ × String} (h : g ∈ gk E t excluded sids) :
    ∃ s ∈ t.series, s.seriesId = g.1 := by
  obtain ⟨group, hgroup, rfl⟩ := List.mem_map.mp h
  obtain ⟨⟨pair, hpair, hkey⟩, -⟩ := Sql.mem_groupBy.mp hgroup
  obtain ⟨r, hr, hpair⟩ := List.mem_flatMap.mp hpair
  obtain ⟨k, -, rfl⟩ := List.mem_map.mp hpair
  obtain ⟨-, hs, hon⟩ := Sql.mem_join.mp hr
  exact ⟨r.2, hs, (beq_iff_eq.mp hon).symm.trans hkey⟩

theorem minSid_mem {sids : List ℤ} (h : sids ≠ []) : minSid sids ∈ sids := by
  obtain ⟨m, hm⟩ := Option.isSome_iff_exists.mp (List.isSome_min?_of_ne_nil h)
  rw [minSid, hm]
  exact List.min?_mem hm

variable [F64 F]

theorem joinGk_filter (E : Sql.Engine) (excluded : List String) (sids : List ℤ)
    (points : List (Point τ F)) :
    joinGk E (d.restrict p).toTables excluded (sids.filter (d.keeps p))
        (points.filter fun x => d.keeps p x.seriesId) =
      (joinGk E d.toTables excluded sids points).filter fun r => d.keeps p r.1.seriesId := by
  have hmatch : ∀ x ∈ points, ∀ g ∈ gk E d.toTables excluded sids,
      decide (x.seriesId = g.1) = true → d.keeps p x.seriesId = d.keeps p g.1 :=
    fun _ _ _ _ hon => congrArg (d.keeps p) (of_decide_eq_true hon)
  have hjoin := Sql.join_filter_both _ (fun x : Point τ F => d.keeps p x.seriesId)
    (fun g : ℤ × String => d.keeps p g.1) hmatch
  rw [joinGk, gk_filter, hjoin, joinGk, List.filter_map]
  rfl

theorem exists_series_of_mem_joinGk {t : Tables F} {E : Sql.Engine} {excluded : List String}
    {sids : List ℤ} {r : Point τ F × String} (h : r ∈ joinGk E t excluded sids points) :
    ∃ s ∈ t.series, s.seriesId = r.1.seriesId := by
  obtain ⟨x, hx, rfl⟩ := List.mem_map.mp h
  obtain ⟨-, hgk, hon⟩ := Sql.mem_join.mp hx
  have hid : x.1.seriesId = x.2.1 := of_decide_eq_true hon
  exact hid ▸ exists_series_of_mem_gk hgk

/-- **The representative of a group is one of its series.** -/
theorem mem_groupedWithout [DecidableEq τ] {E : Sql.Engine} {t : Tables F} {op : AggOp}
    {excluded : List String} {sids : List ℤ} {g : (τ × Option F) × ℤ}
    (h : g ∈ groupedWithout E t op excluded sids points) :
    ∃ r ∈ joinGk E t excluded sids points, r.1.seriesId = g.2 := by
  obtain ⟨k, hk, rfl⟩ := List.mem_map.mp h
  have hne : (k.2.map fun r => r.1.seriesId) ≠ [] := by
    simpa using Sql.ne_nil_of_mem_groupBy hk
  obtain ⟨r, hr, hid⟩ := List.mem_map.mp (minSid_mem hne)
  exact ⟨r, (Sql.mem_of_mem_groupBy hk hr).1, hid⟩

/-- **Grouping by columns looks only at the series of the points.** -/
theorem aggregateBy_filter {points : List (Point Unit F)}
    (h : ∀ r ∈ joinSeries d.toTables Point.seriesId points, p r.2 = true) (op : AggOp)
    (keys : List String) :
    aggregateBy (d.restrict p).toTables op keys (points.filter fun x => d.keeps p x.seriesId) =
      aggregateBy d.toTables op keys points := by
  rw [aggregateBy, d.joinSeries_filter_of_forall h, aggregateBy]

theorem aggregateByTime_filter {points : List (Point ℤ F)}
    (h : ∀ r ∈ joinSeries d.toTables Point.seriesId points, p r.2 = true) (E : Sql.Engine)
    (op : AggOp) (keys : List String) :
    aggregateByTime E (d.restrict p).toTables op keys
        (points.filter fun x => d.keeps p x.seriesId) =
      aggregateByTime E d.toTables op keys points := by
  rw [aggregateByTime, d.joinSeries_filter_of_forall h, aggregateByTime]

/-- **Grouping by a text looks only at the series that have one**, for the text and for the
labels of the group. -/
theorem aggregateWithout_filter [DecidableEq τ] {E : Sql.Engine} {excluded : List String}
    {sids : List ℤ}
    (h : ∀ r ∈ joinGk E d.toTables excluded sids points, d.keeps p r.1.seriesId = true)
    (op : AggOp) :
    aggregateWithout E (d.restrict p).toTables op excluded (sids.filter (d.keeps p))
        (points.filter fun x => d.keeps p x.seriesId) =
      aggregateWithout E d.toTables op excluded sids points := by
  have hjoin : joinGk E (d.restrict p).toTables excluded (sids.filter (d.keeps p))
      (points.filter fun x => d.keeps p x.seriesId) = joinGk E d.toTables excluded sids points := by
    rw [joinGk_filter, List.filter_eq_self.mpr h]
  have hgrouped : groupedWithout E (d.restrict p).toTables op excluded (sids.filter (d.keeps p))
      (points.filter fun x => d.keeps p x.seriesId) =
        groupedWithout E d.toTables op excluded sids points := by
    rw [groupedWithout, hjoin, groupedWithout]
  rw [aggregateWithout, aggregateWithout, hgrouped, d.joinSeries_restrict]
  intro g hg
  obtain ⟨r, hr, hid⟩ := mem_groupedWithout hg
  exact hid ▸ Dataset.keeps_iff.mp (h r hr)

end Locality

end Skaldberg.Prometheus
