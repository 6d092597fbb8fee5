import Skaldberg.Prometheus.Aggregate
import Skaldberg.Prometheus.ExactPoints
import Skaldberg.Prometheus.Matrix

/-!
# Pushed aggregations

An aggregation `by (…)`, or without a modifier, computed by one query is the aggregation of the
points of its inner expression. Two things have to meet: the groups, which the query makes by the
columns of the labels and the program by the labels the modifier retains, and the values, which the
query aggregates in the order of its rows and the program in the order of its points.

The groups are settled by `labelColumns_eq_iff`: two series have the same columns exactly when they
retain the same labels, and these are read off the columns (`decodeLabels_labelColumns`). For the
values, an aggregate of numbers does not depend on their order (`applyAgg_perm`), and is what the
query makes of them as soon as there is one (`aggCall_eq`).

That proviso is where the two part. Without a modifier, or with `by ()`, the query has no
`GROUP BY` and yields a row even when there is nothing to aggregate: a `count` is then 0 in the
query, and no series at all in the program (`instantAggregate_refines_iff`). Over a range the query
groups by the timestamp, so that there is no such row, and the two are equal
(`rangeAggregate_refines`).
-/

namespace Skaldberg.Prometheus

/-! ### The groups -/

theorem get?_filter_key {α β : Type} [LinearOrder α] (m : SortedMap α β) (p : α → Bool) (k : α) :
    (m.filter fun k _ => p k).get? k = if p k then m.get? k else none := by
  refine Option.ext fun v => ?_
  rw [SortedMap.get?_eq_some_iff, SortedMap.mem_entries_filter]
  split_ifs with hk
  · rw [SortedMap.get?_eq_some_iff]
    exact and_iff_left hk
  · simp [hk]

/-- The labels under some keys. -/
def keepKeys (keys : List String) (labels : Labels) : Labels :=
  labels.filter fun k _ => keys.contains k

theorem get?_keepKeys (keys : List String) (labels : Labels) (k : String) :
    (keepKeys keys labels).get? k = if keys.contains k then labels.get? k else none :=
  get?_filter_key labels keys.contains k

/-- **A modifier that is not a `without` retains the labels under its keys.** -/
theorem retainedLabels_eq {modifier : Option LabelModifier}
    (hm : modifierExcludedKeys modifier = none) (labels : Labels) :
    retainedLabels labels modifier = keepKeys (aggregateGroupKeys modifier) labels := by
  cases modifier with
  | none =>
    refine SortedMap.ext_get? fun k => ?_
    rw [get?_keepKeys]
    rfl
  | some m =>
    cases m with
    | includes ls => rfl
    | excludes ls => cases hm

/-- **The labels of a row are read off its columns.** -/
theorem decodeLabels_labelColumns (keys : List String) (s : Skaldberg.SeriesRow) :
    decodeLabels keys (labelColumns keys s) = keepKeys keys s.labels := by
  let put (m : Labels) (e : String × Option String) : Labels := e.2.elim m (m.insert e.1)
  have hput : decodeLabels keys (labelColumns keys s) =
      (keys.zip (keys.map (elementAt s.labels))).foldl put .empty := by
    refine congrArg (fun f => List.foldl f _ _) (funext fun m => funext fun e => ?_)
    rcases e with ⟨k, _ | v⟩ <;> rfl
  have hfold : ∀ (keys : List String) (m : Labels) (k : String),
      ((keys.zip (keys.map (elementAt s.labels))).foldl put m).get? k =
        if keys.contains k && (s.labels.get? k).isSome then s.labels.get? k else m.get? k := by
    intro keys
    induction keys with
    | nil => exact fun _ _ => rfl
    | cons key keys ih =>
      intro m k
      rw [List.map_cons, List.zip_cons_cons, List.foldl_cons, ih]
      change (if _ then _ else ((s.labels.get? key).elim m (m.insert key)).get? k) = _
      by_cases hk : k = key
      · subst hk
        cases hget : s.labels.get? k with
        | none => simp
        | some v => simp [SortedMap.insert]
      · have hhead : (List.contains (key :: keys) k) = keys.contains k := by
          simp [hk]
        rw [hhead]
        congr 1
        cases s.labels.get? key with
        | none => rfl
        | some v => exact SortedMap.get?_upsert_ne m hk _
  refine SortedMap.ext_get? fun k => ?_
  rw [hput, hfold keys .empty k, get?_keepKeys]
  cases hget : s.labels.get? k <;> simp

/-- **Two series have the same columns exactly when they retain the same labels.** -/
theorem labelColumns_eq_iff {keys : List String} {s s' : Skaldberg.SeriesRow} :
    labelColumns keys s = labelColumns keys s' ↔
      keepKeys keys s.labels = keepKeys keys s'.labels := by
  constructor
  · intro h
    rw [← decodeLabels_labelColumns, ← decodeLabels_labelColumns, h]
  · intro h
    refine List.map_congr_left fun k hk => ?_
    have hget := congrArg (fun m => SortedMap.get? m k) h
    simpa [get?_keepKeys, hk, elementAt] using hget

/-! ### The values -/

/-- **An aggregate of numbers does not depend on their order.** -/
theorem applyAgg_perm (op : AggOp) {vs vs' : List Exact} (h : vs.Perm vs')
    (hnum : ∀ v ∈ vs, v.IsNum) : applyAgg op vs = applyAgg op vs' := by
  cases op with
  | sum => exact Exact.sum_perm h
  | avg => simp only [applyAgg, h.isEmpty_eq, Exact.sum_perm h, h.length_eq]
  | min =>
    refine h.foldl_eq' (fun x hx y hy z => ?_) F64.inf
    obtain ⟨p, rfl⟩ := hnum x hx
    obtain ⟨q, rfl⟩ := hnum y hy
    exact Exact.fmin_right_comm z p q
  | max =>
    refine h.foldl_eq' (fun x hx y hy z => ?_) F64.negInf
    obtain ⟨p, rfl⟩ := hnum x hx
    obtain ⟨q, rfl⟩ := hnum y hy
    exact Exact.fmax_right_comm z p q
  | count => rw [applyAgg, applyAgg, h.length_eq]

/-- **The query aggregates numbers as the program does**, as soon as there is one. -/
theorem aggCall_eq (op : AggOp) {vs : List Exact} (hne : vs ≠ []) (hnum : ∀ v ∈ vs, v.IsNum) :
    aggCall op vs = some (applyAgg op vs) := by
  obtain ⟨v, vs, rfl⟩ := List.exists_cons_of_ne_nil hne
  obtain ⟨qs, hqs⟩ := Exact.exists_map_num hnum
  obtain ⟨q, qs, rfl⟩ : ∃ q qs', qs = q :: qs' := by
    cases qs with
    | nil => cases hqs
    | cons q qs => exact ⟨q, qs, rfl⟩
  rw [List.map_cons, List.cons.injEq] at hqs
  obtain ⟨rfl, rfl⟩ := hqs
  have hstep : ∀ (f g : Exact → Exact → Exact),
    (∀ p q : ℚ, f (.num p) (.num q) = g (.num p) (.num q)) →
      (∀ p q : ℚ, (g (.num p) (.num q)).IsNum) → ∀ (qs : List ℚ) (p : ℚ),
        (qs.map Exact.num).foldl f (.num p) = (qs.map Exact.num).foldl g (.num p) := by
    intro f g hfg hg qs
    induction qs with
    | nil => exact fun _ => rfl
    | cons q qs ih =>
      intro p
      obtain ⟨r, hr⟩ := hg p q
      rw [List.map_cons, List.foldl_cons, List.foldl_cons, hfg, hr, ih]
  cases op with
  | sum => rfl
  | avg => rfl
  | min =>
    rw [aggCall, applyAgg, List.foldl_cons,
      show F64.fmin F64.inf (Exact.num q) = .num q from Exact.fmin_inf_num q]
    refine congrArg some (hstep _ _ (fun p q => ?_) (fun p q => ⟨_, Exact.fmin_num p q⟩) qs q)
    rw [Exact.fmin_num, min_def]
    change (if Exact.totalLe _ _ = true then _ else _) = _
    rw [Exact.totalLe_num]
    split_ifs <;> simp_all
  | max =>
    rw [aggCall, applyAgg, List.foldl_cons,
      show F64.fmax F64.negInf (Exact.num q) = .num q from Exact.fmax_negInf_num q]
    refine congrArg some (hstep _ _ (fun p q => ?_) (fun p q => ⟨_, Exact.fmax_num p q⟩) qs q)
    rw [Exact.fmax_num, max_def]
    change (if Exact.totalLe _ _ = true then _ else _) = _
    rw [Exact.totalLe_num]
    split_ifs <;> simp_all
  | count => rfl

theorem isNum_applyAgg (op : AggOp) {vs : List Exact} (hne : vs ≠ []) (hnum : ∀ v ∈ vs, v.IsNum) :
    (applyAgg op vs).IsNum := by
  obtain ⟨s, hs⟩ := Exact.isNum_sum hnum
  obtain ⟨qs, rfl⟩ := Exact.exists_map_num hnum
  obtain ⟨q, qs, rfl⟩ := List.exists_cons_of_ne_nil fun h => hne (congrArg (List.map Exact.num) h)
  cases op with
  | sum => exact ⟨s, hs⟩
  | avg =>
    refine ⟨_, (congrArg (F64.div · _) hs).trans (Exact.div_num s ?_)⟩
    simp only [List.map_cons, List.length_cons]
    positivity
  | min =>
    rw [applyAgg, List.map_cons, List.foldl_cons,
      show F64.fmin F64.inf (Exact.num q) = .num q from Exact.fmin_inf_num q]
    exact ⟨_, Exact.foldl_fmin_num q qs⟩
  | max =>
    rw [applyAgg, List.map_cons, List.foldl_cons,
      show F64.fmax F64.negInf (Exact.num q) = .num q from Exact.fmax_negInf_num q]
    exact ⟨_, Exact.foldl_fmax_num q qs⟩
  | count => exact ⟨_, rfl⟩

/-! ### At one timestamp -/

/-- What an aggregation reads of a point: its labels and its value. -/
def InstantPoint.labelled {F : Type} (p : InstantPoint F) : Labels × F := (p.labels, p.value)

/-- What an aggregation reads of a joined point. -/
def labelledRow {F τ : Type} (r : Point τ F × Skaldberg.SeriesRow) : Labels × F :=
  (r.2.labels, r.1.value)

/-- The aggregates of the groups that a modifier makes of some points. -/
def groupAggregates (op : AggOp) (modifier : Option LabelModifier) (timeUs : ℤ)
    (xs : List (Labels × Exact)) : List (InstantPoint Exact) :=
  (Sql.groupBy (fun x => retainedLabels x.1 modifier) xs).map fun g =>
    ⟨"", g.1, timeUs, applyAgg op (g.2.map Prod.snd)⟩

theorem groupAggregates_perm {op : AggOp} {modifier : Option LabelModifier} {timeUs : ℤ}
    {xs xs' : List (Labels × Exact)} (h : xs.Perm xs') (hnum : ∀ x ∈ xs, x.2.IsNum) :
    (groupAggregates op modifier timeUs xs).Perm (groupAggregates op modifier timeUs xs') := by
  refine Sql.groupBy_map_perm (f := fun k l => (⟨"", k, timeUs, applyAgg op (l.map Prod.snd)⟩ :
    InstantPoint Exact)) h fun k l l' hl hmem => ?_
  rw [applyAgg_perm op (hl.map Prod.snd)]
  intro v hv
  obtain ⟨x, hx, rfl⟩ := List.mem_map.mp hv
  exact hnum x (hmem x hx)

/-- **The program makes the aggregates of the groups.** -/
theorem aggregateInstantPoints_perm (inner : List (InstantPoint Exact)) (op : AggOp)
    (modifier : Option LabelModifier) (timeUs : ℤ) :
    (aggregateInstantPoints inner op modifier timeUs).Perm
      (groupAggregates op modifier timeUs (inner.map InstantPoint.labelled)) := by
  have hentries := SortedMap.entries_foldl_push_perm
    (fun x : Labels × Exact => retainedLabels x.1 modifier) Prod.snd
    (inner.map InstantPoint.labelled)
  rw [List.foldl_map] at hentries
  have hmap := hentries.map fun g => (⟨"", g.1, timeUs, applyAgg op g.2⟩ : InstantPoint Exact)
  rw [List.map_map] at hmap
  exact hmap

/-- The query makes a row for no group: it counts nothing, and groups by nothing. -/
def CountsNothing {α : Type} (op : AggOp) (modifier : Option LabelModifier)
    (inner : List α) : Prop :=
  op = .count ∧ aggregateGroupKeys modifier = [] ∧ inner = []

section Query

variable {t : Tables Exact} {points : List (Point Unit Exact)} {keep : Exact → Bool} {op : AggOp}
  {modifier : Option LabelModifier} {timeUs : ℤ}

/-- **The rows of groups are the aggregates of the groups.** -/
theorem decodeInstant_groups {rows : List (Point Unit Exact × Skaldberg.SeriesRow)}
    (hnum : ∀ r ∈ rows, r.1.value.IsNum) (hkeep : ∀ x : Exact, x.IsNum → keep x = true) :
    decodeInstant keep timeUs ((Sql.groupBy (fun r => retainedLabels r.2.labels modifier)
      rows).map fun g => (g.1, aggCall op (g.2.map fun r => r.1.value))) =
        groupAggregates op modifier timeUs (rows.map labelledRow) := by
  rw [groupAggregates, Sql.groupBy_map, decodeInstant, List.filterMap_map, List.map_map]
  refine List.filterMap_eq_map_iff_forall_eq_some.mpr fun g hg => ?_
  have hne : (g.2.map fun r => r.1.value) ≠ [] := by
    simpa using Sql.ne_nil_of_mem_groupBy hg
  have hvalues : ∀ v ∈ g.2.map fun r => r.1.value, v.IsNum := by
    intro v hv
    obtain ⟨r, hr, rfl⟩ := List.mem_map.mp hv
    exact hnum r (Sql.mem_of_mem_groupBy hg hr).1
  have hkept : (aggCall op (g.2.map fun r => r.1.value)).filter keep =
      some (applyAgg op (g.2.map fun r => r.1.value)) := by
    rw [aggCall_eq op hne hvalues, Option.filter, hkeep _ (isNum_applyAgg op hne hvalues)]
    rfl
  simp only [Function.comp_apply, hkept, Option.map_some, List.map_map]
  rfl

/-- **The query makes the aggregates of the groups** too, but for the row of no group. -/
theorem instantAggregateBy_eq (hm : modifierExcludedKeys modifier = none)
    (hnum : ∀ r ∈ joinSeries t Point.seriesId points, r.1.value.IsNum)
    (hkeep : ∀ x : Exact, x.IsNum → keep x = true)
    (hrow : ¬CountsNothing op modifier (joinSeries t Point.seriesId points)) :
    instantAggregateBy t keep op modifier timeUs points =
      groupAggregates op modifier timeUs
        ((joinSeries t Point.seriesId points).map labelledRow) := by
  let rows := joinSeries t Point.seriesId points
  rw [← decodeInstant_groups hnum hkeep, instantAggregateBy, aggregateBy]
  have hretained : ∀ r ∈ rows, retainedLabels r.2.labels modifier =
      decodeLabels (aggregateGroupKeys modifier)
        (labelColumns (aggregateGroupKeys modifier) r.2) := by
    intro r _
    rw [retainedLabels_eq hm, decodeLabels_labelColumns]
  by_cases hkeys : aggregateGroupKeys modifier = []
  · rw [if_pos (by rw [hkeys]; rfl)]
    by_cases hnil : rows = []
    · -- nothing is aggregated, and nothing is counted
      have hop : op ≠ .count := fun hop => hrow ⟨hop, hkeys, hnil⟩
      change decodeInstant keep timeUs [(_, aggCall op (rows.map fun r => r.1.value))] =
        decodeInstant keep timeUs ((Sql.groupBy _ rows).map _)
      rw [hnil]
      cases op <;> first | rfl | exact absurd rfl hop
    · have hconst : ∀ r ∈ rows, retainedLabels r.2.labels modifier = .empty := by
        intro r hr
        rw [hretained r hr, hkeys]
        rfl
      change _ = decodeInstant keep timeUs ((Sql.groupBy _ rows).map _)
      rw [Sql.groupBy_const hconst hnil]
      rfl
  · rw [if_neg (by simpa using hkeys)]
    have hgroups : Sql.groupBy (fun r => retainedLabels r.2.labels modifier) rows =
        (Sql.groupBy (fun r => labelColumns (aggregateGroupKeys modifier) r.2) rows).map
          fun g => (decodeLabels (aggregateGroupKeys modifier) g.1, g.2) := by
      refine Sql.groupBy_comp_key hretained fun r hr r' hr' h => ?_
      rwa [labelColumns_eq_iff, ← retainedLabels_eq hm, ← retainedLabels_eq hm]
    change _ = decodeInstant keep timeUs ((Sql.groupBy _ rows).map _)
    rw [hgroups, List.map_map]
    rfl

end Query

/-- Two evaluations give the same labels the same values. -/
def SameValues {F : Type} (ps ps' : List (InstantPoint F)) : Prop :=
  ∀ x, x ∈ ps.map InstantPoint.labelled ↔ x ∈ ps'.map InstantPoint.labelled

theorem SameValues.of_perm {F : Type} {ps ps' : List (InstantPoint F)} (h : ps.Perm ps') :
    SameValues ps ps' := fun _ => (h.map _).mem_iff

section Instant

variable {t : Tables Exact} {sel : VectorSelector} {op : AggOp} {modifier : Option LabelModifier}

/-- **Aggregates of the same points are the same**, in the query and in the program, exactly when
the query does not count nothing. -/
theorem sameValues_instantAggregateBy_iff {points : List (Point Unit Exact)} {keep : Exact → Bool}
    {timeUs : ℤ} {inner : List (InstantPoint Exact)}
    (hm : modifierExcludedKeys modifier = none)
    (hnum : ∀ r ∈ joinSeries t Point.seriesId points, r.1.value.IsNum)
    (hkeep : ∀ x : Exact, x.IsNum → keep x = true)
    (hinner : ((joinSeries t Point.seriesId points).map labelledRow).Perm
      (inner.map InstantPoint.labelled)) :
    SameValues (instantAggregateBy t keep op modifier timeUs points)
        (aggregateInstantPoints inner op modifier timeUs) ↔
      ¬CountsNothing op modifier inner := by
  have hnil : joinSeries t Point.seriesId points = [] ↔ inner = [] := by
    rw [← List.length_eq_zero_iff, ← List.length_eq_zero_iff, ← List.length_map (f := labelledRow),
      hinner.length_eq, List.length_map]
  constructor
  · -- the row of no group is a point of the query and none of the program
    rintro hsame ⟨rfl, hkeys, rfl⟩
    have hrow : instantAggregateBy t keep .count modifier timeUs points =
        [⟨"", .empty, timeUs, F64.ofInt 0⟩] := by
      have hzero : keep (F64.ofInt 0) = true := hkeep _ ⟨0, rfl⟩
      rw [instantAggregateBy, aggregateBy, hnil.mpr rfl, hkeys]
      change List.filterMap _ [((.empty : Labels), some (F64.ofInt 0 : Exact))] = _
      rw [List.filterMap_cons, Option.filter, hzero]
      rfl
    have hmem := (hsame (.empty, F64.ofInt 0)).mp (by rw [hrow]; exact List.mem_singleton_self _)
    exact absurd hmem List.not_mem_nil
  · intro hrow
    rw [instantAggregateBy_eq hm hnum hkeep fun h => hrow ⟨h.1, h.2.1, hnil.mp h.2.2⟩]
    refine SameValues.of_perm (List.Perm.trans (groupAggregates_perm hinner ?_)
      (aggregateInstantPoints_perm inner op modifier timeUs).symm)
    intro x hx
    obtain ⟨r, hr, rfl⟩ := List.mem_map.mp hx
    exact hnum r hr

/-- **The points a query aggregates** have the labels and the values of those of the selector. -/
theorem labelledRow_perm (h : OneRowPerSeries t) (hts : DistinctTimestamps t)
    (hkeys : DistinctKeys t sel) (haccept : NothingRefused t sel) (E : Sql.Engine) (timeUs : ℤ) :
    ((joinSeries t Point.seriesId (latestPoints E t sel timeUs)).map labelledRow).Perm
      ((instantSelector E t sel timeUs).map InstantPoint.labelled) := by
  refine ((joinSeries_latestPoints_perm h hts E timeUs).map labelledRow).trans
    (((instantSelector_perm h hts hkeys haccept E timeUs).map InstantPoint.labelled).trans ?_).symm
  rw [List.map_map, List.map_map]
  exact List.Perm.refl _

theorem isNum_latestPoints (h : OneRowPerSeries t) (hts : DistinctTimestamps t) (hnum : Numbers t)
    (E : Sql.Engine) (timeUs : ℤ) :
    ∀ r ∈ joinSeries t Point.seriesId (latestPoints E t sel timeUs), r.1.value.IsNum := by
  intro r hr
  obtain ⟨r', hr', rfl⟩ :=
    List.mem_map.mp ((joinSeries_latestPoints_perm h hts E timeUs).mem_iff.mp hr)
  exact hnum _ (mem_baseRows.mp (mem_baseRows_of_mem_latestRows hr')).1.1

/-- **A pushed aggregation is the aggregation of the points of its inner expression**, a selector
or a range function of one, exactly when it does not count nothing: it is no `count`, or it has
labels to group by, or the inner expression has a series. -/
theorem instantAggregate_refines_iff (h : OneRowPerSeries t) (hts : DistinctTimestamps t)
    (hkeys : DistinctKeys t sel) (hregex : sel.RegexFree) (hnum : Numbers t)
    (hm : modifierExcludedKeys modifier = none) (E : Sql.Engine) (op : AggOp) (timeUs rangeUs : ℤ)
    (fnOp : RangeFnOp) :
    (SameValues (instantAggregateViaSql E t sel op modifier timeUs)
        (aggregateInstantPoints (instantSelector E t sel timeUs) op modifier timeUs) ↔
      ¬CountsNothing op modifier (baseRows t sel (asI64 (timeUs - lookbackUs)) timeUs)) ∧
    (SameValues (instantAggregateOverRangefnViaSql E t sel rangeUs fnOp op modifier timeUs)
        (aggregateInstantPoints (instantRangeFnViaSql E t sel rangeUs fnOp timeUs) op modifier
          timeUs) ↔
      ¬CountsNothing op modifier (instantRangeFnViaSql E t sel rangeUs fnOp timeUs)) := by
  constructor
  · have hselector := instantSelector_perm h hts hkeys hregex.nothingRefused E timeUs
    have hnil : instantSelector E t sel timeUs = [] ↔
        baseRows t sel (asI64 (timeUs - lookbackUs)) timeUs = [] := by
      rw [← latestRows_eq_nil, ← List.length_eq_zero_iff, hselector.length_eq, List.length_map,
        List.length_eq_zero_iff]
    rw [instantAggregateViaSql, hm, CountsNothing, ← hnil]
    exact sameValues_instantAggregateBy_iff hm (isNum_latestPoints h hts hnum E timeUs)
      (fun _ _ => rfl) (labelledRow_perm h hts hkeys hregex.nothingRefused E timeUs)
  · have hvalues : ∀ r ∈ joinSeries t Point.seriesId
        (perSeriesRangefnCtes E t sel fnOp rangeUs timeUs), r.1.value.IsNum :=
      fun r hr => isNum_instantPoint hnum (Sql.mem_join.mp hr).1
    have hinner : (joinSeries t Point.seriesId
        (perSeriesRangefnCtes E t sel fnOp rangeUs timeUs)).map labelledRow =
          (instantRangeFnViaSql E t sel rangeUs fnOp timeUs).map InstantPoint.labelled := by
      rw [instantRangeFnViaSql, decodeInstantRows, List.map_map, List.filter_eq_self.mpr]
      · rfl
      · intro r hr
        rw [hregex.postFilter, Exact.isFinite_iff.mpr (hvalues r hr)]
        rfl
    rw [instantAggregateOverRangefnViaSql, hm]
    exact sameValues_instantAggregateBy_iff hm hvalues (fun _ hx => Exact.isFinite_iff.mpr hx)
      (List.Perm.of_eq hinner)

/-- Two series of `up` with a job, and one without. -/
def jobsUp : Tables Exact where
  samples := [⟨1, 0, .num 1⟩, ⟨2, 0, .num 3⟩, ⟨2, 60000000, .num (1 / 2)⟩, ⟨3, 0, .num 4⟩]
  series := [⟨1, "up", SortedMap.empty.insert "job" "a"⟩,
    ⟨2, "up", SortedMap.empty.insert "job" "a" |>.insert "instance" "x"⟩,
    ⟨3, "up", SortedMap.empty.insert "instance" "x"⟩]

/-- `sum by (job) (up)` a minute on, and `sum by (job) (rate(up[5m]))`. -/
theorem instantAggregate_refines_iff_jobsUp :
    SameValues
        (instantAggregateViaSql Sql.Engine.stable jobsUp ⟨some "up", []⟩ .sum
          (some (.includes ["job"])) 60000000)
        (aggregateInstantPoints
          (instantSelector Sql.Engine.stable jobsUp ⟨some "up", []⟩ 60000000) .sum
          (some (.includes ["job"])) 60000000) ∧
      SameValues
        (instantAggregateOverRangefnViaSql Sql.Engine.stable jobsUp ⟨some "up", []⟩ 300000000
          .rate .sum (some (.includes ["job"])) 60000000)
        (aggregateInstantPoints
          (instantRangeFnViaSql Sql.Engine.stable jobsUp ⟨some "up", []⟩ 300000000 .rate
            60000000) .sum (some (.includes ["job"])) 60000000) := by
  have hkeys : DistinctKeys jobsUp ⟨some "up", []⟩ := by decide +kernel
  have hmodifier : modifierExcludedKeys (some (.includes ["job"])) = none := rfl
  have hboth := instantAggregate_refines_iff (by decide) (by decide) hkeys rfl (by decide)
    hmodifier Sql.Engine.stable .sum 60000000 300000000 .rate
  exact ⟨hboth.1.mpr fun h => absurd h.1 (by decide), hboth.2.mpr fun h => absurd h.1 (by decide)⟩

/-- **Counting nothing gives a point**: `count(up)` is 0 in the query when there is no series, and
nothing in the program. -/
theorem count_of_nothing :
    ¬SameValues
      (instantAggregateViaSql Sql.Engine.stable (.empty : Tables Exact)
        ⟨some "up", []⟩ .count none 0)
      (aggregateInstantPoints
        (instantSelector Sql.Engine.stable (.empty : Tables Exact)
          ⟨some "up", []⟩ 0) .count none 0) :=
  fun h => absurd ((h (.empty, .num 0)).mp (by decide +kernel)) (by decide +kernel)

end Instant

/-! ### Over a range -/

section Range

variable {E : Sql.Engine} {t : Tables Exact} {sel : VectorSelector} {op : AggOp}
  {modifier : Option LabelModifier}

theorem columnsTimeLe_total (a b : ℤ × List (Option String)) :
    columnsTimeLe a b = true ∨ columnsTimeLe b a = true := by
  simpa only [columnsTimeLe, decide_eq_true_eq] using le_total _ _

theorem columnsTimeLe_trans {a b c : ℤ × List (Option String)} (hab : columnsTimeLe a b = true)
    (hbc : columnsTimeLe b c = true) : columnsTimeLe a c = true := by
  simp only [columnsTimeLe, decide_eq_true_eq] at hab hbc ⊢
  exact hab.trans hbc

/-- Under the same columns, the order of a query is that of the timestamps. -/
theorem le_of_columnsTimeLe {a b : ℤ × List (Option String)} (h : columnsTimeLe a b = true)
    (hcols : a.2 = b.2) : a.1 ≤ b.1 := by
  rw [columnsTimeLe, decide_eq_true_eq, hcols] at h
  rcases Prod.Lex.toLex_le_toLex.mp h with hlt | ⟨-, hle⟩
  · exact absurd hlt (lt_irrefl _)
  · exact hle

variable {points : List (Point ℤ Exact)}

/-- **The groups of a query over a range come in the order of their timestamps.** -/
theorem aggregateByTime_pairwise {F : Type} [F64 F] {t : Tables F} {keys : List String}
    {points : List (Point ℤ F)} :
    (aggregateByTime E t op keys points).Pairwise fun a b => a.2.1 = b.2.1 → a.1 < b.1 := by
  let rows := joinSeries t Point.seriesId points
  let groups := (Sql.groupBy (fun r => (r.1.at_, labelColumns keys r.2)) rows).map fun g =>
    (g.1, aggCall op (g.2.map fun r => r.1.value))
  have hperm : (E.sort (fun a b => columnsTimeLe a.1 b.1) groups).Perm groups := E.sort_perm _ _
  have hnodup : ((E.sort (fun a b => columnsTimeLe a.1 b.1) groups).map Prod.fst).Nodup := by
    rw [(hperm.map Prod.fst).nodup_iff, List.map_map]
    exact Sql.nodup_groupBy_keys _ rows
  have hsorted := E.sort_pairwise (fun a b => columnsTimeLe a.1 b.1) groups
    (fun a b => columnsTimeLe_total a.1 b.1) fun a b c => columnsTimeLe_trans
  have hcols : ∀ g ∈ E.sort (fun a b => columnsTimeLe a.1 b.1) groups,
      ∃ s, g.1.2 = labelColumns keys s := by
    intro g hg
    obtain ⟨g', hg', rfl⟩ := List.mem_map.mp (hperm.mem_iff.mp hg)
    obtain ⟨⟨r, -, hkey⟩, -⟩ := Sql.mem_groupBy.mp hg'
    exact ⟨r.2, (congrArg Prod.snd hkey).symm⟩
  change ((E.sort (fun a b => columnsTimeLe a.1 b.1) groups).map fun g =>
    (g.1.1, decodeLabels keys g.1.2, g.2)).Pairwise _
  rw [List.pairwise_map]
  refine (hsorted.and (List.pairwise_map.mp hnodup)).imp_of_mem fun {a b} ha hb hab hlabels => ?_
  obtain ⟨s, hs⟩ := hcols a ha
  obtain ⟨s', hs'⟩ := hcols b hb
  have heq : a.1.2 = b.1.2 := by
    rw [hs, hs', labelColumns_eq_iff, ← decodeLabels_labelColumns, ← decodeLabels_labelColumns,
      ← hs, ← hs']
    exact hlabels
  refine lt_of_le_of_ne (le_of_columnsTimeLe hab.1 heq) fun hts => hab.2 (Prod.ext hts heq)

/-- **The rows of an aggregation over a range in the query**: for each group of labels and each
timestamp with a value, the aggregate of the values there. -/
theorem mem_aggregateByTime (hm : modifierExcludedKeys modifier = none)
    (hnum : ∀ r ∈ joinSeries t Point.seriesId points, r.1.value.IsNum) {ts : ℤ} {labels : Labels}
    {v : Exact} :
    (ts, labels, some v) ∈ aggregateByTime E t op (aggregateGroupKeys modifier) points ↔
      (∃ r ∈ joinSeries t Point.seriesId points,
        retainedLabels r.2.labels modifier = labels ∧ r.1.at_ = ts) ∧
      v = applyAgg op (((joinSeries t Point.seriesId points).filter fun r =>
        decide (retainedLabels r.2.labels modifier = labels ∧ r.1.at_ = ts)).map
          fun r => r.1.value) := by
  let rows := joinSeries t Point.seriesId points
  let cols := labelColumns (aggregateGroupKeys modifier)
  let decode := decodeLabels (aggregateGroupKeys modifier)
  have hgroups : Sql.groupBy (fun r => (retainedLabels r.2.labels modifier, r.1.at_)) rows =
      (Sql.groupBy (fun r => (r.1.at_, cols r.2)) rows).map
        fun g => ((decode g.1.2, g.1.1), g.2) := by
    refine Sql.groupBy_comp_key (f := fun k : ℤ × List (Option String) => (decode k.2, k.1))
      (fun r _ => ?_) fun r _ r' _ h => ?_
    · rw [retainedLabels_eq hm, ← decodeLabels_labelColumns]
    · obtain ⟨hlabels, hts⟩ := Prod.mk.inj h
      rw [retainedLabels_eq hm, retainedLabels_eq hm, ← labelColumns_eq_iff] at hlabels
      exact Prod.ext hts hlabels
  have hvalue : ∀ g ∈ Sql.groupBy (fun r => (retainedLabels r.2.labels modifier, r.1.at_)) rows,
      aggCall op (g.2.map fun r => r.1.value) =
        some (applyAgg op (g.2.map fun r => r.1.value)) := by
    intro g hg
    refine aggCall_eq op (by simpa using Sql.ne_nil_of_mem_groupBy hg) fun v hv => ?_
    obtain ⟨r, hr, rfl⟩ := List.mem_map.mp hv
    exact hnum r (Sql.mem_of_mem_groupBy hg hr).1
  -- a row of the query is a group by labels and timestamp
  have hmem : (ts, labels, some v) ∈ aggregateByTime E t op (aggregateGroupKeys modifier) points ↔
      ∃ g ∈ Sql.groupBy (fun r => (retainedLabels r.2.labels modifier, r.1.at_)) rows,
        g.1 = (labels, ts) ∧ aggCall op (g.2.map fun r => r.1.value) = some v := by
    simp only [aggregateByTime, List.mem_map, Sql.Engine.mem_sort, hgroups, Prod.mk.injEq]
    constructor
    · rintro ⟨_, ⟨g, hg, rfl⟩, hts, hlabels, hv⟩
      exact ⟨_, ⟨g, hg, rfl⟩, Prod.ext hlabels hts, hv⟩
    · rintro ⟨_, ⟨g, hg, rfl⟩, hkey, hv⟩
      obtain ⟨hlabels, hts⟩ := Prod.mk.inj hkey
      exact ⟨_, ⟨g, hg, rfl⟩, hts, hlabels, hv⟩
  rw [hmem]
  constructor
  · rintro ⟨g, hg, hkey, hv⟩
    rw [hvalue g hg] at hv
    obtain ⟨⟨r, hr, hrkey⟩, hrows⟩ := Sql.mem_groupBy.mp hg
    rw [hkey] at hrkey hrows
    refine ⟨⟨r, hr, congrArg Prod.fst hrkey, congrArg Prod.snd hrkey⟩, ?_⟩
    rw [← Option.some.inj hv, hrows]
    simp only [Prod.mk.injEq]
    rfl
  · rintro ⟨⟨r, hr, hlabels, hts⟩, rfl⟩
    refine ⟨((labels, ts), rows.filter fun r =>
      decide ((retainedLabels r.2.labels modifier, r.1.at_) = (labels, ts))),
      Sql.mem_groupBy.mpr ⟨⟨r, hr, Prod.ext hlabels hts⟩, rfl⟩, rfl, ?_⟩
    rw [hvalue _ (Sql.mem_groupBy.mpr ⟨⟨r, hr, Prod.ext hlabels hts⟩, rfl⟩)]
    simp only [Prod.mk.injEq]
    rfl

/-- **A pushed aggregation over a range is the aggregation of the samples of the window.** -/
theorem rangeAggregate_refines (h : OneRowPerSeries t) (hkeys : DistinctKeys t sel)
    (hregex : sel.RegexFree) (hnum : Numbers t) (hm : modifierExcludedKeys modifier = none)
    (E : Sql.Engine) (op : AggOp) (startUs endUs : ℤ) :
    rangeAggregateViaSql E t sel op modifier startUs endUs =
      aggregateRangePoints (rangeSelector E t sel startUs endUs) op modifier := by
  have hjoin : joinSeries t Point.seriesId (windowPoints t sel startUs endUs) =
      (baseRows t sel startUs endUs).map basePoint := by
    refine joinSeries_map h fun r hr => ?_
    obtain ⟨⟨-, hs, hon⟩, -⟩ := mem_baseRows.mp hr
    exact ⟨hs, hon⟩
  have hvalues : ∀ r ∈ joinSeries t Point.seriesId (windowPoints t sel startUs endUs),
      r.1.value.IsNum := by
    rw [hjoin]
    intro r hr
    obtain ⟨r', hr', rfl⟩ := List.mem_map.mp hr
    exact hnum _ (mem_baseRows.mp hr').1.1
  have hrows : ((rangeSelector E t sel startUs endUs).flatMap RangePoints.rows).Perm _ :=
    flatMap_rangeSelector_perm hkeys hregex.nothingRefused E
  rw [rangeAggregateViaSql, hm]
  refine (grouped_decodeRange aggregateByTime_pairwise).eq_of_mem_rows
    (grouped_aggregateRangePoints _ op modifier) fun r => ?_
  rw [mem_rows_decodeRange, mem_rows_aggregateRangePoints, mem_aggregateByTime hm hvalues,
    and_iff_left rfl, hjoin]
  refine and_congr_right fun _ => and_congr ?_ ?_
  · simp only [hrows.mem_iff, List.mem_map, exists_exists_and_eq_and, basePoint, seriesRow]
  · -- the values of a group are the same, in another order
    have hperm : (((baseRows t sel startUs endUs).map basePoint).filter fun x =>
        decide (retainedLabels x.2.labels modifier = r.labels ∧ x.1.at_ = r.tsUs)).map
          (fun x => x.1.value) |>.Perm
        ((((rangeSelector E t sel startUs endUs).flatMap RangePoints.rows).filter fun x =>
          decide (retainedLabels x.labels modifier = r.labels ∧ x.tsUs = r.tsUs)).map
            SeriesRow.value) := by
      refine List.Perm.trans (List.Perm.of_eq ?_) ((hrows.filter _).map SeriesRow.value).symm
      rw [List.filter_map, List.filter_map, List.map_map, List.map_map]
      rfl
    rw [applyAgg_perm op hperm]
    intro v hv
    obtain ⟨x, hx, rfl⟩ := List.mem_map.mp hv
    exact hvalues x (hjoin ▸ List.mem_of_mem_filter hx)

/-- `avg by (job) (up)` over a minute. -/
theorem rangeAggregate_refines_jobsUp :
    rangeAggregateViaSql Sql.Engine.stable jobsUp ⟨some "up", []⟩ .avg (some (.includes ["job"])) 0
        60000000 =
      aggregateRangePoints (rangeSelector Sql.Engine.stable jobsUp ⟨some "up", []⟩ 0 60000000) .avg
        (some (.includes ["job"])) :=
  have hkeys : DistinctKeys jobsUp ⟨some "up", []⟩ := by decide +kernel
  rangeAggregate_refines (by decide) hkeys rfl (by decide) rfl Sql.Engine.stable .avg 0 60000000

end Range

end Skaldberg.Prometheus
