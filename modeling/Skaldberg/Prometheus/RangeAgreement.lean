import Skaldberg.Prometheus.RangeWindows
import Skaldberg.Prometheus.SeriesKey

/-!
# Range functions at an instant and in a matrix

A matrix query of a range function is the counterpart of an instant query, and its values at an
evaluation timestamp ought to be those of the instant query at that time. They are computed from
windows that differ at their left edge, and the matrix query collects them by the keys of the
series. `rangeFns_agree_iff` says exactly when this makes no difference: a sample on the left edge
of a window adds nothing to the value, and no two series with values share a key (`EdgesHarmless`);
and windows that have no calendar dates, and are others than were asked for, have the same value
(`UndatedAlike`).
-/

namespace Skaldberg.Prometheus

/-! ### What the two queries emit -/

/-- The values of the series that an instant query returns. -/
def instantValues {F : Type} (answer : List (InstantPoint F)) : List (String × Labels × F) :=
  answer.map fun p => (p.metricName, p.labels, p.value)

/-- The values of the series that a matrix query returns for an evaluation timestamp. -/
def emittedAt {F : Type} (answer : List (RangePoints F)) (timeUs : ℤ) :
    List (String × Labels × F) :=
  answer.flatMap fun s =>
    (s.points.filter fun p => decide (p.1 = timeUs)).map fun p => (s.metricName, s.labels, p.2)

variable {t : Tables Exact} {sel : VectorSelector} {op : RangeFnOp}
  {rangeUs startUs endUs stepUs timeUs : ℤ} {evals : List ℤ}

theorem mem_emittedAt {F : Type} {answer : List (RangePoints F)} {name : String} {labels : Labels}
    {v : F} : (name, labels, v) ∈ emittedAt answer timeUs ↔
      (⟨name, labels, timeUs, v⟩ : SeriesRow F) ∈ answer.flatMap RangePoints.rows := by
  simp only [emittedAt, RangePoints.rows, List.mem_flatMap, List.mem_map, List.mem_filter,
    decide_eq_true_eq, Prod.mk.injEq, SeriesRow.mk.injEq]
  constructor
  · rintro ⟨s, hs, p, ⟨hp, hat⟩, rfl, rfl, rfl⟩
    exact ⟨s, hs, p, hp, rfl, rfl, hat, rfl⟩
  · rintro ⟨s, hs, p, hp, rfl, rfl, hat, rfl⟩
    exact ⟨s, hs, p, ⟨hp, hat⟩, rfl, rfl, rfl⟩

/-! ### The evaluation timestamps -/

/-- **A grid that is accepted** is the one asked for. -/
theorem isGrid_of_evalGrid (hstart : IsI64 startUs) (hend : IsI64 endUs) (hstep : 0 < stepUs)
    (hgrid : evalGrid startUs endUs stepUs = .ok evals) : IsGrid startUs endUs stepUs evals := by
  by_cases hmax : endUs = 9223372036854775807
  · subst hmax
    rw [evalGrid_of_end_max hstart] at hgrid
    cases hgrid
  · rw [evalGrid_eq hstart hend hstep (.inl hmax)] at hgrid
    split_ifs at hgrid
    cases hgrid
    exact isGrid_gridPoints startUs endUs hstep

theorem IsGrid.gridTime (h : IsGrid startUs endUs stepUs evals) (hrange : IsI64 rangeUs)
    (hpos : 0 < rangeUs) (hstart : IsI64 startUs) (hend : IsI64 endUs) (hstep : 0 < stepUs)
    (htime : timeUs ∈ evals) : GridTime rangeUs startUs endUs timeUs := by
  obtain ⟨⟨k, hk⟩, hle⟩ := (h.mem timeUs).mp htime
  have hnonneg : 0 ≤ (k : ℤ) * stepUs := mul_nonneg (Int.natCast_nonneg k) hstep.le
  exact ⟨hrange, hpos, hstart, hend, by omega, hle⟩

/-! ### What is emitted -/

section Points

variable (hnum : Numbers t) (hts : DistinctSamples t)
include hnum hts

theorem mem_instantPoints (h : GridTime rangeUs startUs endUs timeUs) (E : Sql.Engine) {sid : ℤ}
    {v : Exact} :
    (⟨(), sid, v⟩ : Point Unit Exact) ∈ perSeriesRangefnCtes E t sel op rangeUs timeUs ↔
      (rangeValue op (instantReadings t sel rangeUs timeUs sid)).map .num = some v := by
  rw [← windowValue_instantBase h hnum hts op E]
  exact mem_perSeriesRangefn_iff (k := ((), sid)) E op v

theorem mem_matrixPoints (h : ∀ et ∈ evals, GridTime rangeUs startUs endUs et)
    (hnodup : evals.Nodup) (E : Sql.Engine) {sid : ℤ} {v : Exact} :
    (⟨timeUs, sid, v⟩ : Point ℤ Exact) ∈
        perSeriesRangefnRangeCtes E t sel op rangeUs evals startUs endUs ↔
      timeUs ∈ evals ∧
        (rangeValue op (matrixReadings t sel rangeUs startUs endUs timeUs sid)).map .num =
          some v := by
  have hvalue : timeUs ∈ evals → ((⟨timeUs, sid, v⟩ : Point ℤ Exact) ∈
      perSeriesRangefnRangeCtes E t sel op rangeUs evals startUs endUs ↔
        (rangeValue op (matrixReadings t sel rangeUs startUs endUs timeUs sid)).map .num =
          some v) := by
    intro htime
    rw [← windowValue_rangeBase (h timeUs htime) hnum hts hnodup htime op E]
    exact mem_perSeriesRangefn_iff (k := (timeUs, sid)) E op v
  refine ⟨fun hmem => ?_, fun ⟨htime, hv⟩ => (hvalue htime).mpr hv⟩
  have htime : timeUs ∈ evals := by
    obtain ⟨b, hb, hat, -⟩ := exists_base_of_mem_perSeries hmem
    rw [rangeBase_eq] at hb
    obtain ⟨et, het, hb⟩ := List.mem_flatMap.mp hb
    obtain ⟨r, -, rfl⟩ := List.mem_map.mp hb
    exact (show et = timeUs from hat) ▸ het
  exact ⟨htime, (hvalue htime).mp hmem⟩

end Points

theorem isFinite_of_map_num {q : Option ℚ} {v : Exact} (h : q.map .num = some v) :
    F64.isFinite v = true := by
  obtain ⟨p, -, rfl⟩ := Option.map_eq_some_iff.mp h
  exact Exact.isFinite_iff.mpr ⟨p, rfl⟩

/-- **What the instant query emits**: the value of the window of each series that the program
accepts. -/
theorem mem_instantValues (h : GridTime rangeUs startUs endUs timeUs) (hnum : Numbers t)
    (hts : DistinctSamples t) (E : Sql.Engine) {name : String} {labels : Labels} {v : Exact} :
    (name, labels, v) ∈ instantValues (instantRangeFnViaSql E t sel rangeUs op timeUs) ↔
      ∃ s ∈ t.series, sel.postFilter s.labels = true ∧ s.metricName = name ∧ s.labels = labels ∧
        (rangeValue op (instantReadings t sel rangeUs timeUs s.seriesId)).map .num = some v := by
  simp only [instantValues, instantRangeFnViaSql, decodeInstantRows, joinSeries, List.map_map,
    List.mem_map, List.mem_filter, Sql.mem_join, beq_iff_eq, Bool.and_eq_true, Function.comp_apply,
    Prod.mk.injEq]
  constructor
  · rintro ⟨⟨x, s⟩, ⟨⟨hpoint, hs, hid⟩, hpost, -⟩, rfl, rfl, rfl⟩
    refine ⟨s, hs, hpost, rfl, rfl, (mem_instantPoints hnum hts h E).mp ?_⟩
    rw [← show x.seriesId = s.seriesId from hid]
    exact hpoint
  · rintro ⟨s, hs, hpost, rfl, rfl, hv⟩
    exact ⟨(⟨(), s.seriesId, v⟩, s), ⟨⟨(mem_instantPoints hnum hts h E).mpr hv, hs, rfl⟩, hpost,
      isFinite_of_map_num hv⟩, rfl, rfl, rfl⟩

/-- The rows of a matrix query that the program collects. -/
def matrixRows (E : Sql.Engine) (t : Tables Exact) (sel : VectorSelector) (op : RangeFnOp)
    (rangeUs : ℤ) (evals : List ℤ) (startUs endUs : ℤ) : List (SeriesRow Exact) :=
  ((orderByNameTime E (joinSeries t Point.seriesId
    (perSeriesRangefnRangeCtes E t sel op rangeUs evals startUs endUs))).filter fun r =>
      sel.postFilter r.2.labels && F64.isFinite r.1.value).map pointRow

/-- **What the matrix query collects**: the value of each window of each series that the program
accepts. -/
theorem mem_matrixRows (h : ∀ et ∈ evals, GridTime rangeUs startUs endUs et) (hnum : Numbers t)
    (hts : DistinctSamples t) (hnodup : evals.Nodup) (E : Sql.Engine) {name : String}
    {labels : Labels} {v : Exact} :
    (⟨name, labels, timeUs, v⟩ : SeriesRow Exact) ∈
        matrixRows E t sel op rangeUs evals startUs endUs ↔
      timeUs ∈ evals ∧ ∃ s ∈ t.series, sel.postFilter s.labels = true ∧ s.metricName = name ∧
        s.labels = labels ∧
        (rangeValue op (matrixReadings t sel rangeUs startUs endUs timeUs s.seriesId)).map .num =
          some v := by
  simp only [matrixRows, orderByNameTime, joinSeries, List.mem_map, List.mem_filter,
    Sql.Engine.mem_sort, Sql.mem_join, beq_iff_eq, Bool.and_eq_true, pointRow, SeriesRow.mk.injEq]
  constructor
  · rintro ⟨⟨x, s⟩, ⟨⟨hpoint, hs, hid⟩, hpost, -⟩, rfl, rfl, rfl, rfl⟩
    have hown : (⟨x.at_, s.seriesId, x.value⟩ : Point ℤ Exact) ∈
        perSeriesRangefnRangeCtes E t sel op rangeUs evals startUs endUs := by
      rw [← show x.seriesId = s.seriesId from hid]
      exact hpoint
    obtain ⟨htime, hv⟩ := (mem_matrixPoints hnum hts h hnodup E).mp hown
    exact ⟨htime, s, hs, hpost, rfl, rfl, hv⟩
  · rintro ⟨htime, s, hs, hpost, rfl, rfl, hv⟩
    exact ⟨(⟨timeUs, s.seriesId, v⟩, s),
      ⟨⟨(mem_matrixPoints hnum hts h hnodup E).mpr ⟨htime, hv⟩, hs, rfl⟩, hpost,
        isFinite_of_map_num hv⟩, rfl, rfl, rfl, rfl⟩

/-- **The answer of a matrix query** whose grid is accepted. -/
theorem rangeRangeFnViaSql_eq (hgrid : evalGrid startUs endUs stepUs = .ok evals)
    (E : Sql.Engine) :
    rangeRangeFnViaSql E t sel rangeUs op startUs endUs stepUs =
      .ok (groupRowsBySeries (matrixRows E t sel op rangeUs evals startUs endUs)).values := by
  rw [rangeRangeFnViaSql, hgrid]
  cases evals with
  | nil =>
    have hbase : rangeBase t sel rangeUs [] startUs endUs = [] := rangeBase_eq []
    rw [matrixRows, perSeriesRangefnRangeCtes, hbase, perSeriesRangefn_eq]
    simp [Sql.groupBy, joinSeries, Sql.join, orderByNameTime]
    rfl
  | cons et evals => rfl

/-! ### Series that share a key -/

/-- A series that the program collects is under the key of its metric name and its labels. -/
theorem seriesKey_collected {F : Type} {rows : List (SeriesRow F)} {r : SeriesRow F}
    {s : RangePoints F} (hr : r ∈ rows) (hs : s = collected (rows.filter fun r' =>
      decide (seriesKey r'.metricName r'.labels = seriesKey r.metricName r.labels))) :
    seriesKey s.metricName s.labels = seriesKey r.metricName r.labels := by
  have hmem : r ∈ rows.filter fun r' =>
      decide (seriesKey r'.metricName r'.labels = seriesKey r.metricName r.labels) :=
    List.mem_filter.mpr ⟨hr, decide_eq_true rfl⟩
  obtain ⟨first, rest, hfirst⟩ := List.exists_cons_of_ne_nil (List.ne_nil_of_mem hmem)
  have hkey := (List.mem_filter.mp (hfirst ▸ List.mem_cons_self .. : first ∈ _)).2
  rw [hs, hfirst]
  exact of_decide_eq_true hkey

/-- **A key has one series** in the answer of a matrix query. -/
theorem eq_of_seriesKey_eq {F : Type} {rows : List (SeriesRow F)} {s s' : RangePoints F}
    (hs : s ∈ (groupRowsBySeries rows).values) (hs' : s' ∈ (groupRowsBySeries rows).values)
    (hkey : seriesKey s.metricName s.labels = seriesKey s'.metricName s'.labels) : s = s' := by
  obtain ⟨r, hr, hrs⟩ := mem_groupRowsBySeries.mp hs
  obtain ⟨r', hr', hrs'⟩ := mem_groupRowsBySeries.mp hs'
  rw [seriesKey_collected hr hrs, seriesKey_collected hr' hrs'] at hkey
  rw [hrs, hrs', hkey]

/-! ### When the two queries agree -/

/-- A series has one identity, as it is derived from the metric name and the labels. -/
def OneIdentity {F : Type} (t : Tables F) : Prop :=
  ∀ s ∈ t.series, ∀ s' ∈ t.series, s.metricName = s'.metricName → s.labels = s'.labels →
    s.seriesId = s'.seriesId

/-- What is said of the series with a metric name and labels is said of one. -/
theorem OneIdentity.exists_iff {F : Type} {t : Tables F} (hid : OneIdentity t)
    {s : Skaldberg.SeriesRow} (hs : s ∈ t.series) (hpost : sel.postFilter s.labels = true)
    (P : ℤ → Prop) :
    (∃ s' ∈ t.series, sel.postFilter s'.labels = true ∧ s'.metricName = s.metricName ∧
      s'.labels = s.labels ∧ P s'.seriesId) ↔ P s.seriesId := by
  constructor
  · rintro ⟨s', hs', -, hname, hlabels, hP⟩
    rwa [hid s hs s' hs' hname.symm hlabels.symm]
  · exact fun hP => ⟨s, hs, hpost, rfl, rfl, hP⟩

/-- Registered series have one identity. -/
theorem ValidatedTables.oneIdentity {F : Type} {xxh3 : List UInt8 → UInt64} {t : Tables F}
    (h : ValidatedTables xxh3 t) : OneIdentity t := fun _ hs _ hs' hname hlabels =>
  congrArg Skaldberg.SeriesRow.seriesId (h.series_eq hs hs' hname hlabels)

/-- For each evaluation timestamp, the matrix query emits the values that the instant query emits at
that time, in whatever order either of them sees rows that it cannot tell apart. -/
def RangeFnsAgree (t : Tables Exact) (sel : VectorSelector) (op : RangeFnOp)
    (rangeUs startUs endUs stepUs : ℤ) (evals : List ℤ) : Prop :=
  ∀ E E' : Sql.Engine, ∃ answer,
    rangeRangeFnViaSql E t sel rangeUs op startUs endUs stepUs = .ok answer ∧
      ∀ timeUs ∈ evals, ∀ x, x ∈ emittedAt answer timeUs ↔
        x ∈ instantValues (instantRangeFnViaSql E' t sel rangeUs op timeUs)

/-- The matrix query has a value for a series, at some evaluation timestamp. -/
def HasValues (t : Tables Exact) (sel : VectorSelector) (rangeUs startUs endUs : ℤ)
    (evals : List ℤ) (s : Skaldberg.SeriesRow) : Prop :=
  sel.postFilter s.labels = true ∧ ∃ timeUs ∈ evals,
    2 ≤ (matrixReadings t sel rangeUs startUs endUs timeUs s.seriesId).length

/-- Neither the left edges of the windows nor the keys of the series make a difference. -/
structure EdgesHarmless (t : Tables Exact) (sel : VectorSelector) (op : RangeFnOp)
    (rangeUs startUs endUs : ℤ) (evals : List ℤ) : Prop where
  /-- No two series with values share a key. -/
  keys : ∀ s ∈ t.series, ∀ s' ∈ t.series, HasValues t sel rangeUs startUs endUs evals s →
    HasValues t sel rangeUs startUs endUs evals s' →
      seriesKey s.metricName s.labels = seriesKey s'.metricName s'.labels →
        s.metricName = s'.metricName ∧ s.labels = s'.labels
  /-- Where the ranges have calendar dates, a sample on the left edge of a window makes no
  difference. -/
  edges : DatedRanges rangeUs startUs endUs → ∀ s ∈ t.series, sel.postFilter s.labels = true →
    ∀ timeUs ∈ evals, ∀ e ∈ readings t sel s.seriesId, e.1 = timeUs - rangeUs →
      Harmless op e (matrixReadings t sel rangeUs startUs endUs timeUs s.seriesId)

/-- Where the ranges have no calendar dates, the readings of the two windows, which the literals cut
elsewhere, have the same value. -/
def UndatedAlike (t : Tables Exact) (sel : VectorSelector) (op : RangeFnOp)
    (rangeUs startUs endUs : ℤ) (evals : List ℤ) : Prop :=
  ¬DatedRanges rangeUs startUs endUs → ∀ s ∈ t.series, sel.postFilter s.labels = true →
    ∀ timeUs ∈ evals, rangeValue op (instantReadings t sel rangeUs timeUs s.seriesId) =
      rangeValue op (matrixReadings t sel rangeUs startUs endUs timeUs s.seriesId)

/-- **When the two windows have one value**: a reading on the left edge makes no difference. -/
theorem GridTime.rangeValue_eq_iff (h : GridTime rangeUs startUs endUs timeUs)
    (hdated : DatedRanges rangeUs startUs endUs) (hts : DistinctSamples t) (sid : ℤ) :
    rangeValue op (instantReadings t sel rangeUs timeUs sid) =
        rangeValue op (matrixReadings t sel rangeUs startUs endUs timeUs sid) ↔
      ∀ e ∈ readings t sel sid, e.1 = timeUs - rangeUs →
        Harmless op e (matrixReadings t sel rangeUs startUs endUs timeUs sid) := by
  have hsorted := readings_sorted hts sel sid
  by_cases hedge : ∃ e ∈ readings t sel sid, e.1 = timeUs - rangeUs
  · obtain ⟨e, he, hat⟩ := hedge
    have hcons := h.instantReadings_eq_cons hdated hts he hat
    have hwindow : ((instantReadings t sel rangeUs timeUs sid).map Prod.fst).Pairwise (· < ·) :=
      hsorted.sublist (List.filter_sublist.map _)
    rw [hcons] at hwindow ⊢
    rw [rangeValue_cons_eq_iff hwindow]
    refine ⟨fun hharm e' he' hat' => ?_, fun hall => hall e he hat⟩
    rwa [List.inj_on_of_nodup_map (hsorted.imp ne_of_lt) he' he (hat'.trans hat.symm)]
  · have hnone : ∀ e ∈ readings t sel sid, e.1 ≠ timeUs - rangeUs := fun e he hat =>
      hedge ⟨e, he, hat⟩
    rw [h.instantReadings_eq_matrixReadings hdated hnone]
    exact iff_of_true rfl fun e he hat => absurd hat (hnone e he)

theorem GridTime.length_matrixReadings_le (h : GridTime rangeUs startUs endUs timeUs) (sid : ℤ) :
    (matrixReadings t sel rangeUs startUs endUs timeUs sid).length ≤
      (instantReadings t sel rangeUs timeUs sid).length :=
  (List.monotone_filter_right _ fun _ hin =>
    h.inInstantWindow_of_inMatrixWindow hin).length_le

section Agreement

variable (h : ∀ et ∈ evals, GridTime rangeUs startUs endUs et) (hnum : Numbers t)
  (hts : DistinctSamples t) (hnodup : evals.Nodup)

/-- The edges of all windows are harmless when the two windows always have one value. -/
theorem forall_rangeValue_eq_iff (op : RangeFnOp) (sel : VectorSelector)
    (h : ∀ et ∈ evals, GridTime rangeUs startUs endUs et) (hts : DistinctSamples t) :
    (∀ s ∈ t.series, sel.postFilter s.labels = true → ∀ timeUs ∈ evals,
      rangeValue op (instantReadings t sel rangeUs timeUs s.seriesId) =
        rangeValue op (matrixReadings t sel rangeUs startUs endUs timeUs s.seriesId)) ↔
      (DatedRanges rangeUs startUs endUs → ∀ s ∈ t.series, sel.postFilter s.labels = true →
        ∀ timeUs ∈ evals, ∀ e ∈ readings t sel s.seriesId, e.1 = timeUs - rangeUs →
          Harmless op e (matrixReadings t sel rangeUs startUs endUs timeUs s.seriesId)) ∧
      UndatedAlike t sel op rangeUs startUs endUs evals := by
  rw [UndatedAlike]
  by_cases hdated : DatedRanges rangeUs startUs endUs
  · rw [forall_prop_of_true hdated, and_iff_left fun hnot => absurd hdated hnot]
    refine forall₂_congr fun s _ => forall_congr' fun _ => forall₂_congr fun timeUs htime => ?_
    exact (h timeUs htime).rangeValue_eq_iff hdated hts s.seriesId
  · rw [forall_prop_of_true hdated, and_iff_right fun hyes => absurd hyes hdated]

include h hnum hts hnodup

/-- A row that the program collects is that of a series with values. -/
theorem exists_hasValues {E : Sql.Engine} {r : SeriesRow Exact}
    (hr : r ∈ matrixRows E t sel op rangeUs evals startUs endUs) :
    ∃ s ∈ t.series, HasValues t sel rangeUs startUs endUs evals s ∧ s.metricName = r.metricName ∧
      s.labels = r.labels := by
  obtain ⟨htime, s, hs, hpost, hname, hlabels, hv⟩ := (mem_matrixRows h hnum hts hnodup E).mp hr
  refine ⟨s, hs, ⟨hpost, r.tsUs, htime, ?_⟩, hname, hlabels⟩
  rw [← isSome_rangeValue op, ← Option.isSome_map (f := Exact.num), hv, Option.isSome_some]

/-- **Where no two series with values share a key**, the matrix query emits what it collects. -/
theorem mem_emittedAt_iff_mem_matrixRows
    (hkeys : ∀ s ∈ t.series, ∀ s' ∈ t.series, HasValues t sel rangeUs startUs endUs evals s →
      HasValues t sel rangeUs startUs endUs evals s' →
        seriesKey s.metricName s.labels = seriesKey s'.metricName s'.labels →
          s.metricName = s'.metricName ∧ s.labels = s'.labels) (E : Sql.Engine) {name : String}
    {labels : Labels} {v : Exact} :
    (name, labels, v) ∈ emittedAt (groupRowsBySeries
        (matrixRows E t sel op rangeUs evals startUs endUs)).values timeUs ↔
      (⟨name, labels, timeUs, v⟩ : SeriesRow Exact) ∈
        matrixRows E t sel op rangeUs evals startUs endUs := by
  rw [mem_emittedAt]
  refine (flatMap_groupRowsBySeries_perm fun a ha b hb hkey => ?_).mem_iff
  obtain ⟨s, hs, hvalues, hname, hlabels⟩ := exists_hasValues h hnum hts hnodup ha
  obtain ⟨s', hs', hvalues', hname', hlabels'⟩ := exists_hasValues h hnum hts hnodup hb
  rw [← hname, ← hlabels, ← hname', ← hlabels'] at hkey ⊢
  exact hkeys s hs s' hs' hvalues hvalues' hkey

omit hnodup in
/-- **An agreement tells series apart**: a series that shares its key with another one is not
emitted by the matrix query, and is by the instant query. -/
theorem keys_of_agree (hgrid : evalGrid startUs endUs stepUs = .ok evals)
    (hagree : RangeFnsAgree t sel op rangeUs startUs endUs stepUs evals) :
    ∀ s ∈ t.series, ∀ s' ∈ t.series, HasValues t sel rangeUs startUs endUs evals s →
      HasValues t sel rangeUs startUs endUs evals s' →
        seriesKey s.metricName s.labels = seriesKey s'.metricName s'.labels →
          s.metricName = s'.metricName ∧ s.labels = s'.labels := by
  let E := Sql.Engine.stable
  obtain ⟨answer, hanswer, hall⟩ := hagree E E
  rw [rangeRangeFnViaSql_eq hgrid] at hanswer
  cases hanswer
  -- a series with values is in the answer of the matrix query
  have hentry : ∀ s ∈ t.series, HasValues t sel rangeUs startUs endUs evals s →
      ∃ e ∈ (groupRowsBySeries (matrixRows E t sel op rangeUs evals startUs endUs)).values,
        e.metricName = s.metricName ∧ e.labels = s.labels := by
    rintro s hs ⟨hpost, timeUs, htime, hlen⟩
    obtain ⟨v, hv⟩ := Option.isSome_iff_exists.mp ((isSome_rangeValue op _).mpr
      (hlen.trans ((h timeUs htime).length_matrixReadings_le s.seriesId)))
    have hinst : (s.metricName, s.labels, Exact.num v) ∈
        instantValues (instantRangeFnViaSql E t sel rangeUs op timeUs) :=
      (mem_instantValues (h timeUs htime) hnum hts E).mpr
        ⟨s, hs, hpost, rfl, rfl, congrArg (Option.map Exact.num) hv⟩
    obtain ⟨e, he, hrow⟩ := List.mem_flatMap.mp (mem_emittedAt.mp ((hall timeUs htime _).mpr hinst))
    obtain ⟨p, -, hp⟩ := List.mem_map.mp hrow
    exact ⟨e, he, congrArg SeriesRow.metricName hp, congrArg SeriesRow.labels hp⟩
  intro s hs s' hs' hvalues hvalues' hkey
  obtain ⟨e, he, hname, hlabels⟩ := hentry s hs hvalues
  obtain ⟨e', he', hname', hlabels'⟩ := hentry s' hs' hvalues'
  rw [← hname, ← hlabels, ← hname', ← hlabels'] at hkey ⊢
  rw [eq_of_seriesKey_eq he he' hkey]
  exact ⟨rfl, rfl⟩

end Agreement

/-- **When instant and matrix range functions agree**: exactly when the edges of the windows are
harmless, and windows without dates have one value. -/
theorem rangeFns_agree_iff (op : RangeFnOp) (t : Tables Exact) (sel : VectorSelector)
    (rangeUs startUs endUs stepUs : ℤ) (evals : List ℤ) (hnum : Numbers t)
    (hts : DistinctSamples t) (hid : OneIdentity t) (hrange : IsI64 rangeUs) (hpos : 0 < rangeUs)
    (hstart : IsI64 startUs) (hend : IsI64 endUs) (hstep : 0 < stepUs)
    (hgrid : evalGrid startUs endUs stepUs = .ok evals) :
    RangeFnsAgree t sel op rangeUs startUs endUs stepUs evals ↔
      EdgesHarmless t sel op rangeUs startUs endUs evals ∧
        UndatedAlike t sel op rangeUs startUs endUs evals := by
  have hevals := isGrid_of_evalGrid hstart hend hstep hgrid
  have hnodup : evals.Nodup := hevals.increasing.imp ne_of_lt
  have h : ∀ et ∈ evals, GridTime rangeUs startUs endUs et := fun et het =>
    hevals.gridTime hrange hpos hstart hend hstep het
  have hsplit := forall_rangeValue_eq_iff op sel h hts
  constructor
  · intro hagree
    have hkeys := keys_of_agree h hnum hts hgrid hagree
    obtain ⟨answer, hanswer, hall⟩ := hagree Sql.Engine.stable Sql.Engine.stable
    rw [rangeRangeFnViaSql_eq hgrid] at hanswer
    cases hanswer
    have hvalues : ∀ s ∈ t.series, sel.postFilter s.labels = true → ∀ timeUs ∈ evals,
        rangeValue op (instantReadings t sel rangeUs timeUs s.seriesId) =
          rangeValue op (matrixReadings t sel rangeUs startUs endUs timeUs s.seriesId) := by
      intro s hs hpost timeUs htime
      refine Option.map_injective (fun _ _ => Exact.num.inj) (Option.ext fun v => ?_)
      have hemitted := hall timeUs htime (s.metricName, s.labels, v)
      rw [mem_emittedAt_iff_mem_matrixRows h hnum hts hnodup hkeys,
        mem_matrixRows h hnum hts hnodup, mem_instantValues (h timeUs htime) hnum hts,
        and_iff_right htime] at hemitted
      rw [hid.exists_iff hs hpost fun sid => (rangeValue op
          (matrixReadings t sel rangeUs startUs endUs timeUs sid)).map Exact.num = some v,
        hid.exists_iff hs hpost fun sid => (rangeValue op
          (instantReadings t sel rangeUs timeUs sid)).map Exact.num = some v] at hemitted
      exact hemitted.symm
    obtain ⟨hedges, hundated⟩ := hsplit.mp hvalues
    exact ⟨⟨hkeys, hedges⟩, hundated⟩
  · rintro ⟨⟨hkeys, hedges⟩, hundated⟩ E E'
    have hvalues := hsplit.mpr ⟨hedges, hundated⟩
    refine ⟨_, rangeRangeFnViaSql_eq hgrid E, fun timeUs htime x => ?_⟩
    obtain ⟨name, labels, v⟩ := x
    rw [mem_emittedAt_iff_mem_matrixRows h hnum hts hnodup hkeys, mem_matrixRows h hnum hts hnodup,
      mem_instantValues (h timeUs htime) hnum hts, and_iff_right htime]
    refine exists_congr fun s => and_congr_right fun hs => and_congr_right fun hpost => ?_
    rw [hvalues s hs hpost timeUs htime]

/-- A counter that is scraped every half minute, and grows steadily. -/
def steadyCounter : Tables Exact :=
  ⟨[⟨1, 0, .num 0⟩, ⟨1, 30000000, .num 30⟩, ⟨1, 60000000, .num 60⟩], [⟨1, "hits", .empty⟩]⟩

theorem oneIdentity_steadyCounter : OneIdentity steadyCounter := by
  intro s hs s' hs' _ _
  rw [List.mem_singleton.mp hs, List.mem_singleton.mp hs']

/-- Its rate over a minute is the same with the sample on the left edge and without it. -/
theorem rangeFns_agree_iff_steadyCounter :
    RangeFnsAgree steadyCounter ⟨some "hits", []⟩ .rate 60000000 60000000 60000000 60000000
      [60000000] := by
  refine (rangeFns_agree_iff .rate steadyCounter ⟨some "hits", []⟩ 60000000 60000000 60000000
    60000000 [60000000] (by decide +kernel) (by decide +kernel) oneIdentity_steadyCounter
    (by decide) (by decide) (by decide) (by decide) (by decide) (by decide +kernel)).mpr
      ⟨⟨?_, ?_⟩, ?_⟩
  · intro s hs s' hs' _ _ _
    rw [List.mem_singleton.mp hs, List.mem_singleton.mp hs']
    exact ⟨rfl, rfl⟩
  · intro _
    decide +kernel
  · intro hundated
    exact absurd (by decide : InRangeMicros (60000000 - 60000000) ∧ InRangeMicros 60000000) hundated

/-- **A sample on the left edge** is in one window and not in the other: of a counter with two
samples a half minute apart, the instant query knows the increase over that half minute, and the
matrix query does not. -/
theorem left_edge_in_one_window :
    DistinctSamples steadyCounter ∧ Numbers steadyCounter ∧ OneIdentity steadyCounter ∧
      evalGrid 30000000 30000000 30000000 = .ok [30000000] ∧
      rangeRangeFnViaSql Sql.Engine.stable steadyCounter ⟨some "hits", []⟩ 30000000 .increase
        30000000 30000000 30000000 = .ok [] ∧
      instantRangeFnViaSql Sql.Engine.stable steadyCounter ⟨some "hits", []⟩ 30000000 .increase
        30000000 = [⟨"hits", .empty, 30000000, .num 30⟩] ∧
      ¬RangeFnsAgree steadyCounter ⟨some "hits", []⟩ .increase 30000000 30000000 30000000 30000000
        [30000000] := by
  have hmatrix : rangeRangeFnViaSql Sql.Engine.stable steadyCounter ⟨some "hits", []⟩ 30000000
      .increase 30000000 30000000 30000000 = .ok [] := by decide +kernel
  have hinstant : instantRangeFnViaSql Sql.Engine.stable steadyCounter ⟨some "hits", []⟩ 30000000
      .increase 30000000 = [⟨"hits", .empty, 30000000, .num 30⟩] := by decide +kernel
  refine ⟨by decide +kernel, by decide +kernel, oneIdentity_steadyCounter, by decide +kernel,
    hmatrix, hinstant, fun hagree => ?_⟩
  obtain ⟨answer, hanswer, hall⟩ := hagree Sql.Engine.stable Sql.Engine.stable
  rw [hmatrix] at hanswer
  cases hanswer
  have hemitted := (hall 30000000 (List.mem_singleton_self _) ("hits", .empty, .num 30)).mpr (by
    rw [hinstant]
    exact List.mem_singleton_self _)
  exact List.not_mem_nil hemitted

end Skaldberg.Prometheus
