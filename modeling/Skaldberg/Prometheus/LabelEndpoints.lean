import Mathlib.Data.Finset.Sort
import Skaldberg.Prometheus.StoreAnswers

/-!
# The labels of the series

`/api/v1/labels` lists the names of the labels that series have, and `__name__`;
`/api/v1/label/{name}/values` the values that a label has, or the metric names. Both read the
`series` table alone. That the table has a series does not say that there is a sample of it, nor
that a selector finds it: but a server registers a series behind the samples of a flush, and what it
registers is what its store calls listed. So both endpoints list what the visible samples have
(`labelEndpoints_of_run`), and a value is listed exactly when a selector for it finds points in some
window (`mem_labelValues_iff_rangeSelector`).
-/

namespace Skaldberg.Prometheus

variable {F R : Type}

/-! ### The endpoints -/

/-- `labels`: the names of labels, in order. -/
def labels (E : Sql.Engine) (t : Tables F) : List String :=
  ((E.distinct (t.series.flatMap fun s => s.labels.keys)).foldl (fun keys k => insert k keys)
    ({"__name__"} : Finset String)).sort

/-- `label_values`: the values of a label, in order. The condition of the query is that there is a
value, so that no row is left for the program to pass over. -/
def labelValues (E : Sql.Engine) (t : Tables F) (name : String) : List String :=
  if name = "__name__" then E.distinct (t.series.map Skaldberg.SeriesRow.metricName)
  else E.distinct (t.series.filterMap fun s => elementAt s.labels name)

/-- The selector for a value of a label: `{name="v"}`. -/
def equalTo (name v : String) : VectorSelector := ⟨none, [⟨.equal, name, v⟩]⟩

/-! ### What is listed -/

variable {E : Sql.Engine} {t : Tables F} {name k v : String} {s : Skaldberg.SeriesRow}

theorem pairwise_labels (E : Sql.Engine) (t : Tables F) : (labels E t).Pairwise (· < ·) :=
  (Finset.sortedLT_sort _).pairwise

/-- The names that are listed. -/
theorem mem_labels :
    k ∈ labels E t ↔ k = "__name__" ∨ ∃ s ∈ t.series, (elementAt s.labels k).isSome := by
  have hfold : ∀ (l : List String) (keys : Finset String),
      k ∈ l.foldl (fun keys k => insert k keys) keys ↔ k ∈ keys ∨ k ∈ l := by
    intro l
    induction l with
    | nil => simp
    | cons k' l ih =>
      intro keys
      rw [List.foldl_cons, ih, Finset.mem_insert, List.mem_cons, or_comm (a := k = k'), or_assoc]
  rw [labels, Finset.mem_sort, hfold, Finset.mem_singleton, Sql.Engine.mem_distinct,
    List.mem_flatMap]
  refine or_congr_right (exists_congr fun s => and_congr_right fun _ => ?_)
  exact SortedMap.contains_iff_mem_keys.symm

theorem pairwise_labelValues (E : Sql.Engine) (t : Tables F) (name : String) :
    (labelValues E t name).Pairwise (· < ·) := by
  rw [labelValues]
  split_ifs
  · exact E.pairwise_distinct _
  · exact E.pairwise_distinct _

/-- What the query of a selector for a value finds. -/
theorem pushed_equalTo :
    (equalTo name v).pushed s = true ↔
      if name = "__name__" then s.metricName = v else elementAt s.labels name = some v := by
  rw [pushed_iff]
  split_ifs with hname
  · subst hname
    simp [equalTo, effectiveMetricName, labelPredicate]
  · rcases hv : elementAt s.labels name with _ | v'
    · simp [equalTo, effectiveMetricName, labelPredicate, hname, SeriesCond.eval, Sql.compare, hv]
    · simp [equalTo, effectiveMetricName, labelPredicate, hname, SeriesCond.eval, Sql.compare, hv]

/-- **The values that are listed** are those that a selector for them finds a series with. -/
theorem mem_labelValues :
    v ∈ labelValues E t name ↔ ∃ s ∈ t.series, (equalTo name v).pushed s = true := by
  simp only [pushed_equalTo, labelValues]
  split_ifs with hname
  · rw [Sql.Engine.mem_distinct, List.mem_map]
  · rw [Sql.Engine.mem_distinct, List.mem_filterMap]

/-! ### What a server lists -/

/-- **The registered series are those of the visible samples.** -/
theorem mem_series_iff {s : Backpressure.State R F} {st : StagedStore (ValidatedSample F) ℤ}
    (h : ServerStore.Refines s st) (hsame : SameSeries st.stored) {r : Skaldberg.SeriesRow} :
    r ∈ s.ingest.tables.series ↔
      ∃ x ∈ st.visible ValidatedSample.seriesId, x.seriesRow = r := by
  constructor
  · intro hr
    obtain ⟨x, hx, rfl⟩ := h.listedRow r hr
    have hlisted : x.seriesId ∈ st.listed :=
      (h.listed x.seriesId).mp (List.mem_map.mpr ⟨x.seriesRow, hr, rfl⟩)
    exact ⟨x, StagedStore.mem_visible.mpr ⟨hx, hlisted⟩, rfl⟩
  · rintro ⟨x, hx, rfl⟩
    obtain ⟨hx, hlisted⟩ := StagedStore.mem_visible.mp hx
    obtain ⟨r, hr, hid⟩ := List.mem_map.mp ((h.listed x.seriesId).mpr hlisted)
    obtain ⟨y, hy, rfl⟩ := h.listedRow r hr
    rwa [hsame y hy x hx hid] at hr

section Runs

variable [F64 F] {xxh3 : List UInt8 → UInt64} {codec : Extern F} {c S rotationBytes : ℕ}
  {t : ServerStore.State (RawSample F) F}
  {ok : ServerStore.State (RawSample F) F → Backpressure.Action (RawSample F) → Prop}

section

variable (hrun : Runs (Runs.ofFn (ServerStore.step codec (validate xxh3) c S)) ok
  (ServerStore.start codec rotationBytes) t) (hsame : SameSeries t.store.accepted)
include hrun hsame

theorem mem_series_of_run {r : Skaldberg.SeriesRow} :
    r ∈ t.server.ingest.tables.series ↔
      ∃ x ∈ t.store.visible ValidatedSample.seriesId, x.seriesRow = r := by
  have hinv := ServerStore.inv_run hrun
  have hstored : t.store.stored ≤ t.store.accepted :=
    (Multiset.le_add_left _ _).trans hinv.sound
  exact mem_series_iff hinv.refines fun x hx y hy =>
    hsame x (Multiset.mem_of_le hstored hx) y (Multiset.mem_of_le hstored hy)

/-- What is said of some registered series is said of a visible sample. -/
theorem exists_series_of_run {P : Skaldberg.SeriesRow → Prop} :
    (∃ r ∈ t.server.ingest.tables.series, P r) ↔
      ∃ x ∈ t.store.visible ValidatedSample.seriesId, P x.seriesRow := by
  simp only [mem_series_of_run hrun hsame]
  constructor
  · rintro ⟨-, ⟨x, hx, rfl⟩, hr⟩
    exact ⟨x, hx, hr⟩
  · rintro ⟨x, hx, hr⟩
    exact ⟨_, ⟨x, hx, rfl⟩, hr⟩

/-- **What a server lists**: at any moment, whatever steps have interleaved and failed, the names of
the labels of the visible samples, with `__name__`, and the values that these have, each once and in
order. -/
theorem labelEndpoints_of_run (E : Sql.Engine) :
    ((labels E t.server.ingest.tables).Pairwise (· < ·) ∧
      ∀ k, k ∈ labels E t.server.ingest.tables ↔ k = "__name__" ∨
        ∃ x ∈ t.store.visible ValidatedSample.seriesId, (elementAt x.labels k).isSome) ∧
    ∀ name, (labelValues E t.server.ingest.tables name).Pairwise (· < ·) ∧
      ∀ v, v ∈ labelValues E t.server.ingest.tables name ↔
        ∃ x ∈ t.store.visible ValidatedSample.seriesId,
          if name = "__name__" then x.metric = v else elementAt x.labels name = some v := by
  refine ⟨⟨pairwise_labels E _, fun k => ?_⟩, fun name => ⟨pairwise_labelValues E _ name,
    fun v => ?_⟩⟩
  · rw [mem_labels, exists_series_of_run hrun hsame]
    rfl
  · simp only [mem_labelValues, pushed_equalTo]
    exact exists_series_of_run hrun hsame

/-- **A value is listed exactly when a selector for it finds points** in some window, as long as
every visible sample has a date. -/
theorem mem_labelValues_iff_rangeSelector (hfree : ∀ x ∈ t.store.accepted, CommaFree x.labels)
    (hdated : ∀ x ∈ t.store.visible ValidatedSample.seriesId, InRangeMicros x.tsUs)
    (E E' : Sql.Engine) (name v : String) :
    v ∈ labelValues E t.server.ingest.tables name ↔
      ∃ lo hi, rangeSelector E' t.server.ingest.tables (equalTo name v) lo hi ≠ [] := by
  rw [mem_labelValues, exists_series_of_run hrun hsame]
  constructor
  · rintro ⟨x, hx, hpushed⟩
    have hfinds : finds (equalTo name v) x.tsUs x.tsUs x = true := by
      have hpost : (equalTo name v).postFilter x.labels = true := by
        simp [VectorSelector.postFilter, labelFiltersForSelector, equalTo]
      have hwindow : (timestampBetween x.tsUs x.tsUs x.row).holds = true := by
        rw [timestampBetween_holds, usToTsLit_micros, if_pos (hdated x hx)]
        exact ⟨le_rfl, le_rfl⟩
      rw [finds, hpushed, hpost, hwindow]
      rfl
    obtain ⟨s, hs, -⟩ :=
      (answers_of_run hrun hsame hfree E' (equalTo name v) x.tsUs x.tsUs).complete x hx hfinds
    exact ⟨x.tsUs, x.tsUs, List.ne_nil_of_mem hs⟩
  · rintro ⟨lo, hi, hne⟩
    have hanswers := answers_of_run hrun hsame hfree E' (equalTo name v) lo hi
    obtain ⟨s, hs⟩ := List.exists_mem_of_ne_nil _ hne
    obtain ⟨p, hp⟩ := List.exists_mem_of_ne_nil _ (hanswers.nonempty s hs)
    rw [← Multiset.mem_coe, hanswers.points s hs] at hp
    obtain ⟨x, hx, -⟩ := Multiset.mem_map.mp hp
    obtain ⟨hx, hfinds, -⟩ := Multiset.mem_filter.mp hx
    rw [finds, Bool.and_eq_true, Bool.and_eq_true] at hfinds
    exact ⟨x, hx, hfinds.1.1⟩

end

/-- Of two jobs one is flushed, and listed. -/
theorem labelEndpoints_of_run_overtaking :
    ∃ t, Runs (Runs.ofFn serve) (fun _ _ => True) served t ∧
      t.server.ingest.tables.samples.length = 1 ∧ ∀ E,
        (∀ k, k ∈ labels E t.server.ingest.tables ↔ k = "__name__" ∨
          ∃ x ∈ t.store.visible ValidatedSample.seriesId, (elementAt x.labels k).isSome) ∧
        ∀ v, v ∈ labelValues E t.server.ingest.tables "job" ↔
          ∃ x ∈ t.store.visible ValidatedSample.seriesId, elementAt x.labels "job" = some v := by
  obtain ⟨t, -, hrun, -, ⟨husual, -, hlen, -⟩, -⟩ := exists_overtaking
  refine ⟨t, hrun.mono fun _ _ _ => trivial, hlen, fun E => ?_⟩
  obtain ⟨⟨-, hlabels⟩, hvalues⟩ := labelEndpoints_of_run hrun husual.1 E
  exact ⟨hlabels, (hvalues "job").2⟩

/-- Of two jobs one is flushed, and found. -/
theorem mem_labelValues_iff_rangeSelector_overtaking :
    ∃ t, Runs (Runs.ofFn serve) (fun _ _ => True) served t ∧
      t.server.ingest.tables.samples.length = 1 ∧
      ∀ (E E' : Sql.Engine) (name v : String),
        v ∈ labelValues E t.server.ingest.tables name ↔
          ∃ lo hi, rangeSelector E' t.server.ingest.tables (equalTo name v) lo hi ≠ [] := by
  obtain ⟨t, -, hrun, -, ⟨husual, -, hlen, hdated, -⟩, -⟩ := exists_overtaking
  exact ⟨t, hrun.mono fun _ _ _ => trivial, hlen,
    mem_labelValues_iff_rangeSelector hrun husual.1 husual.2 fun x hx =>
      hdated x (Multiset.mem_of_le (visible_le_of_run hrun) hx)⟩

end Runs

end Skaldberg.Prometheus
