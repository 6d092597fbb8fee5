import Skaldberg.Prometheus.Selector

/-!
# What a selector query returns

A selector asks for the samples of a window that belong to the series its matchers accept, the
metric name being the label `__name__` and a missing label the empty string
(`Skaldberg.Prometheus.selected`). The query and the filter behind it return that, but for three
things. `=` on a missing label is unknown in the query, where it should compare the empty string;
of the matchers on `__name__` only one `=` reaches the query, and none reaches the filter; and a
bound of the window without a calendar date is replaced by the epoch.

What the query and the selector do agree on is one predicate, `VectorSelector.Shared`. On a
series that it accepts, the query refuses a `=` with the empty string on a label the series lacks
(`pushed_and_postFilter_iff`), and the selector refuses what a matcher on the name refuses
(`matches_iff`); `runSelectorQuery_perm_selected_iff` puts the two together: the query returns
what was asked for exactly when these refusals, and the two readings of the window, fall on the
same stored samples.
-/

namespace Skaldberg.Prometheus

variable {F : Type}

/-- The samples of a window that belong to series satisfying a selector. -/
def selected (t : Tables F) (sel : VectorSelector) (fromUs toUs : ℤ) : List (SeriesRow F) :=
  ((samplesJoinSeries t).filter fun r =>
    sel.matches r.2 && decide (fromUs ≤ r.1.timestamp ∧ r.1.timestamp ≤ toUs)).map seriesRow

/-! ### The part of a selector both sides agree on -/

/-- The series has the metric name the query asks for, if it asks for one, and every matcher on
an ordinary label accepts it. -/
def VectorSelector.Shared (sel : VectorSelector) (s : Skaldberg.SeriesRow) : Prop :=
  (∀ name, effectiveMetricName sel = some name → s.metricName = name) ∧
    ∀ m ∈ sel.matchers, m.name ≠ "__name__" → matchLabel s.labels m = true

/-- A matcher asks, with `=`, for the empty string at a label that is missing. -/
def Matcher.EmptyAtMissing (m : Matcher) (labels : Labels) : Prop :=
  m.op = .equal ∧ m.value = "" ∧ labels.get? m.name = none

/-- Some matcher on an ordinary label asks for the empty string at a label the series lacks. -/
def VectorSelector.EmptyAtMissing (sel : VectorSelector) (s : Skaldberg.SeriesRow) : Prop :=
  ∃ m ∈ sel.matchers, m.name ≠ "__name__" ∧ m.EmptyAtMissing s.labels

/-- Every matcher on `__name__` accepts the metric name. -/
def VectorSelector.NamesAccept (sel : VectorSelector) (s : Skaldberg.SeriesRow) : Prop :=
  ∀ m ∈ sel.matchers, m.name = "__name__" → m.accepts s.metricName = true

/-- What the query and the filter ask of a label through one of its matchers. -/
def Matcher.Applied (m : Matcher) (s : Skaldberg.SeriesRow) : Prop :=
  (∀ c, labelPredicate m = some c → (c.eval s).holds = true) ∧
    (m ∈ labelFiltersForSelector ⟨none, [m]⟩ → matchLabel s.labels m = true)

/-- **One matcher, in the query or after it**: it is applied as it should be, except that `=`
with the empty string refuses a missing label. -/
theorem Matcher.applied_iff {m : Matcher} (hname : m.name ≠ "__name__") (s : Skaldberg.SeriesRow) :
    m.Applied s ↔ matchLabel s.labels m = true ∧ ¬m.EmptyAtMissing s.labels := by
  obtain ⟨op, name, value⟩ := m
  simp only [Applied, EmptyAtMissing, labelPredicate, labelFiltersForSelector, matchLabel,
    Matcher.accepts, if_neg hname]
  cases op with
  | equal =>
    -- the only matcher that a missing label leaves unknown
    rcases hget : s.labels.get? name with _ | v
    · simp [SeriesCond.eval, elementAt, hget, eq_comm (a := "")]
    · simp [SeriesCond.eval, elementAt, hget]
  | notEqual => simp [SeriesCond.eval, elementAt]
  | re isMatch => simp [hname]
  | notRe isMatch => simp [hname]

theorem mem_labelFilters_iff {sel : VectorSelector} {m : Matcher} :
    m ∈ labelFiltersForSelector sel ↔
      m ∈ sel.matchers ∧ m ∈ labelFiltersForSelector ⟨none, [m]⟩ := by
  simp [labelFiltersForSelector]

theorem pushed_iff {sel : VectorSelector} {s : Skaldberg.SeriesRow} :
    sel.pushed s = true ↔
      (∀ name, effectiveMetricName sel = some name → s.metricName = name) ∧
        ∀ m ∈ sel.matchers, ∀ c, labelPredicate m = some c → (c.eval s).holds = true := by
  simp only [VectorSelector.pushed, selectorPredicates, Sql.holds_conj, List.map_append,
    List.all_append, List.all_map, Bool.and_eq_true, List.all_eq_true, List.mem_filterMap,
    Function.comp]
  refine and_congr ⟨fun h name hn => ?_, fun h c hc => ?_⟩ ⟨fun h m hm c hc => ?_, ?_⟩
  · simpa [SeriesCond.eval] using h (.metricNameEq name) (by simp [hn])
  · obtain ⟨name, hn, rfl⟩ : ∃ name, effectiveMetricName sel = some name ∧
        .metricNameEq name = c := by simpa using hc
    simpa [SeriesCond.eval] using h name hn
  · exact h c ⟨m, hm, hc⟩
  · rintro h c ⟨m, hm, hc⟩
    exact h m hm c hc

/-- **What the query and the filter select**: what both sides agree on, without the series that
lack a label asked to be empty. -/
theorem pushed_and_postFilter_iff {sel : VectorSelector} {s : Skaldberg.SeriesRow} :
    (sel.pushed s = true ∧ sel.postFilter s.labels = true) ↔
      sel.Shared s ∧ ¬sel.EmptyAtMissing s := by
  have happ : (∀ m ∈ sel.matchers, m.Applied s) ↔
      (∀ m ∈ sel.matchers, ∀ c, labelPredicate m = some c → (c.eval s).holds = true) ∧
        sel.postFilter s.labels = true := by
    simp only [Matcher.Applied, VectorSelector.postFilter, List.all_eq_true]
    constructor
    · intro h
      refine ⟨fun m hm => (h m hm).1, fun m hm => ?_⟩
      obtain ⟨hm, hsing⟩ := mem_labelFilters_iff.mp hm
      exact (h m hm).2 hsing
    · rintro ⟨hpred, hfilter⟩ m hm
      exact ⟨hpred m hm, fun hsing => hfilter m (mem_labelFilters_iff.mpr ⟨hm, hsing⟩)⟩
  have hname : ∀ m : Matcher, m.name = "__name__" → m.Applied s := by
    intro m hm
    refine ⟨fun c hc => ?_, fun h => ?_⟩
    · rw [labelPredicate, if_pos hm] at hc
      cases hc
    · simp [labelFiltersForSelector, hm] at h
  rw [pushed_iff, and_assoc, ← happ, VectorSelector.Shared, and_assoc]
  refine and_congr_right fun _ => ?_
  constructor
  · intro h
    refine ⟨fun m hm hne => ((Matcher.applied_iff hne s).mp (h m hm)).1, ?_⟩
    rintro ⟨m, hm, hne, hempty⟩
    exact ((Matcher.applied_iff hne s).mp (h m hm)).2 hempty
  · rintro ⟨hlabels, hempty⟩ m hm
    by_cases hne : m.name = "__name__"
    · exact hname m hne
    · exact (Matcher.applied_iff hne s).mpr
        ⟨hlabels m hm hne, fun he => hempty ⟨m, hm, hne, he⟩⟩

/-- **What a selector means**: what both sides agree on, and the matchers on the name. -/
theorem matches_iff {sel : VectorSelector} {s : Skaldberg.SeriesRow} :
    sel.matches s = true ↔ sel.Shared s ∧ sel.NamesAccept s := by
  obtain ⟨name, ms⟩ := sel
  have hall : (ms.all fun m => m.matchesSeries s) = true ↔
      (∀ m ∈ ms, m.name ≠ "__name__" → matchLabel s.labels m = true) ∧
        ∀ m ∈ ms, m.name = "__name__" → m.accepts s.metricName = true := by
    simp only [List.all_eq_true, Matcher.matchesSeries]
    constructor
    · intro h
      exact ⟨fun m hm hne => by simpa [hne] using h m hm, fun m hm he => by simpa [he] using h m hm⟩
    · rintro ⟨hl, hn⟩ m hm
      split_ifs with he
      · exact hn m hm he
      · exact hl m hm he
  simp only [VectorSelector.matches, Bool.and_eq_true, hall, VectorSelector.Shared,
    VectorSelector.NamesAccept]
  cases name with
  | some n => simp [effectiveMetricName, and_assoc]
  | none =>
    -- the name asked for is that of a matcher, which then accepts it
    simp only [true_and, effectiveMetricName, Option.map_eq_some_iff]
    refine ⟨fun h => ⟨⟨?_, h.1⟩, h.2⟩, fun h => ⟨h.1.2, h.2⟩⟩
    rintro n ⟨m, hfind, rfl⟩
    have hm := List.mem_of_find?_eq_some hfind
    have hop := List.find?_some hfind
    simp only [Bool.and_eq_true, beq_iff_eq] at hop
    have hacc := h.2 m hm hop.1
    obtain ⟨op, _, value⟩ := m
    cases op with
    | equal => simpa [Matcher.accepts] using hacc
    | _ => simp at hop

/-- A selector reads the name and the labels of a series. -/
theorem matches_congr {sel : VectorSelector} {s s' : Skaldberg.SeriesRow}
    (hname : s.metricName = s'.metricName) (hlabels : s.labels = s'.labels) :
    sel.matches s = sel.matches s' := by
  cases s
  cases s'
  cases hname
  cases hlabels
  rfl

/-- So does its query. -/
theorem pushed_congr {sel : VectorSelector} {s s' : Skaldberg.SeriesRow}
    (hname : s.metricName = s'.metricName) (hlabels : s.labels = s'.labels) :
    sel.pushed s = sel.pushed s' := by
  have heval : SeriesCond.eval s = SeriesCond.eval s' := by
    funext c
    cases c <;> simp only [SeriesCond.eval, hname, hlabels]
  rw [VectorSelector.pushed, heval, VectorSelector.pushed]

/-- **When the query and the selector agree on a sample**, in two windows. -/
theorem through_eq_iff {sel : VectorSelector} {s : Skaldberg.SeriesRow} {p q : Prop} [Decidable p]
    [Decidable q] :
    (sel.pushed s && sel.postFilter s.labels && decide p) = (sel.matches s && decide q) ↔
      (sel.Shared s → ((¬sel.EmptyAtMissing s ∧ p) ↔ (sel.NamesAccept s ∧ q))) := by
  rw [Bool.eq_iff_iff, Bool.and_eq_true, Bool.and_eq_true, Bool.and_eq_true,
    pushed_and_postFilter_iff, matches_iff, decide_eq_true_eq, decide_eq_true_eq, and_assoc,
    and_assoc]
  exact and_congr_right_iff

/-! ### The answer of the query -/

/-- Two filters of a list that read its elements through a function agree on the multiset of the
results exactly when they agree on every element. -/
theorem map_filter_perm_iff {α β : Type} {f : α → β} {p q : α → Bool} {l : List α}
    (hp : ∀ x y, f x = f y → p x = p y) (hq : ∀ x y, f x = f y → q x = q y) :
    ((l.filter p).map f).Perm ((l.filter q).map f) ↔ ∀ x ∈ l, p x = q x := by
  constructor
  · intro h x hx
    have himp : ∀ {p q : α → Bool}, (∀ x y, f x = f y → q x = q y) →
        ((l.filter p).map f).Perm ((l.filter q).map f) → p x = true → q x = true := by
      intro p q hq h hpx
      obtain ⟨y, hy, hfy⟩ := List.mem_map.mp
        (h.mem_iff.mp (List.mem_map_of_mem (List.mem_filter.mpr ⟨hx, hpx⟩)))
      exact hq y x hfy ▸ (List.mem_filter.mp hy).2
    exact Bool.eq_iff_iff.mpr ⟨himp hq h, himp hp h.symm⟩
  · intro h
    rw [List.filter_congr h]

theorem runSelectorQuery_perm (E : Sql.Engine) (t : Tables F) (sel : VectorSelector)
    (fromUs toUs : ℤ) :
    (runSelectorQuery E t sel fromUs toUs).Perm
      (((samplesJoinSeries t).filter fun r =>
        (selectorWhere sel fromUs toUs r).holds && sel.postFilter r.2.labels).map seriesRow) := by
  refine ((E.sort_perm _ _).filter _).trans (List.Perm.of_eq ?_)
  rw [baseRows, Sql.select, List.filter_map, List.filter_filter]
  congr 1
  exact List.filter_congr fun r _ => Bool.and_comm _ _

/-- **What a selector query returns**: the samples of the window that belong to the series
satisfying the selector, exactly when, on the stored samples whose series both sides agree on,
lacking a label asked to be empty or lying outside the literals of the window goes with being
refused by a matcher on the name or lying outside the window. -/
theorem runSelectorQuery_perm_selected_iff (E : Sql.Engine) (t : Tables F) (sel : VectorSelector)
    (fromUs toUs : ℤ) :
    (runSelectorQuery E t sel fromUs toUs).Perm (selected t sel fromUs toUs) ↔
      ∀ sa ∈ t.samples, ∀ s ∈ t.series, sa.seriesId = s.seriesId → sel.Shared s →
        ((¬sel.EmptyAtMissing s ∧ (usToTsLit fromUs).micros ≤ sa.timestamp ∧
            sa.timestamp ≤ (usToTsLit toUs).micros) ↔
          (sel.NamesAccept s ∧ fromUs ≤ sa.timestamp ∧ sa.timestamp ≤ toUs)) := by
  have hrow : ∀ x y : SampleRow F × Skaldberg.SeriesRow, seriesRow x = seriesRow y →
      x.1.timestamp = y.1.timestamp ∧ x.2.metricName = y.2.metricName ∧
        x.2.labels = y.2.labels := by
    intro x y h
    simp only [seriesRow, SeriesRow.mk.injEq] at h
    exact ⟨h.2.2.1, h.1, h.2.1⟩
  have hquery : ∀ r : SampleRow F × Skaldberg.SeriesRow,
      ((selectorWhere sel fromUs toUs r).holds && sel.postFilter r.2.labels) =
        (sel.pushed r.2 && sel.postFilter r.2.labels &&
          decide ((usToTsLit fromUs).micros ≤ r.1.timestamp ∧
            r.1.timestamp ≤ (usToTsLit toUs).micros)) := by
    intro r
    rw [selectorWhere_holds, Bool.and_right_comm, timestampBetween, Sql.Truth.holds_some]
  -- both sides filter the same joined rows, and read only what is in the answer
  simp only [(runSelectorQuery_perm E t sel fromUs toUs).congr_left, selected, hquery]
  rw [map_filter_perm_iff]
  · simp only [through_eq_iff]
    constructor
    · intro h sa hsa s hs hid
      exact h (sa, s) (Sql.mem_join.mpr ⟨hsa, hs, by simpa using hid⟩)
    · intro h r hr
      obtain ⟨hsa, hs, hid⟩ := Sql.mem_join.mp hr
      exact h r.1 hsa r.2 hs (by simpa using hid)
  · intro x y hxy
    obtain ⟨hts, hname, hlabels⟩ := hrow x y hxy
    rw [hts, pushed_congr hname hlabels, hlabels]
  · intro x y hxy
    obtain ⟨hts, hname, hlabels⟩ := hrow x y hxy
    rw [hts, matches_congr hname hlabels]

/-- `up{job=""}` asks for the series of `up` without a `job`, and misses the one that has no label
at all. -/
theorem empty_matcher_misses_unlabelled :
    ¬(runSelectorQuery Sql.Engine.stable
        ⟨[⟨1, 0, Whole.num 1⟩], [⟨1, "up", .empty⟩]⟩
        ⟨some "up", [⟨.equal, "job", ""⟩]⟩ 0 0).Perm
      (selected ⟨[⟨1, 0, Whole.num 1⟩], [⟨1, "up", .empty⟩]⟩
        ⟨some "up", [⟨.equal, "job", ""⟩]⟩ 0 0) := by
  decide +kernel

end Skaldberg.Prometheus
