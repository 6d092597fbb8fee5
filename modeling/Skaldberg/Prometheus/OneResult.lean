import Skaldberg.Prometheus.SelectorSemantics
import Skaldberg.Prometheus.SeriesKey

/-!
# One result per series

An instant selector answers with the latest sample of each series asked for
(`Skaldberg.Prometheus.OneResult`), and a range selector collects the samples of each series apart
(`OwnSamples`). Both find the series of a row by its key, a text in which nothing is escaped: of
two series with one key, an instant selector answers with whichever is later, and a range selector
puts the samples of both in one entry.

`oneResult_iff` says exactly when neither happens. For the first, every latest sample asked for
must be among the rows of the query and have no row of another series beside it under its key that
is as late (`Unrivalled`). Where the query returns what was asked for, that is to say that no two
series share a key (`unrivalled_iff_of_forall`).
-/

namespace Skaldberg.Prometheus

variable {F : Type} {xxh3 : List UInt8 → UInt64} {t : Tables F} {sel : VectorSelector}
  {lo hi timeUs : ℤ}

/-! ### Rows asked for, and rows of the query -/

/-- The key of the series of a row. -/
def rowKey (r : SampleRow F × Skaldberg.SeriesRow) : String :=
  seriesKey r.2.metricName r.2.labels

/-- The samples of a window, with the series satisfying a selector that they belong to. -/
def askedRows (t : Tables F) (sel : VectorSelector) (fromUs toUs : ℤ) :
    List (SampleRow F × Skaldberg.SeriesRow) :=
  (samplesJoinSeries t).filter fun r =>
    sel.matches r.2 && decide (fromUs ≤ r.1.timestamp ∧ r.1.timestamp ≤ toUs)

/-- The rows of a query that pass the filter of the program. -/
def queriedRows (t : Tables F) (sel : VectorSelector) (fromUs toUs : ℤ) :
    List (SampleRow F × Skaldberg.SeriesRow) :=
  (baseRows t sel fromUs toUs).filter fun r => sel.postFilter r.2.labels

/-- A row is the latest of its series. -/
def IsLatest (rows : List (SampleRow F × Skaldberg.SeriesRow))
    (r : SampleRow F × Skaldberg.SeriesRow) : Prop :=
  r ∈ rows ∧ ∀ r' ∈ rows, r'.2 = r.2 → r'.1.timestamp ≤ r.1.timestamp

theorem mem_runSelectorQuery_iff {E : Sql.Engine} {row : SeriesRow F} :
    row ∈ runSelectorQuery E t sel lo hi ↔ ∃ r ∈ queriedRows t sel lo hi, seriesRow r = row := by
  rw [runSelectorQuery, List.mem_filter, E.mem_sort, List.mem_map]
  constructor
  · rintro ⟨⟨r, hr, rfl⟩, hpost⟩
    exact ⟨r, List.mem_filter.mpr ⟨hr, hpost⟩, rfl⟩
  · rintro ⟨r, hr, rfl⟩
    obtain ⟨hr, hpost⟩ := List.mem_filter.mp hr
    exact ⟨⟨r, hr, rfl⟩, hpost⟩

theorem mem_series_of_mem_queriedRows {r : SampleRow F × Skaldberg.SeriesRow}
    (h : r ∈ queriedRows t sel lo hi) : r.2 ∈ t.series :=
  (mem_baseRows.mp (List.mem_of_mem_filter h)).1.2.1

theorem mem_join_of_mem_askedRows {r : SampleRow F × Skaldberg.SeriesRow}
    (h : r ∈ askedRows t sel lo hi) : r ∈ samplesJoinSeries t := List.mem_of_mem_filter h

theorem mem_series_of_mem_askedRows {r : SampleRow F × Skaldberg.SeriesRow}
    (h : r ∈ askedRows t sel lo hi) : r.2 ∈ t.series :=
  (Sql.mem_join.mp (mem_join_of_mem_askedRows h)).2.1

/-- **The query looks at the series and the timestamp of a row only.** -/
theorem mem_queriedRows_of_eq {r r' : SampleRow F × Skaldberg.SeriesRow}
    (h : r ∈ queriedRows t sel lo hi) (hr' : r' ∈ samplesJoinSeries t) (hseries : r'.2 = r.2)
    (htime : r'.1.timestamp = r.1.timestamp) : r' ∈ queriedRows t sel lo hi := by
  obtain ⟨hbase, hpost⟩ := List.mem_filter.mp h
  refine List.mem_filter.mpr ⟨List.mem_filter.mpr ⟨hr', ?_⟩, hseries ▸ hpost⟩
  have hwhere := (List.mem_filter.mp hbase).2
  rw [selectorWhere_holds, timestampBetween] at hwhere ⊢
  rw [hseries, htime]
  exact hwhere

/-- A series asked for has a latest row. -/
theorem exists_isLatest {rows : List (SampleRow F × Skaldberg.SeriesRow)}
    {r : SampleRow F × Skaldberg.SeriesRow} (h : r ∈ rows) :
    ∃ r', IsLatest rows r' ∧ r'.2 = r.2 := by
  have hmem : r ∈ rows.filter fun r' => decide (r'.2 = r.2) :=
    List.mem_filter.mpr ⟨h, decide_eq_true rfl⟩
  obtain ⟨r', hr'⟩ := Option.isSome_iff_exists.mp (Option.ne_none_iff_isSome.mp fun hnone =>
    List.ne_nil_of_mem hmem
      (List.argmax_eq_none (f := fun r : SampleRow F × _ => r.1.timestamp).mp hnone))
  obtain ⟨hrows, hseries⟩ := List.mem_filter.mp (List.argmax_mem hr')
  refine ⟨r', ⟨hrows, fun r'' hr'' hs => ?_⟩, of_decide_eq_true hseries⟩
  exact List.le_of_mem_argmax (f := fun r : SampleRow F × _ => r.1.timestamp)
    (List.mem_filter.mpr ⟨hr'', decide_eq_true (hs.trans (of_decide_eq_true hseries))⟩) hr'

/-! ### What is kept -/

/-- **The first of the latest rows is kept.** -/
theorem foldl_later_eq {l₁ l₂ : List (SeriesRow F)} {a : SeriesRow F}
    (h₁ : ∀ b ∈ l₁, b.tsUs < a.tsUs) (h₂ : ∀ b ∈ l₂, b.tsUs ≤ a.tsUs) :
    (l₁ ++ a :: l₂).foldl (fun o r => some (later r o)) none = some a := by
  have hkeep : l₂.foldl (fun o r => some (later r o)) (some a) = some a := by
    induction l₂ with
    | nil => rfl
    | cons b l₂ ih =>
      rw [List.foldl_cons, later, if_pos (h₂ b (List.mem_cons_self ..))]
      exact ih fun b' hb' => h₂ b' (List.mem_cons_of_mem _ hb')
  have hbefore : ∀ o, l₁.foldl (fun o r => some (later r o)) none = some o → o.tsUs < a.tsUs := by
    rcases l₁ with _ | ⟨b, l₁⟩
    · exact fun o ho => by cases ho
    · intro o ho
      obtain ⟨hmem, -⟩ := foldl_later b ho
      rcases hmem with rfl | hmem
      · exact h₁ _ (List.mem_cons_self ..)
      · exact h₁ o (List.mem_cons_of_mem _ hmem)
  rw [List.foldl_append, List.foldl_cons]
  rcases ho : l₁.foldl (fun o r => some (later r o)) none with _ | o
  · exact hkeep
  · rw [later, if_neg (not_le.mpr (hbefore o ho))]
    exact hkeep

/-- What is kept of the rows of a query, by key. -/
def kept (E : Sql.Engine) (t : Tables F) (sel : VectorSelector) (lo hi : ℤ) :
    SortedMap String (SeriesRow F) :=
  (runSelectorQuery E t sel lo hi).foldl keepLatest .empty

/-- **What is kept under a key** is a row of the query, none of that key being later. -/
theorem exists_row_of_get?_kept {E : Sql.Engine} {k : String} {row : SeriesRow F}
    (h : (kept E t sel lo hi).get? k = some row) :
    ∃ r ∈ queriedRows t sel lo hi, seriesRow r = row ∧ rowKey r = k ∧
      ∀ r' ∈ queriedRows t sel lo hi, rowKey r' = k → r'.1.timestamp ≤ r.1.timestamp := by
  obtain ⟨hrow, hkey, hall⟩ := latest_of_get?_keepLatest h
  obtain ⟨r, hr, rfl⟩ := mem_runSelectorQuery_iff.mp hrow
  exact ⟨r, hr, rfl, hkey, fun r' hr' hk =>
    hall (seriesRow r') (mem_runSelectorQuery_iff.mpr ⟨r', hr', rfl⟩) hk⟩

theorem exists_get?_kept {E : Sql.Engine} {r : SampleRow F × Skaldberg.SeriesRow}
    (hr : r ∈ queriedRows t sel lo hi) :
    ∃ row, (kept E t sel lo hi).get? (rowKey r) = some row := by
  have hrow : seriesRow r ∈ runSelectorQuery E t sel lo hi :=
    mem_runSelectorQuery_iff.mpr ⟨r, hr, rfl⟩
  obtain ⟨row, hget⟩ := exists_get?_keepLatest hrow
  exact ⟨row, hget⟩

/-- **Any of the latest rows of a key may be the one kept**, as the query leaves rows with one
timestamp in any order. -/
theorem exists_engine_get?_kept (h : ValidatedTables xxh3 t)
    {r : SampleRow F × Skaldberg.SeriesRow} (hr : r ∈ queriedRows t sel lo hi)
    (hlatest : ∀ r' ∈ queriedRows t sel lo hi, rowKey r' = rowKey r →
      r'.1.timestamp ≤ r.1.timestamp) :
    ∃ E, (kept E t sel lo hi).get? (rowKey r) = some (seriesRow r) := by
  obtain ⟨hbase, hpost⟩ := List.mem_filter.mp hr
  obtain ⟨E, l₁, l₂, hsort, hfirst⟩ := Sql.Engine.exists_sort_eq
    (fun a b : SeriesRow F => nameTimeLe (a.metricName, a.tsUs) (b.metricName, b.tsUs))
    (List.mem_map_of_mem (f := seriesRow) hbase)
  refine ⟨E, ?_⟩
  let ofKey (row : SeriesRow F) : Bool :=
    decide (seriesKey row.metricName row.labels = rowKey r)
  let passed (l : List (SeriesRow F)) : List (SeriesRow F) :=
    (l.filter fun row => sel.postFilter row.labels).filter ofKey
  have hquery : (runSelectorQuery E t sel lo hi).filter ofKey =
      passed l₁ ++ seriesRow r :: passed l₂ := by
    have hown : ofKey (seriesRow r) = true := decide_eq_true rfl
    have hrest : (seriesRow r :: l₂).filter (fun row => sel.postFilter row.labels) =
        seriesRow r :: l₂.filter fun row => sel.postFilter row.labels :=
      List.filter_cons_of_pos hpost
    rw [runSelectorQuery, hsort, List.filter_append, hrest, List.filter_append,
      List.filter_cons_of_pos hown]
  have hpassed : ∀ l, (∀ row ∈ passed l, row ∈ passed l₁ ∨ row ∈ passed l₂) →
      ∀ row ∈ passed l, ∃ r' ∈ queriedRows t sel lo hi, seriesRow r' = row ∧
        rowKey r' = rowKey r := by
    intro l hl row hrow
    have hmem : row ∈ (runSelectorQuery E t sel lo hi).filter ofKey := by
      rw [hquery, List.mem_append, List.mem_cons]
      exact (hl row hrow).imp id Or.inr
    obtain ⟨hmem, hkey⟩ := List.mem_filter.mp hmem
    obtain ⟨r', hr', rfl⟩ := mem_runSelectorQuery_iff.mp hmem
    exact ⟨r', hr', rfl, of_decide_eq_true hkey⟩
  rw [kept, get?_keepLatest]
  change ((runSelectorQuery E t sel lo hi).filter ofKey).foldl _ none = _
  rw [hquery]
  refine foldl_later_eq (fun row hrow => ?_) fun row hrow => ?_
  · obtain ⟨r', hr', rfl, hkey⟩ := hpassed l₁ (fun _ => Or.inl) row hrow
    -- a row before it has the same metric, so that it is earlier
    have hname : r'.2.metricName = r.2.metricName :=
      ((seriesKey_eq_iff_spelling (h.registered _ (mem_series_of_mem_queriedRows hr')).metricName
        (h.registered _ (mem_series_of_mem_queriedRows hr)).metricName).mp hkey).1
    refine lt_of_le_of_ne (hlatest r' hr' hkey) fun htime => ?_
    refine hfirst _ (List.mem_of_mem_filter (List.mem_of_mem_filter hrow)) ?_
    change nameTimeLe (r.2.metricName, r.1.timestamp) (r'.2.metricName, r'.1.timestamp) = true
    change r'.1.timestamp = r.1.timestamp at htime
    rw [hname, htime]
    exact decide_eq_true (le_refl _)
  · obtain ⟨r', hr', rfl, hkey⟩ := hpassed l₂ (fun _ => Or.inr) row hrow
    exact hlatest r' hr' hkey

/-! ### The answer of an instant selector -/

/-- An instant selector answers with one point for each series that has a sample in its window,
that of its latest one there, and with nothing else. -/
structure OneResult (t : Tables F) (sel : VectorSelector) (timeUs : ℤ)
    (points : List (InstantPoint F)) : Prop where
  /-- A series asked for has one point, that of its latest sample. -/
  one : ∀ r ∈ askedRows t sel (timeUs - lookbackUs) timeUs,
    ∃ r', IsLatest (askedRows t sel (timeUs - lookbackUs) timeUs) r' ∧ r'.2 = r.2 ∧
      points.filter (fun p => decide (p.metricName = r.2.metricName ∧ p.labels = r.2.labels)) =
        [instantPoint r']
  /-- A point is that of a series asked for. -/
  only : ∀ p ∈ points, ∃ r ∈ askedRows t sel (timeUs - lookbackUs) timeUs,
    p.metricName = r.2.metricName ∧ p.labels = r.2.labels

/-- The rows that a query of an instant selector returns. -/
def instantRows (t : Tables F) (sel : VectorSelector) (timeUs : ℤ) :
    List (SampleRow F × Skaldberg.SeriesRow) :=
  queriedRows t sel (asI64 (timeUs - lookbackUs)) timeUs

/-- The latest samples asked for are the rows of the query that are kept. -/
structure Unrivalled (t : Tables F) (sel : VectorSelector) (timeUs : ℤ) : Prop where
  /-- A latest sample is among the rows, and of those under its key none is later, and one of
  another series is earlier. -/
  first : ∀ r, IsLatest (askedRows t sel (timeUs - lookbackUs) timeUs) r →
    r ∈ instantRows t sel timeUs ∧ ∀ r' ∈ instantRows t sel timeUs, rowKey r' = rowKey r →
      r'.1.timestamp ≤ r.1.timestamp ∧ (r'.1.timestamp = r.1.timestamp → r'.2 = r.2)
  /-- Each row is under the key of a series asked for. -/
  covered : ∀ r' ∈ instantRows t sel timeUs,
    ∃ r ∈ askedRows t sel (timeUs - lookbackUs) timeUs, rowKey r = rowKey r'

theorem mem_instantSelector_iff_get?_kept {E : Sql.Engine} {p : InstantPoint F} :
    p ∈ instantSelector E t sel timeUs ↔
      ∃ k row, (kept E t sel (asI64 (timeUs - lookbackUs)) timeUs).get? k = some row ∧
        p = ⟨row.metricName, row.labels, row.tsUs, row.value⟩ := by
  rw [instantSelector, List.mem_map]
  constructor
  · rintro ⟨row, hrow, rfl⟩
    obtain ⟨⟨k, row'⟩, he, rfl⟩ := List.mem_map.mp hrow
    exact ⟨k, row', SortedMap.get?_eq_some_iff.mpr he, rfl⟩
  · rintro ⟨k, row, hget, rfl⟩
    exact ⟨row, List.mem_map.mpr ⟨(k, row), SortedMap.get?_eq_some_iff.mp hget, rfl⟩, rfl⟩

/-- **The points of an answer have keys of their own.** -/
theorem nodup_keys_instantSelector (E : Sql.Engine) :
    ((instantSelector E t sel timeUs).map fun p => seriesKey p.metricName p.labels).Nodup := by
  let m := kept E t sel (asI64 (timeUs - lookbackUs)) timeUs
  have hkeys : (instantSelector E t sel timeUs).map (fun p => seriesKey p.metricName p.labels) =
      m.keys := by
    rw [instantSelector, List.map_map, SortedMap.values, List.map_map]
    refine List.map_congr_left fun e he => ?_
    exact (latest_of_get?_keepLatest (SortedMap.get?_eq_some_iff.mpr he)).2.1
  rw [hkeys]
  exact SortedMap.keys_nodup _

/-- **Where nothing rivals the latest samples, there is one result for each series.** -/
theorem oneResult_of_unrivalled (h : Unrivalled t sel timeUs) (E : Sql.Engine) :
    OneResult t sel timeUs (instantSelector E t sel timeUs) := by
  -- under the key of a latest sample its series is kept
  have hkept : ∀ r, IsLatest (askedRows t sel (timeUs - lookbackUs) timeUs) r → ∀ row,
      (kept E t sel (asI64 (timeUs - lookbackUs)) timeUs).get? (rowKey r) = some row →
        ∃ q ∈ instantRows t sel timeUs, seriesRow q = row ∧ q.2 = r.2 ∧
          q.1.timestamp = r.1.timestamp := by
    intro r hr row hget
    obtain ⟨q, hq, hrow, hkey, hall⟩ := exists_row_of_get?_kept hget
    obtain ⟨hmem, hfirst⟩ := h.first r hr
    have htime : q.1.timestamp = r.1.timestamp :=
      le_antisymm (hfirst q hq hkey).1 (hall r hmem rfl)
    exact ⟨q, hq, hrow, (hfirst q hq hkey).2 htime, htime⟩
  constructor
  · intro r₀ hr₀
    obtain ⟨r, hr, hseries⟩ := exists_isLatest hr₀
    obtain ⟨row, hget⟩ := exists_get?_kept (E := E) (h.first r hr).1
    obtain ⟨q, hq, rfl, hqs, htime⟩ := hkept r hr row hget
    have hqasked : IsLatest (askedRows t sel (timeUs - lookbackUs) timeUs) q := by
      have hjoin : q ∈ samplesJoinSeries t := List.mem_of_mem_filter (List.mem_of_mem_filter hq)
      have hasked := (List.mem_filter.mp hr.1).2
      refine ⟨List.mem_filter.mpr ⟨hjoin, ?_⟩, fun r' hr' hs => ?_⟩
      · rw [hqs, htime]
        exact hasked
      · rw [htime]
        exact hr.2 r' hr' (hs.trans hqs)
    refine ⟨q, hqasked, hqs.trans hseries, ?_⟩
    have hpoint : instantPoint q ∈ instantSelector E t sel timeUs :=
      mem_instantSelector_iff_get?_kept.mpr ⟨_, _, hget, rfl⟩
    -- another point of the series would have the same key
    refine List.perm_singleton.mp ((List.perm_ext_iff_of_nodup ?_ (List.nodup_singleton _)).mpr
      fun p => ?_)
    · exact ((nodup_keys_instantSelector E).of_map _).filter _
    · rw [List.mem_filter, List.mem_singleton, decide_eq_true_eq, ← hseries, ← hqs]
      constructor
      · rintro ⟨hp, hname, hlabels⟩
        refine List.inj_on_of_nodup_map (nodup_keys_instantSelector E) hp hpoint ?_
        rw [hname, hlabels]
        rfl
      · rintro rfl
        exact ⟨hpoint, rfl, rfl⟩
  · intro p hp
    obtain ⟨k, row, hget, rfl⟩ := mem_instantSelector_iff_get?_kept.mp hp
    obtain ⟨q, hq, -, hkey, -⟩ := exists_row_of_get?_kept hget
    obtain ⟨r₀, hr₀, hk⟩ := h.covered q hq
    obtain ⟨r, hr, hseries⟩ := exists_isLatest hr₀
    have hrk : rowKey r = k := by rw [rowKey, hseries, ← hkey, ← hk, rowKey]
    obtain ⟨q', -, rfl, hq's, -⟩ := hkept r hr row (hrk ▸ hget)
    refine ⟨r₀, hr₀, ?_⟩
    rw [← hseries, ← hq's]
    exact ⟨rfl, rfl⟩

/-- **One result for each series, whatever the engine,** is what nothing rivals. -/
theorem unrivalled_of_oneResult (h : ValidatedTables xxh3 t)
    (hone : ∀ E, OneResult t sel timeUs (instantSelector E t sel timeUs)) :
    Unrivalled t sel timeUs := by
  -- what any engine keeps under the key of a latest sample
  have hkept : ∀ E r, IsLatest (askedRows t sel (timeUs - lookbackUs) timeUs) r →
      ∃ q ∈ instantRows t sel timeUs, q.2 = r.2 ∧ q.1.timestamp = r.1.timestamp ∧
        (kept E t sel (asI64 (timeUs - lookbackUs)) timeUs).get? (rowKey r) =
          some (seriesRow q) := by
    intro E r hr
    obtain ⟨r', hr', hseries, hpoints⟩ := (hone E).one r hr.1
    have hpoint : instantPoint r' ∈ instantSelector E t sel timeUs :=
      List.mem_of_mem_filter (hpoints ▸ List.mem_singleton_self _)
    obtain ⟨k, row, hget, hp⟩ := mem_instantSelector_iff_get?_kept.mp hpoint
    obtain ⟨q, hq, rfl, hkey, -⟩ := exists_row_of_get?_kept hget
    simp only [instantPoint, seriesRow, InstantPoint.mk.injEq] at hp
    have hqs : q.2 = r.2 := h.series_eq (mem_series_of_mem_queriedRows hq)
      (mem_series_of_mem_askedRows hr.1) (by rw [← hp.1, hseries]) (by rw [← hp.2.1, hseries])
    refine ⟨q, hq, hqs, ?_, ?_⟩
    · rw [← hp.2.2.1]
      exact le_antisymm (hr.2 r' hr'.1 hseries) (hr'.2 r hr.1 hseries.symm)
    · rw [rowKey, ← hqs, ← rowKey, hkey]
      exact hget
  constructor
  · intro r hr
    obtain ⟨q, hq, hqs, htime, hget⟩ := hkept Sql.Engine.stable r hr
    obtain ⟨q', -, hrow, -, hall⟩ := exists_row_of_get?_kept hget
    have hqq' : q'.1.timestamp = q.1.timestamp := congrArg SeriesRow.tsUs hrow
    refine ⟨mem_queriedRows_of_eq hq (mem_join_of_mem_askedRows hr.1) hqs.symm htime.symm,
      fun r' hr' hkey => ⟨?_, fun htie => ?_⟩⟩
    · rw [← htime, ← hqq']
      exact hall r' hr' hkey
    · -- some engine keeps the row that ties
      have hlatest : ∀ r'' ∈ instantRows t sel timeUs, rowKey r'' = rowKey r' →
          r''.1.timestamp ≤ r'.1.timestamp := by
        intro r'' hr'' hk
        rw [htie, ← htime, ← hqq']
        exact hall r'' hr'' (hk.trans hkey)
      obtain ⟨E, hE⟩ := exists_engine_get?_kept h hr' hlatest
      obtain ⟨q₂, hq₂, hq₂s, -, hget₂⟩ := hkept E r hr
      rw [hkey] at hE
      have hrow₂ : seriesRow r' = seriesRow q₂ := Option.some.inj (hE.symm.trans hget₂)
      rw [← hq₂s]
      exact h.series_eq (mem_series_of_mem_queriedRows hr') (mem_series_of_mem_queriedRows hq₂)
        (congrArg SeriesRow.metricName hrow₂) (congrArg SeriesRow.labels hrow₂)
  · intro r' hr'
    obtain ⟨row, hget⟩ := exists_get?_kept (E := Sql.Engine.stable) hr'
    obtain ⟨q, hq, rfl, hkey, -⟩ := exists_row_of_get?_kept hget
    obtain ⟨r, hr, hname, hlabels⟩ := (hone Sql.Engine.stable).only _
      (mem_instantSelector_iff_get?_kept.mpr ⟨_, _, hget, rfl⟩)
    refine ⟨r, hr, ?_⟩
    rw [← hkey, rowKey, rowKey, ← hname, ← hlabels]
    rfl

/-- **Where the query returns what was asked for**, nothing rivals the latest samples exactly when
no two of the series have one key. -/
theorem unrivalled_iff_of_forall
    (hexact : ∀ r, r ∈ instantRows t sel timeUs ↔
      r ∈ askedRows t sel (timeUs - lookbackUs) timeUs) :
    Unrivalled t sel timeUs ↔
      ∀ r ∈ askedRows t sel (timeUs - lookbackUs) timeUs,
        ∀ r' ∈ askedRows t sel (timeUs - lookbackUs) timeUs, rowKey r = rowKey r' → r.2 = r'.2 := by
  constructor
  · intro h r hr r' hr' hkey
    obtain ⟨l, hl, hseries⟩ := exists_isLatest hr
    obtain ⟨l', hl', hseries'⟩ := exists_isLatest hr'
    have hkeys : rowKey l = rowKey l' := by
      rw [rowKey, hseries, ← rowKey, hkey, rowKey, ← hseries', rowKey]
    -- neither latest sample is later than the other
    obtain ⟨hmem, hfirst⟩ := h.first l hl
    obtain ⟨hmem', hfirst'⟩ := h.first l' hl'
    have htime := le_antisymm (hfirst' l hmem hkeys).1 (hfirst l' hmem' hkeys.symm).1
    rw [← hseries, ← hseries']
    exact (hfirst' l hmem hkeys).2 htime
  · intro h
    refine ⟨fun r hr => ⟨(hexact r).mpr hr.1, fun r' hr' hkey => ?_⟩, fun r' hr' =>
      ⟨r', (hexact r').mp hr', rfl⟩⟩
    have hseries : r'.2 = r.2 := h r' ((hexact r').mp hr') r hr.1 hkey
    exact ⟨hr.2 r' ((hexact r').mp hr') hseries, fun _ => hseries⟩

/-! ### The entries of a range selector -/

/-- Every entry has the samples of its own series, and no others. -/
def OwnSamples (rows : List (SeriesRow F)) : Prop :=
  ∀ e ∈ (groupRowsBySeries rows).values,
    e.points = (rows.filter fun r =>
      decide (r.metricName = e.metricName ∧ r.labels = e.labels)).map fun r => (r.tsUs, r.value)

/-- The key of a row tells its series. -/
def KeysTell (rows : List (SeriesRow F)) : Prop :=
  ∀ a ∈ rows, ∀ b ∈ rows, seriesKey a.metricName a.labels = seriesKey b.metricName b.labels →
    a.metricName = b.metricName ∧ a.labels = b.labels

/-- **The samples of two series never meet in one entry** exactly when the keys tell the series
apart. -/
theorem ownSamples_iff {rows : List (SeriesRow F)} : OwnSamples rows ↔ KeysTell rows := by
  constructor
  · intro h a ha b hb hkey
    obtain ⟨r, -, hra, hentry⟩ := exists_row_of_collected ha
    have hown := h _ (mem_groupRowsBySeries.mpr ⟨a, ha, hentry.symm⟩)
    let ofSeries : List (SeriesRow F) := rows.filter fun r' =>
      decide (r'.metricName = r.metricName ∧ r'.labels = r.labels)
    let ofKey : List (SeriesRow F) := rows.filter fun r' =>
      decide (seriesKey r'.metricName r'.labels = seriesKey r.metricName r.labels)
    -- the rows of the key are no more than the rows of the series
    have hsub : ofSeries.Sublist ofKey := by
      refine List.monotone_filter_right rows fun r' hr' => ?_
      obtain ⟨hn, hl⟩ := of_decide_eq_true hr'
      exact decide_eq_true (by rw [hn, hl])
    have hlen : ofSeries.length = ofKey.length := by
      have hlen := congrArg List.length hown
      rw [List.length_map, List.length_map] at hlen
      exact hlen.symm
    have hrows : ∀ c ∈ rows, seriesKey c.metricName c.labels = seriesKey a.metricName a.labels →
        c.metricName = r.metricName ∧ c.labels = r.labels := by
      intro c hc hk
      have hcr : c ∈ ofKey := List.mem_filter.mpr ⟨hc, decide_eq_true (hk.trans hra)⟩
      rw [← hsub.eq_of_length hlen] at hcr
      exact of_decide_eq_true (List.mem_filter.mp hcr).2
    obtain ⟨hna, hla⟩ := hrows a ha rfl
    obtain ⟨hnb, hlb⟩ := hrows b hb hkey.symm
    exact ⟨hna.trans hnb.symm, hla.trans hlb.symm⟩
  · intro h e he
    obtain ⟨a, ha, rfl⟩ := mem_groupRowsBySeries.mp he
    obtain ⟨r, hr, -, hentry⟩ := exists_row_of_collected ha
    rw [hentry]
    refine congrArg _ (List.filter_congr fun r' hr' => decide_eq_decide.mpr ?_)
    constructor
    · exact fun hkey => h r' hr' r hr hkey
    · rintro ⟨hn, hl⟩
      rw [hn, hl]

/-! ### One result -/

/-- **When there is one result for each series**: whatever order the query leaves its ties in, an
instant selector answers with the latest sample of each series asked for and with nothing else, and
collecting rows by their keys keeps the samples of different series apart, exactly when nothing
rivals the latest samples and the keys of the rows collected tell their series. -/
theorem oneResult_iff (h : ValidatedTables xxh3 t) (sel : VectorSelector) (timeUs : ℤ)
    (rows : List (SeriesRow F)) :
    ((∀ E, OneResult t sel timeUs (instantSelector E t sel timeUs)) ∧ OwnSamples rows) ↔
      Unrivalled t sel timeUs ∧ KeysTell rows :=
  and_congr ⟨unrivalled_of_oneResult h, oneResult_of_unrivalled⟩ ownSamples_iff

section Instances

/-- A hash, to compute with. -/
def sumHash (bytes : List UInt8) : UInt64 :=
  bytes.foldl (fun h b => 31 * h + b.toUInt64) 7

/-- A series of `up`, as it is registered. -/
def registeredUp (labels : Labels) : Skaldberg.SeriesRow :=
  ⟨deriveSeriesId sumHash "up" labels, "up", labels⟩

/-- Tables with a sample at the epoch for each of two series. -/
def twoSeries (labels labels' : Labels) : Tables Whole :=
  ⟨[⟨(registeredUp labels).seriesId, 0, .num 1⟩, ⟨(registeredUp labels').seriesId, 0, .num 2⟩],
    [registeredUp labels, registeredUp labels']⟩

/-- The selector `up`. -/
def anyUp : VectorSelector := ⟨some "up", []⟩

theorem validatedTables_twoSeries {labels labels' : Labels}
    (hne : (registeredUp labels).seriesId ≠ (registeredUp labels').seriesId)
    (hl : ∀ e ∈ labels.entries, AcceptedName e.1) (hl' : ∀ e ∈ labels'.entries, AcceptedName e.1) :
    ValidatedTables sumHash (twoSeries labels labels') := by
  have hup : isValidName "up" = true := by decide
  refine ⟨by simpa [OneRowPerSeries, twoSeries] using hne, ?_⟩
  simp only [twoSeries, List.forall_mem_cons]
  exact ⟨⟨hup, hl, rfl⟩, ⟨hup, hl', rfl⟩, by simp⟩

/-- Tables with two jobs. -/
def twoJobs : Tables Whole := twoSeries (.ofList [("job", "api")]) (.ofList [("job", "db")])

/-- Tables with two series of one key. -/
def commaSeries : Tables Whole :=
  twoSeries (.ofList [("a", "1,b=2")]) (.ofList [("a", "1"), ("b", "2")])

/-- Two jobs are two results. -/
theorem oneResult_iff_two_jobs :
    (∀ E, OneResult twoJobs anyUp 0 (instantSelector E twoJobs anyUp 0)) ∧
      OwnSamples (runSelectorQuery Sql.Engine.stable twoJobs anyUp 0 0) := by
  have hrows : instantRows twoJobs anyUp 0 =
      askedRows twoJobs anyUp (0 - lookbackUs) 0 := by decide +kernel
  have hvalid : ValidatedTables sumHash twoJobs :=
    validatedTables_twoSeries (by decide +kernel) (by decide +kernel) (by decide +kernel)
  refine (oneResult_iff hvalid anyUp 0 _).mpr ⟨?_, by unfold KeysTell; decide +kernel⟩
  exact (unrivalled_iff_of_forall fun r => by rw [hrows]).mpr (by decide +kernel)

/-- **A comma in a label value**: `up{a="1,b=2"}` and `up{a="1",b="2"}`, both in the window, are one
result of an instant selector and one entry of a range selector. -/
theorem comma_in_value_collides :
    ValidatedTables sumHash commaSeries ∧
      ¬OneResult commaSeries anyUp 0
        (instantSelector Sql.Engine.stable commaSeries anyUp 0) ∧
      ¬OwnSamples (runSelectorQuery Sql.Engine.stable commaSeries anyUp 0 0) := by
  have hvalid : ValidatedTables sumHash commaSeries :=
    validatedTables_twoSeries (by decide +kernel) (by decide +kernel) (by decide +kernel)
  refine ⟨hvalid, fun h => ?_, by unfold OwnSamples; decide +kernel⟩
  -- the later of two rows with one key and one timestamp has no point
  have hasked : ∃ r ∈ askedRows commaSeries anyUp (0 - lookbackUs) 0,
      (instantSelector Sql.Engine.stable commaSeries anyUp 0).filter (fun p =>
        decide (p.metricName = r.2.metricName ∧ p.labels = r.2.labels)) = [] := by
    decide +kernel
  obtain ⟨r, hr, hnone⟩ := hasked
  obtain ⟨r', -, -, hpoints⟩ := h.one r hr
  exact List.cons_ne_nil _ _ (hpoints.symm.trans hnone)

end Instances

end Skaldberg.Prometheus
