import Skaldberg.Chrono
import Skaldberg.Ingest.Flush
import Skaldberg.Lib.Sql
import Skaldberg.Prometheus.Expr

/-!
# Selectors

A selector is answered by one query, which joins the samples with the series they belong to
and selects the rows of the window, and by a filter in the program over what comes back. The
matchers are split between the two: `=` and `!=` become conditions of the query
(`Skaldberg.Prometheus.selectorPredicates`), regular expressions stay for the program
(`labelFiltersForSelector`), and of the matchers on the metric name the query keeps one
(`effectiveMetricName`).

The evaluators that push more than the selection into the query start from the same rows,
`baseRows`. What they can see of the tables is settled here: in part of a dataset
(`Dataset.restrict`) a window has the rows of that part (`Dataset.baseRows_filter`), and what is
joined with the series again afterwards finds the same ones there (`Dataset.joinSeries_restrict`).
-/

namespace Skaldberg.Prometheus

variable {F : Type}

/-! ### What a selector means -/

/-- Whether a matcher accepts the value of its label. -/
def Matcher.accepts (m : Matcher) (v : String) : Bool :=
  match m.op with
  | .equal => v == m.value
  | .notEqual => v != m.value
  | .re isMatch => isMatch v
  | .notRe isMatch => !isMatch v

/-- A single matcher on a label map; a missing label is treated as the empty string. -/
def matchLabel (labels : Labels) (m : Matcher) : Bool :=
  m.accepts ((labels.get? m.name).getD "")

/-- Whether a matcher accepts a series, whose metric name is the label `__name__`. -/
def Matcher.matchesSeries (m : Matcher) (s : Skaldberg.SeriesRow) : Bool :=
  if m.name = "__name__" then m.accepts s.metricName else matchLabel s.labels m

/-- Whether a series satisfies a selector: it has its name, and every matcher accepts it. -/
def VectorSelector.matches (sel : VectorSelector) (s : Skaldberg.SeriesRow) : Bool :=
  (match sel.name with
    | some name => s.metricName == name
    | none => true) &&
  sel.matchers.all fun m => m.matchesSeries s

/-! ### The conditions of the query -/

/-- `us_to_ts_lit`: the instant of the literal that stands for a number of microseconds. One
that has no calendar date is written as the epoch. -/
def usToTsLit (us : ℤ) : DateTime := (DateTime.fromTimestampMicros us).getD ⟨0, 0⟩

theorem usToTsLit_micros (us : ℤ) :
    (usToTsLit us).micros = if InRangeMicros us then us else 0 := by
  have h := DateTime.fromTimestampMicros_eq us
  rw [usToTsLit]
  split_ifs at h ⊢ with hr
  · obtain ⟨dt, hdt, hus⟩ := Option.map_eq_some_iff.mp h
    rw [hdt]
    exact hus
  · rw [Option.map_eq_none_iff.mp h]
    rfl

/-- `element_at(labels, key)[1]`: the value of a label, missing when the series has none. -/
def elementAt (labels : Labels) (key : String) : Option String := labels.get? key

/-- A condition on the series of a row. -/
inductive SeriesCond
  /-- `s.metric_name = 'name'`. -/
  | metricNameEq (name : String)
  /-- `element_at(s.labels, 'key')[1] = 'val'`. -/
  | labelEq (key val : String)
  /-- `COALESCE(element_at(s.labels, 'key')[1], '') != 'val'`. -/
  | labelNe (key val : String)

/-- The value of a condition at a series. -/
def SeriesCond.eval (s : Skaldberg.SeriesRow) : SeriesCond → Sql.Truth
  | .metricNameEq name => Sql.compare (· == ·) (some s.metricName) (some name)
  | .labelEq key val => Sql.compare (· == ·) (elementAt s.labels key) (some val)
  | .labelNe key val => Sql.compare (· != ·) (some ((elementAt s.labels key).getD "")) (some val)

/-- The metric name of a selector: the one before the braces, or that of a `__name__="…"`
matcher. -/
def effectiveMetricName (sel : VectorSelector) : Option String :=
  match sel.name with
  | some n => some n
  | none =>
    (sel.matchers.find? fun m => m.name == "__name__" && match m.op with
      | .equal => true
      | _ => false).map Matcher.value

/-- The condition a matcher on a label becomes; regular expressions are left to the program. -/
def labelPredicate (m : Matcher) : Option SeriesCond :=
  if m.name = "__name__" then none
  else
    match m.op with
    | .equal => some (.labelEq m.name m.value)
    | .notEqual => some (.labelNe m.name m.value)
    | .re _ | .notRe _ => none

/-- The conditions of the query of a selector, without its window. -/
def selectorPredicates (sel : VectorSelector) : List SeriesCond :=
  ((effectiveMetricName sel).map .metricNameEq).toList ++ sel.matchers.filterMap labelPredicate

/-- The matchers that are left to the program. -/
def labelFiltersForSelector (sel : VectorSelector) : List Matcher :=
  (sel.matchers.filter fun m => m.name != "__name__").filter fun m =>
    match m.op with
    | .re _ | .notRe _ => true
    | _ => false

/-- `sa.timestamp BETWEEN TIMESTAMP '…' AND TIMESTAMP '…'`. -/
def timestampBetween (lo hi : ℤ) (sa : SampleRow F) : Sql.Truth :=
  some (decide ((usToTsLit lo).micros ≤ sa.timestamp ∧ sa.timestamp ≤ (usToTsLit hi).micros))

/-- The `WHERE` clause of a selector over a window. -/
def selectorWhere (sel : VectorSelector) (lo hi : ℤ) (r : SampleRow F × Skaldberg.SeriesRow) :
    Sql.Truth :=
  Sql.conj ((selectorPredicates sel).map (SeriesCond.eval r.2) ++ [timestampBetween lo hi r.1])

/-- `samples sa JOIN series s ON sa.series_id = s.series_id`. -/
def samplesJoinSeries (t : Tables F) : List (SampleRow F × Skaldberg.SeriesRow) :=
  Sql.join (fun sa s => sa.seriesId == s.seriesId) t.samples t.series

/-- The rows every query of a selector starts from. -/
def baseRows (t : Tables F) (sel : VectorSelector) (lo hi : ℤ) :
    List (SampleRow F × Skaldberg.SeriesRow) :=
  Sql.select (selectorWhere sel lo hi) (samplesJoinSeries t)

/-- Whether a series passes the conditions of the query. -/
def VectorSelector.pushed (sel : VectorSelector) (s : Skaldberg.SeriesRow) : Bool :=
  (Sql.conj ((selectorPredicates sel).map (SeriesCond.eval s))).holds

/-- Whether a series passes the filter of the program. -/
def VectorSelector.postFilter (sel : VectorSelector) (labels : Labels) : Bool :=
  (labelFiltersForSelector sel).all fun m => matchLabel labels m

theorem selectorWhere_holds (sel : VectorSelector) (lo hi : ℤ)
    (r : SampleRow F × Skaldberg.SeriesRow) :
    (selectorWhere sel lo hi r).holds =
      (sel.pushed r.2 && (timestampBetween lo hi r.1).holds) := by
  simp [selectorWhere, VectorSelector.pushed]

/-- **The rows of a window**: a sample in it, with a series of its identity that passes the
conditions. -/
theorem mem_baseRows {t : Tables F} {sel : VectorSelector} {lo hi : ℤ}
    {r : SampleRow F × Skaldberg.SeriesRow} :
    r ∈ baseRows t sel lo hi ↔
      (r.1 ∈ t.samples ∧ r.2 ∈ t.series ∧ r.1.seriesId = r.2.seriesId) ∧
        sel.pushed r.2 = true ∧ (timestampBetween lo hi r.1).holds = true := by
  rw [baseRows, Sql.mem_select, selectorWhere_holds, samplesJoinSeries, Sql.mem_join]
  simp

/-! ### What the query can see of the tables -/

/-- The tables with only some of the series, and their samples. -/
def restrict (p : Skaldberg.SeriesRow → Bool) (t : Tables F) : Tables F where
  samples := t.samples.filter fun sa => t.series.any fun s => s.seriesId == sa.seriesId && p s
  series := t.series.filter p

/-- `JOIN series s ON x.series_id = s.series_id`: the series that rows computed earlier belong
to. -/
def joinSeries {α : Type} (t : Tables F) (sid : α → ℤ) (rows : List α) :
    List (α × Skaldberg.SeriesRow) :=
  Sql.join (fun x s => sid x == s.seriesId) rows t.series

/-- Tables in which an identity stands for one series, as identities are derived from the metric
name and the labels. The same row may stand in the table several times. -/
structure Dataset (F : Type) extends Tables F where
  /-- Rows with one identity are the same row. -/
  functional : ∀ s ∈ series, ∀ s' ∈ series, s.seriesId = s'.seriesId → s = s'

/-- The part of a dataset with only some of the series. -/
def Dataset.restrict (p : Skaldberg.SeriesRow → Bool) (d : Dataset F) : Dataset F where
  toTables := Prometheus.restrict p d.toTables
  functional s hs s' hs' :=
    d.functional s (List.mem_of_mem_filter hs) s' (List.mem_of_mem_filter hs')

/-- Whether an identity is that of a series that passes a test. -/
def Dataset.HasSeries (d : Dataset F) (p : Skaldberg.SeriesRow → Bool) (sid : ℤ) : Prop :=
  ∃ s ∈ d.series, s.seriesId = sid ∧ p s = true

theorem Dataset.hasSeries_of_mem_baseRows {d : Dataset F} {sel : VectorSelector} {lo hi : ℤ}
    {r : SampleRow F × Skaldberg.SeriesRow} (h : r ∈ baseRows d.toTables sel lo hi) :
    d.HasSeries sel.pushed r.1.seriesId := by
  obtain ⟨⟨-, hs, hid⟩, hpush, -⟩ := mem_baseRows.mp h
  exact ⟨r.2, hs, hid.symm, hpush⟩

/-- **Joining with the series again adds nothing**: rows that belong to series of a part of the
tables are joined with the same series in that part. -/
theorem Dataset.joinSeries_restrict {α : Type} {d : Dataset F} {p : Skaldberg.SeriesRow → Bool}
    {sid : α → ℤ} {rows : List α} (h : ∀ x ∈ rows, d.HasSeries p (sid x)) :
    joinSeries (d.restrict p).toTables sid rows = joinSeries d.toTables sid rows := by
  refine Sql.join_congr fun x hx => ?_
  obtain ⟨s, hs, hid, hps⟩ := h x hx
  change (d.series.filter p).filter _ = _
  rw [List.filter_filter]
  refine List.filter_congr fun s' hs' => ?_
  by_cases hsid : sid x = s'.seriesId
  · rw [d.functional s' hs' s hs (hsid.symm.trans hid.symm), hps]
    simp
  · simp [hsid]

/-- Whether an identity is that of a series that passes a test, to be computed. -/
def Dataset.keeps (d : Dataset F) (p : Skaldberg.SeriesRow → Bool) (sid : ℤ) : Bool :=
  d.series.any fun s => s.seriesId == sid && p s

theorem Dataset.keeps_iff {d : Dataset F} {p : Skaldberg.SeriesRow → Bool} {sid : ℤ} :
    d.keeps p sid = true ↔ d.HasSeries p sid := by
  simp [Dataset.keeps, Dataset.HasSeries]

theorem Dataset.keeps_of_mem {d : Dataset F} {s : Skaldberg.SeriesRow} (hs : s ∈ d.series)
    (p : Skaldberg.SeriesRow → Bool) : d.keeps p s.seriesId = p s := by
  rw [Bool.eq_iff_iff, Dataset.keeps_iff]
  constructor
  · rintro ⟨s', hs', hid, hp⟩
    rwa [← d.functional s' hs' s hs hid]
  · intro hp
    exact ⟨s, hs, rfl, hp⟩

/-- **Joining in part of a dataset** is joining and then keeping that part. -/
theorem Dataset.joinSeries_filter {α : Type} (d : Dataset F) (p : Skaldberg.SeriesRow → Bool)
    (sid : α → ℤ) (rows : List α) :
    joinSeries (d.restrict p).toTables sid (rows.filter fun x => d.keeps p (sid x)) =
      (joinSeries d.toTables sid rows).filter fun r => d.keeps p (sid r.1) := by
  refine Sql.join_filter_both _ _ p fun x _ s hs hon => ?_
  rw [beq_iff_eq.mp hon, d.keeps_of_mem hs]

theorem keeps_of_mem_joinSeries {α : Type} {d : Dataset F} {p : Skaldberg.SeriesRow → Bool}
    {sid : α → ℤ} {rows : List α} {r : α × Skaldberg.SeriesRow}
    (hr : r ∈ joinSeries d.toTables sid rows) : d.keeps p (sid r.1) = p r.2 := by
  obtain ⟨-, hs, hon⟩ := Sql.mem_join.mp hr
  rw [beq_iff_eq.mp hon, d.keeps_of_mem hs]

/-- Where every series joined is in that part, nothing is left out. -/
theorem Dataset.joinSeries_filter_of_forall {α : Type} {d : Dataset F}
    {p : Skaldberg.SeriesRow → Bool} {sid : α → ℤ} {rows : List α}
    (h : ∀ r ∈ joinSeries d.toTables sid rows, p r.2 = true) :
    joinSeries (d.restrict p).toTables sid (rows.filter fun x => d.keeps p (sid x)) =
      joinSeries d.toTables sid rows := by
  rw [d.joinSeries_filter]
  refine List.filter_eq_self.mpr fun r hr => ?_
  rw [keeps_of_mem_joinSeries hr]
  exact h r hr

/-- **The rows of a window in part of a dataset**. -/
theorem Dataset.baseRows_filter {d : Dataset F} {p : Skaldberg.SeriesRow → Bool}
    {sel : VectorSelector} {lo hi : ℤ} :
    baseRows (d.restrict p).toTables sel lo hi =
      (baseRows d.toTables sel lo hi).filter fun r => d.keeps p r.1.seriesId := by
  have hjoin : samplesJoinSeries (d.restrict p).toTables =
      (samplesJoinSeries d.toTables).filter fun r => d.keeps p r.1.seriesId :=
    d.joinSeries_filter p _ _
  rw [baseRows, hjoin, Sql.select, List.filter_comm]
  rfl

/-! ### The selector query -/

/-- A row of the answer of a selector query. -/
structure SeriesRow (F : Type) where
  /-- The metric name of the series. -/
  metricName : String
  /-- The labels of the series. -/
  labels : Labels
  /-- The timestamp of the sample. -/
  tsUs : ℤ
  /-- The value of the sample. -/
  value : F
  deriving DecidableEq

/-- The columns of a joined row. -/
def seriesRow (r : SampleRow F × Skaldberg.SeriesRow) : SeriesRow F :=
  ⟨r.2.metricName, r.2.labels, r.1.timestamp, r.1.value⟩

/-- `ORDER BY metric_name, timestamp`. -/
def nameTimeLe (a b : String × ℤ) : Bool := decide (toLex a ≤ toLex b)

theorem nameTimeLe_total (a b : String × ℤ) : nameTimeLe a b = true ∨ nameTimeLe b a = true := by
  simpa [nameTimeLe] using le_total (toLex a) (toLex b)

theorem nameTimeLe_trans {a b c : String × ℤ} (hab : nameTimeLe a b = true)
    (hbc : nameTimeLe b c = true) : nameTimeLe a c = true :=
  decide_eq_true ((of_decide_eq_true hab).trans (of_decide_eq_true hbc))

/-- `run_selector_query`: the rows of the window, in the order of the query, that pass the
filter of the program. -/
def runSelectorQuery (E : Sql.Engine) (t : Tables F) (sel : VectorSelector) (fromUs toUs : ℤ) :
    List (SeriesRow F) :=
  ((E.sort (fun a b => nameTimeLe (a.metricName, a.tsUs) (b.metricName, b.tsUs))
    ((baseRows t sel fromUs toUs).map seriesRow))).filter fun r => sel.postFilter r.labels

/-! ### Points -/

/-- A series of the answer to an instant query. -/
structure InstantPoint (F : Type) where
  /-- The metric name, empty where the evaluation strips it. -/
  metricName : String
  /-- The labels. -/
  labels : Labels
  /-- The timestamp. -/
  tsUs : ℤ
  /-- The value. -/
  value : F
  deriving DecidableEq

/-- A series of the answer to a range query. -/
structure RangePoints (F : Type) where
  /-- The metric name, empty where the evaluation strips it. -/
  metricName : String
  /-- The labels. -/
  labels : Labels
  /-- The points, as timestamps and values. -/
  points : List (ℤ × F)
  deriving DecidableEq

/-- `series_key`: `metric{k=v,…}`. -/
def seriesKey (metricName : String) (labels : Labels) : String :=
  metricName ++ "\x7b" ++ ",".intercalate (labels.entries.map fun e => e.1 ++ "=" ++ e.2) ++ "\x7d"

/-- Push a point under the key of its series, under a new entry if it has none. -/
def pushPoint (m : SortedMap String (RangePoints F)) (r : SeriesRow F) :
    SortedMap String (RangePoints F) :=
  m.upsert (seriesKey r.metricName r.labels) fun
    | some e => { e with points := e.points ++ [(r.tsUs, r.value)] }
    | none => ⟨r.metricName, r.labels, [(r.tsUs, r.value)]⟩

/-- `group_rows_by_series`. -/
def groupRowsBySeries (rows : List (SeriesRow F)) : SortedMap String (RangePoints F) :=
  rows.foldl pushPoint .empty

/-- **The points of a series come out in the order of their timestamps**, and rows of the same
query in another order make the same series, when no series has two values at one timestamp. -/
theorem groupRowsBySeries_eq_of_perm {rows rows' : List (SeriesRow F)} (hperm : rows.Perm rows')
    (hrows : rows.Pairwise fun a b =>
      nameTimeLe (a.metricName, a.tsUs) (b.metricName, b.tsUs) = true)
    (hrows' : rows'.Pairwise fun a b =>
      nameTimeLe (a.metricName, a.tsUs) (b.metricName, b.tsUs) = true)
    (hval : ∀ a ∈ rows, ∀ b ∈ rows,
      seriesKey a.metricName a.labels = seriesKey b.metricName b.labels → a.tsUs = b.tsUs → a = b) :
    groupRowsBySeries rows = groupRowsBySeries rows' := by
  refine SortedMap.foldl_upsert_congr
    (fun r : SeriesRow F => seriesKey r.metricName r.labels) fun k => ?_
  refine (hperm.filter _).eq_of_pairwise (fun a b ha hb hab hba => ?_) (hrows.filter _)
    (hrows'.filter _)
  obtain ⟨ha, hka⟩ := List.mem_filter.mp ha
  obtain ⟨hb, hkb⟩ := List.mem_filter.mp hb
  have hts : a.tsUs = b.tsUs := by
    have heq := le_antisymm (of_decide_eq_true hab) (of_decide_eq_true hba)
    exact congrArg Prod.snd (toLex.injective heq)
  rw [decide_eq_true_eq] at hka hkb
  exact hval a ha b (hperm.mem_iff.mpr hb) (hka.trans hkb.symm) hts

/-- How far an instant query looks back for the latest sample of a series. -/
def lookbackUs : ℤ := 5 * 60 * 1000000

/-- Keep the later of two rows under the key of their series, the first one on a tie. -/
def keepLatest (m : SortedMap String (SeriesRow F)) (r : SeriesRow F) :
    SortedMap String (SeriesRow F) :=
  m.upsert (seriesKey r.metricName r.labels) fun
    | some prev => if prev.tsUs ≥ r.tsUs then prev else r
    | none => r

/-- `instant_selector`: the latest sample of each series in the lookback window, with its own
timestamp. -/
def instantSelector (E : Sql.Engine) (t : Tables F) (sel : VectorSelector) (timeUs : ℤ) :
    List (InstantPoint F) :=
  let rows := runSelectorQuery E t sel (asI64 (timeUs - lookbackUs)) timeUs
  (rows.foldl keepLatest .empty).values.map fun r => ⟨r.metricName, r.labels, r.tsUs, r.value⟩

/-- `range_selector`: the samples of the window, by series. -/
def rangeSelector (E : Sql.Engine) (t : Tables F) (sel : VectorSelector) (startUs endUs : ℤ) :
    List (RangePoints F) :=
  (groupRowsBySeries (runSelectorQuery E t sel startUs endUs)).values

end Skaldberg.Prometheus
