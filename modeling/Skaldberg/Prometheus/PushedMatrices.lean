import Skaldberg.Prometheus.MatrixShape
import Skaldberg.Prometheus.PushedShape
import Skaldberg.Prometheus.RangeWindows
import Skaldberg.Prometheus.RankedBuckets

/-!
# The matrices of queries

What a query answers is well formed as far as its selector does not ask for the same thing twice
(`Skaldberg.Prometheus.Unambiguous`): no series that the selector accepts has two samples at one
timestamp (`OneSample`), and no two of them have the same labels under different names (`OneName`).
-/

namespace Skaldberg.Prometheus

variable {F : Type}

/-! ### What a selector asks for -/

/-- The samples that a selector accepts, with their series, over all windows. -/
def selectedRows (t : Tables F) (sel : VectorSelector) :
    List (SampleRow F × Skaldberg.SeriesRow) :=
  (samplesJoinSeries t).filter fun r =>
    sel.pushed r.2 && sel.postFilter r.2.labels && decide (InRangeMicros r.1.timestamp)

/-- A selector accepts one sample of a series at a timestamp. -/
def OneSample (t : Tables F) (sel : VectorSelector) : Prop :=
  (selectedRows t sel).Pairwise fun r r' => r.2 = r'.2 → r.1.timestamp ≠ r'.1.timestamp

/-- A selector accepts one series with given labels. -/
def OneName (t : Tables F) (sel : VectorSelector) : Prop :=
  ∀ r ∈ selectedRows t sel, ∀ r' ∈ selectedRows t sel, r.2.labels = r'.2.labels → r.2 = r'.2

/-- A selector accepts one sample of a series at a timestamp, and one series with given labels. -/
structure Unambiguous (t : Tables F) (sel : VectorSelector) : Prop where
  /-- No series has two samples at one timestamp. -/
  oneSample : OneSample t sel
  /-- No two series differ in their names only. -/
  oneName : OneName t sel

instance (t : Tables F) (sel : VectorSelector) : Decidable (OneSample t sel) :=
  inferInstanceAs (Decidable (List.Pairwise _ _))

instance (t : Tables F) (sel : VectorSelector) : Decidable (OneName t sel) :=
  inferInstanceAs (Decidable (∀ r ∈ selectedRows t sel, ∀ r' ∈ selectedRows t sel,
    r.2.labels = r'.2.labels → r.2 = r'.2))

instance (t : Tables F) (sel : VectorSelector) : Decidable (Unambiguous t sel) :=
  decidable_of_iff (OneSample t sel ∧ OneName t sel)
    ⟨fun h => ⟨h.1, h.2⟩, fun h => ⟨h.oneSample, h.oneName⟩⟩

variable {τ : Type} {t : Tables F} {sel : VectorSelector} {lo hi : ℤ}

/-- The bound of a window has a date. -/
theorem inRangeMicros_usToTsLit (us : ℤ) : InRangeMicros (usToTsLit us).micros := by
  rw [usToTsLit_micros]
  split_ifs with h
  · exact h
  · decide

theorem timestampBetween_holds {sa : SampleRow F} :
    (timestampBetween lo hi sa).holds = true ↔
      (usToTsLit lo).micros ≤ sa.timestamp ∧ sa.timestamp ≤ (usToTsLit hi).micros := by
  rw [timestampBetween, Sql.Truth.holds_some, decide_eq_true_eq]

theorem inRangeMicros_of_timestampBetween {sa : SampleRow F}
    (h : (timestampBetween lo hi sa).holds = true) : InRangeMicros sa.timestamp := by
  obtain ⟨hlo, hhi⟩ := timestampBetween_holds.mp h
  exact ⟨(inRangeMicros_usToTsLit lo).1.trans hlo, hhi.trans_lt (inRangeMicros_usToTsLit hi).2⟩

theorem mem_selectedRows {r : SampleRow F × Skaldberg.SeriesRow} :
    r ∈ selectedRows t sel ↔ (r.1 ∈ t.samples ∧ r.2 ∈ t.series ∧ r.1.seriesId = r.2.seriesId) ∧
      sel.pushed r.2 = true ∧ sel.postFilter r.2.labels = true ∧
        InRangeMicros r.1.timestamp := by
  rw [selectedRows, List.mem_filter, samplesJoinSeries, Sql.mem_join]
  simp [and_assoc]

theorem mem_selectedRows_of_mem_baseRows {r : SampleRow F × Skaldberg.SeriesRow}
    (hr : r ∈ baseRows t sel lo hi) (hpost : sel.postFilter r.2.labels = true) :
    r ∈ selectedRows t sel := by
  obtain ⟨hjoin, hpush, hwindow⟩ := mem_baseRows.mp hr
  exact mem_selectedRows.mpr ⟨hjoin, hpush, hpost, inRangeMicros_of_timestampBetween hwindow⟩

/-- The series of a row of a query has a sample. -/
theorem snd_mem_sampledSeries {r : SampleRow F × Skaldberg.SeriesRow}
    (hr : r ∈ baseRows t sel lo hi) : r.2 ∈ sampledSeries t := by
  obtain ⟨⟨hsample, hs, hid⟩, -, hwindow⟩ := mem_baseRows.mp hr
  exact mem_sampledSeries.mpr ⟨hs, r.1, hsample, hid, inRangeMicros_of_timestampBetween hwindow⟩

/-! ### The points of a query -/

/-- No accepted series has two points at one timestamp. -/
def PointsApart (t : Tables F) (accept : Labels → Bool) (points : List (Point τ F)) : Prop :=
  points.Pairwise fun x y =>
    (∃ s ∈ t.series, s.seriesId = x.seriesId ∧ accept s.labels = true) →
      x.seriesId = y.seriesId → x.at_ ≠ y.at_

/-- A point belongs to a series with a sample, one that passes the conditions of the query. -/
def PointsSampled (t : Tables F) (sel : VectorSelector) (points : List (Point τ F)) : Prop :=
  ∀ x ∈ points, ∃ r ∈ samplesJoinSeries t, r.2.seriesId = x.seriesId ∧ sel.pushed r.2 = true ∧
    InRangeMicros r.1.timestamp

/-- Accepted series with points differ in their labels. -/
def LabelsTell (t : Tables F) (accept : Labels → Bool) (points : List (Point τ F)) : Prop :=
  ∀ x ∈ points, ∀ y ∈ points, ∀ s ∈ t.series, ∀ s' ∈ t.series, s.seriesId = x.seriesId →
    s'.seriesId = y.seriesId → accept s.labels = true → s.labels = s'.labels → s = s'

theorem LabelsTell.mono {accept accept' : Labels → Bool} {points points' : List (Point τ F)}
    (h : LabelsTell t accept points)
    (hpoints : ∀ x ∈ points', ∃ y ∈ points, y.seriesId = x.seriesId)
    (haccept : ∀ labels, accept' labels = true → accept labels = true) :
    LabelsTell t accept' points' := by
  intro x hx y hy s hs s' hs' hid hid' hacc
  obtain ⟨x', hx', hxid⟩ := hpoints x hx
  obtain ⟨y', hy', hyid⟩ := hpoints y hy
  exact h x' hx' y' hy' s hs s' hs' (hid.trans hxid.symm) (hid'.trans hyid.symm) (haccept _ hacc)

theorem PointsApart.subperm {accept : Labels → Bool} {points points' : List (Point τ F)}
    (h : PointsApart t accept points) (hsub : points'.Subperm points) :
    PointsApart t accept points' := by
  obtain ⟨l, hperm, hl⟩ := hsub
  exact (h.sublist hl).perm hperm fun {x y} hxy hacc hid => (hxy (hid ▸ hacc) hid.symm).symm

theorem PointsApart.of_nodup {accept : Labels → Bool} {points : List (Point τ F)}
    (h : (points.map fun x => (x.at_, x.seriesId)).Nodup) : PointsApart t accept points := by
  rw [List.Nodup, List.pairwise_map] at h
  exact h.imp fun hne _ hid hat => hne (Prod.ext hat hid)

theorem pointsSampled_windowPoints (t : Tables F) (sel : VectorSelector) (lo hi : ℤ) :
    PointsSampled t sel (windowPoints t sel lo hi) := by
  intro x hx
  obtain ⟨r, hr, rfl⟩ := List.mem_map.mp hx
  obtain ⟨hjoin, hpush, hwindow⟩ := mem_baseRows.mp hr
  exact ⟨r, Sql.mem_join.mpr ⟨hjoin.1, hjoin.2.1, beq_iff_eq.mpr hjoin.2.2⟩, hjoin.2.2.symm, hpush,
    inRangeMicros_of_timestampBetween hwindow⟩

theorem pointsSampled_rangefn [F64 F] (E : Sql.Engine) (op : RangeFnOp) (rangeUs : ℤ)
    (evals : List ℤ) (startUs endUs : ℤ) :
    PointsSampled t sel (perSeriesRangefnRangeCtes E t sel op rangeUs evals startUs endUs) := by
  intro x hx
  obtain ⟨b, hb, -, hbid⟩ := exists_base_of_mem_perSeries hx
  obtain ⟨r, hr, rfl⟩ := List.mem_map.mp hb
  obtain ⟨hjoin, hcond⟩ := Sql.mem_select.mp hr
  obtain ⟨heval, hseries, hon⟩ := Sql.mem_join.mp hjoin
  rw [selectorWhere_holds, Bool.and_eq_true] at hcond
  exact ⟨(r.1.2, r.2), Sql.mem_join.mpr ⟨(Sql.mem_join.mp heval).2.1, hseries, hon⟩,
    (beq_iff_eq.mp hon).symm.trans hbid, hcond.1, inRangeMicros_of_timestampBetween hcond.2⟩

section Points

variable (hrow : OneRowPerSeries t)
include hrow

/-- **The samples of a window are apart** where the selector accepts one at a timestamp. -/
theorem pointsApart_windowPoints (h : OneSample t sel) (lo hi : ℤ) :
    PointsApart t sel.postFilter (windowPoints t sel lo hi) := by
  rw [OneSample, selectedRows, List.pairwise_filter] at h
  rw [PointsApart, windowPoints, List.pairwise_map]
  refine (h.filter _).imp_of_mem fun {r r'} hr hr' hne hacc hid => ?_
  obtain ⟨s, hs, hsid, hpost⟩ := hacc
  have hr : r ∈ baseRows t sel lo hi := hr
  have hr' : r' ∈ baseRows t sel lo hi := hr'
  have hseries : r.2 = r'.2 := snd_eq_of_mem_baseRows hrow hr hr' hid
  have hrs : r.2 = s := series_eq hrow (mem_baseRows.mp hr).1.2.1 hs
    ((mem_baseRows.mp hr).1.2.2.symm.trans hsid.symm)
  have hsel := (List.mem_filter.mp (mem_selectedRows_of_mem_baseRows hr (hrs ▸ hpost))).2
  have hsel' := (List.mem_filter.mp
    (mem_selectedRows_of_mem_baseRows hr' (hseries ▸ hrs ▸ hpost))).2
  exact hne hsel hsel' hseries

/-- The series of a point has a sample. -/
theorem PointsSampled.sampled {points : List (Point τ F)} (h : PointsSampled t sel points)
    {x : Point τ F} (hx : x ∈ points) {s : Skaldberg.SeriesRow} (hs : s ∈ t.series)
    (hid : s.seriesId = x.seriesId) : s ∈ sampledSeries t := by
  obtain ⟨r, hr, hrid, -, hrange⟩ := h x hx
  obtain ⟨hsample, hseries, hon⟩ := Sql.mem_join.mp hr
  rw [series_eq hrow hs hseries (hid.trans hrid.symm)]
  exact mem_sampledSeries.mpr ⟨hseries, r.1, hsample, beq_iff_eq.mp hon, hrange⟩

/-- An accepted series with a point has a sample that the selector accepts. -/
theorem PointsSampled.selected {points : List (Point τ F)} (h : PointsSampled t sel points)
    {x : Point τ F} (hx : x ∈ points) {s : Skaldberg.SeriesRow} (hs : s ∈ t.series)
    (hid : s.seriesId = x.seriesId) (hpost : sel.postFilter s.labels = true) :
    ∃ r ∈ selectedRows t sel, r.2 = s := by
  obtain ⟨r, hr, hrid, hpush, hrange⟩ := h x hx
  obtain ⟨hsample, hseries, hon⟩ := Sql.mem_join.mp hr
  have hrs : r.2 = s := (series_eq hrow hs hseries (hid.trans hrid.symm)).symm
  exact ⟨r, mem_selectedRows.mpr
    ⟨⟨hsample, hseries, beq_iff_eq.mp hon⟩, hpush, hrs ▸ hpost, hrange⟩, hrs⟩

/-- Where a selector accepts one series with given labels, labels tell the series of its points. -/
theorem PointsSampled.labelsTell {points : List (Point τ F)} (h : PointsSampled t sel points)
    (hone : OneName t sel) : LabelsTell t sel.postFilter points := by
  intro x hx y hy s hs s' hs' hid hid' hpost hlabels
  obtain ⟨r, hr, rfl⟩ := h.selected hrow hx hs hid hpost
  obtain ⟨r', hr', rfl⟩ := h.selected hrow hy hs' hid' (hlabels ▸ hpost)
  exact hone r hr r' hr' hlabels

variable [F64 F] {inner : Pushdown} {evals : List ℤ} {startUs endUs : ℤ} {E : Sql.Engine}

omit hrow in
theorem Pushdown.pointsSampled :
    PointsSampled t inner.sel (inner.rangePoints E t startUs endUs evals) := by
  cases inner with
  | selector sel => exact pointsSampled_windowPoints t sel startUs endUs
  | rangeFn sel rangeUs op => exact pointsSampled_rangefn E op rangeUs evals startUs endUs

theorem Pushdown.pointsApart (h : OneSample t inner.sel) :
    PointsApart t inner.sel.postFilter (inner.rangePoints E t startUs endUs evals) := by
  cases inner with
  | selector sel => exact pointsApart_windowPoints hrow h startUs endUs
  | rangeFn sel rangeUs op =>
    exact .of_nodup (nodup_perSeriesRangefn E (rangeBase t sel rangeUs evals startUs endUs) op)

/-- What a query ranks or decodes are its points with their series. -/
theorem Pushdown.rangeRows_sublist :
    ((inner.rangeRows E t startUs endUs evals).map Prod.fst).Sublist
      (inner.rangePoints E t startUs endUs evals) := by
  cases inner with
  | selector sel =>
    rw [Pushdown.rangeRows, List.map_map]
    exact List.Sublist.refl _
  | rangeFn sel rangeUs op => exact joinSeries_fst_sublist hrow _ _

omit hrow in
theorem Pushdown.series_of_mem_rangeRows {r : Point ℤ F × Skaldberg.SeriesRow}
    (hr : r ∈ inner.rangeRows E t startUs endUs evals) :
    r.2 ∈ t.series ∧ r.1.seriesId = r.2.seriesId := by
  cases inner with
  | selector sel =>
    obtain ⟨x, hx, rfl⟩ := List.mem_map.mp hr
    exact (mem_baseRows.mp hx).1.2
  | rangeFn sel rangeUs op =>
    obtain ⟨-, hs, hon⟩ := Sql.mem_join.mp hr
    exact ⟨hs, beq_iff_eq.mp hon⟩

end Points

/-! ### Decoding the rows of a query -/

/-- **Rows sorted by name and time**: those that belong together come in the order of their
timestamps. -/
theorem pairwise_sort_nameTime {α : Type} (E : Sql.Engine) (key : α → String × ℤ)
    (same : α → α → Prop) {once : Prop} {rows : List α} (hsymm : ∀ a b, same a b → same b a)
    (hname : ∀ a ∈ rows, ∀ b ∈ rows, same a b → (key a).1 = (key b).1)
    (htime : once → rows.Pairwise fun a b => same a b → (key a).2 ≠ (key b).2) :
    (E.sort (fun a b => nameTimeLe (key a) (key b)) rows).Pairwise fun a b =>
      same a b → Follows once (key a).2 (key b).2 := by
  have hsorted := E.sort_pairwise (fun a b => nameTimeLe (key a) (key b)) rows
    (fun _ _ => nameTimeLe_total _ _) fun _ _ _ => nameTimeLe_trans
  have hdistinct : (E.sort (fun a b => nameTimeLe (key a) (key b)) rows).Pairwise fun a b =>
      once → same a b → (key a).2 ≠ (key b).2 := by
    by_cases honce : once
    · refine ((htime honce).perm (E.sort_perm _ rows).symm fun {a b} hab hsame => ?_).imp
        fun hab _ => hab
      exact (hab (hsymm b a hsame)).symm
    · exact List.pairwise_of_forall fun _ _ h => absurd h honce
  refine (hsorted.and hdistinct).imp_of_mem fun {a b} ha hb hab hsame =>
    ⟨?_, fun honce => hab.2 honce hsame⟩
  rcases Prod.Lex.toLex_le_toLex.mp (of_decide_eq_true hab.1) with hlt | ⟨-, hle⟩
  · exact absurd (hname a (E.mem_sort.mp ha) b (E.mem_sort.mp hb) hsame) hlt.ne
  · exact hle

section Rows

variable {α : Type} {accept : Labels → Bool} {points : List (Point τ F)} {rows : List α}
  {proj : α → Point τ F × Skaldberg.SeriesRow}
  {row : α → Option (Point τ F × Skaldberg.SeriesRow)} {name : String → String}

/-- A query makes rows of some points, each with its series: at the timestamp of the point and with
the labels of the series, under a name that is kept or stripped for all of them. -/
structure RowsOf (t : Tables F) (points : List (Point τ F)) (rows : List α)
    (proj : α → Point τ F × Skaldberg.SeriesRow)
    (row : α → Option (Point τ F × Skaldberg.SeriesRow)) (name : String → String) : Prop where
  /-- A point is taken once. -/
  points : (rows.map fun a => (proj a).1).Subperm points
  /-- A point is with its series. -/
  series : ∀ a ∈ rows, (proj a).2 ∈ t.series ∧ (proj a).1.seriesId = (proj a).2.seriesId
  /-- The name is kept or stripped. -/
  name_eq : ∀ n, name n = n ∨ name n = ""
  /-- A row is at the timestamp of its point. -/
  at_ : ∀ a r, row a = some r → r.1.at_ = (proj a).1.at_
  /-- A row has the labels of its series. -/
  labels : ∀ a r, row a = some r → r.2.labels = (proj a).2.labels
  /-- A row has the name of its series. -/
  metricName : ∀ a r, row a = some r → r.2.metricName = name (proj a).2.metricName

/-- Points with their series are rows as they are. -/
theorem RowsOf.of_points {rows : List (Point τ F × Skaldberg.SeriesRow)}
    (hsub : (rows.map Prod.fst).Subperm points)
    (hseries : ∀ r ∈ rows, r.2 ∈ t.series ∧ r.1.seriesId = r.2.seriesId) :
    RowsOf t points rows id some id where
  points := hsub
  series := hseries
  name_eq _ := Or.inl rfl
  at_ _ _ h := by cases h; rfl
  labels _ _ h := by cases h; rfl
  metricName _ _ h := by cases h; rfl

variable (hrows : RowsOf t points rows proj row name)
include hrows

theorem RowsOf.partOf (hrow : OneRowPerSeries t) (hsampled : PointsSampled t sel points) {a : α}
    (ha : a ∈ rows) {r : Point τ F × Skaldberg.SeriesRow} (hr : row a = some r) :
    PartOf t (fun _ => true) r.2.metricName r.2.labels := by
  obtain ⟨hs, hid⟩ := hrows.series a ha
  have hpart := partOf_series (hsampled.sampled hrow
    (hrows.points.subset (List.mem_map_of_mem ha)) hs hid.symm)
  rw [hrows.labels a r hr, hrows.metricName a r hr]
  rcases hrows.name_eq (proj a).2.metricName with hname | hname
  · rw [hname]
    exact hpart
  · rw [hname]
    exact hpart.unnamed

theorem RowsOf.series_eq (htell : LabelsTell t accept points) {a b : α} (ha : a ∈ rows)
    (hb : b ∈ rows) (hacc : accept (proj a).2.labels = true)
    (hlabels : (proj a).2.labels = (proj b).2.labels) : (proj a).2 = (proj b).2 :=
  htell _ (hrows.points.subset (List.mem_map_of_mem ha)) _
    (hrows.points.subset (List.mem_map_of_mem hb)) _ (hrows.series a ha).1 _ (hrows.series b hb).1
    (hrows.series a ha).2.symm (hrows.series b hb).2.symm hacc hlabels

/-- Rows of one name and label map are of one series, as far as names stay or labels tell. -/
theorem RowsOf.series_eq_of_name {xxh3 : List UInt8 → UInt64} (hvalid : ValidatedTables xxh3 t)
    (hname : (∀ n, name n = n) ∨ LabelsTell t accept points) {a b : α} (ha : a ∈ rows)
    (hb : b ∈ rows) (hacc : accept (proj a).2.labels = true)
    (hnames : name (proj a).2.metricName = name (proj b).2.metricName)
    (hlabels : (proj a).2.labels = (proj b).2.labels) : (proj a).2 = (proj b).2 := by
  rcases hname with hname | htell
  · rw [hname, hname] at hnames
    exact hvalid.series_eq (hrows.series a ha).1 (hrows.series b hb).1 hnames hlabels
  · exact hrows.series_eq htell ha hb hacc hlabels

end Rows

section Decode

variable {α : Type} {accept : Labels → Bool} {keep : F → Bool} {points : List (Point ℤ F)}
  {rows : List α} {proj : α → Point ℤ F × Skaldberg.SeriesRow}
  {row : α → Option (Point ℤ F × Skaldberg.SeriesRow)} {name : String → String}

/-- The rows in the order of the query. -/
def sortedRows (E : Sql.Engine) (proj : α → Point ℤ F × Skaldberg.SeriesRow) (rows : List α) :
    List α :=
  E.sort (fun a b => nameTimeLe ((proj a).2.metricName, (proj a).1.at_)
    ((proj b).2.metricName, (proj b).1.at_)) rows

/-- The answer of a query to some rows. -/
def decodeSorted (E : Sql.Engine) (accept : Labels → Bool) (keep : F → Bool)
    (proj : α → Point ℤ F × Skaldberg.SeriesRow)
    (row : α → Option (Point ℤ F × Skaldberg.SeriesRow)) (rows : List α) : List (RangePoints F) :=
  decodeRangeRows accept keep ((sortedRows E proj rows).filterMap row)

theorem decodeSorted_of_points (E : Sql.Engine) (accept : Labels → Bool) (keep : F → Bool)
    (rows : List (Point ℤ F × Skaldberg.SeriesRow)) :
    decodeSorted E accept keep id some rows =
      decodeRangeRows accept keep (orderByNameTime E rows) := by
  rw [decodeSorted, List.filterMap_some]
  rfl

theorem OfSeries.decodeSorted (hrow : OneRowPerSeries t) (hsampled : PointsSampled t sel points)
    (hrows : RowsOf t points rows proj row name) (E : Sql.Engine) :
    OfSeries t (Prometheus.decodeSorted E accept keep proj row rows) := by
  refine OfSeries.groupRowsBySeries (fun _ => true) fun r hr => ?_
  obtain ⟨x, hx, rfl⟩ := List.mem_map.mp hr
  obtain ⟨a, ha, hx⟩ := List.mem_filterMap.mp (List.mem_of_mem_filter hx)
  exact hrows.partOf hrow hsampled (E.mem_sort.mp ha) hx

/-- **In the order of the query, the rows of a series are in the order of their timestamps.** -/
theorem RowsOf.pairwise_sortedRows {once : Prop} (hrows : RowsOf t points rows proj row name)
    (hpoints : once → PointsApart t accept points) (E : Sql.Engine) :
    (sortedRows E proj rows).Pairwise fun a b => accept (proj a).2.labels = true →
      (proj a).2 = (proj b).2 → Follows once (proj a).1.at_ (proj b).1.at_ := by
  have htime : once → rows.Pairwise fun a b => accept (proj a).2.labels = true →
      (proj a).2 = (proj b).2 → (proj a).1.at_ ≠ (proj b).1.at_ := by
    intro honce
    refine (List.pairwise_map.mp ((hpoints honce).subperm hrows.points)).imp_of_mem
      fun {a b} ha hb hab hacc heq => ?_
    obtain ⟨hs, hid⟩ := hrows.series a ha
    refine hab ⟨(proj a).2, hs, hid.symm, hacc⟩ ?_
    rw [hid, (hrows.series b hb).2, heq]
  have hsorted := pairwise_sort_nameTime E (fun a : α => ((proj a).2.metricName, (proj a).1.at_))
    (fun a b => accept (proj a).2.labels = true ∧ (proj a).2 = (proj b).2)
    (fun a b hab => ⟨hab.2 ▸ hab.1, hab.2.symm⟩)
    (fun a _ b _ hab => congrArg Skaldberg.SeriesRow.metricName hab.2)
    (fun honce => (htime honce).imp fun hab hsame => hab hsame.1 hsame.2)
  exact hsorted.imp fun hab hacc heq => hab ⟨hacc, heq⟩

/-- **The answer of a query is told** by its names and labels, if it keeps the names or labels tell
the accepted series, and has its points in the order of time. -/
theorem told_decodeSorted {xxh3 : List UInt8 → UInt64} {once labelled : Prop}
    (hvalid : ValidatedTables xxh3 t) (hapart : SpeltApart t)
    (htell : labelled → LabelsTell t accept points) (hname : (∀ n, name n = n) ∨ labelled)
    (hpoints : once → PointsApart t accept points)
    (hsampled : PointsSampled t sel points) (hrows : RowsOf t points rows proj row name)
    (E : Sql.Engine) :
    Told once labelled (decodeSorted E accept keep proj row rows) := by
  have horigin : ∀ r ∈ ((sortedRows E proj rows).filterMap row).filter
      (fun r => accept r.2.labels && keep r.1.value), ∃ a ∈ rows, row a = some r ∧
        accept (proj a).2.labels = true := by
    intro r hr
    obtain ⟨hr, hacc⟩ := List.mem_filter.mp hr
    obtain ⟨a, ha, hrow⟩ := List.mem_filterMap.mp hr
    rw [Bool.and_eq_true, hrows.labels a r hrow] at hacc
    exact ⟨a, E.mem_sort.mp ha, hrow, hacc.1⟩
  refine told_groupRowsBySeries (fun x hx y hy => ?_) (fun hlabelled x hx y hy hlabels => ?_) ?_
  · obtain ⟨r, hr, rfl⟩ := List.mem_map.mp hx
    obtain ⟨r', hr', rfl⟩ := List.mem_map.mp hy
    obtain ⟨a, ha, hrow, -⟩ := horigin r hr
    obtain ⟨b, hb, hrow', -⟩ := horigin r' hr'
    exact (hrows.partOf hvalid.oneRow hsampled ha hrow).seriesKey_eq_iff hvalid hapart
      (hrows.partOf hvalid.oneRow hsampled hb hrow')
  · obtain ⟨r, hr, rfl⟩ := List.mem_map.mp hx
    obtain ⟨r', hr', rfl⟩ := List.mem_map.mp hy
    obtain ⟨a, ha, hrow, hacc⟩ := horigin r hr
    obtain ⟨b, hb, hrow', -⟩ := horigin r' hr'
    change r.2.labels = r'.2.labels at hlabels
    rw [hrows.labels a r hrow, hrows.labels b r' hrow'] at hlabels
    change r.2.metricName = r'.2.metricName
    rw [hrows.metricName a r hrow, hrows.metricName b r' hrow',
      hrows.series_eq (htell hlabelled) ha hb hacc hlabels]
  · rw [List.pairwise_map, List.pairwise_filter, List.pairwise_filterMap]
    refine (hrows.pairwise_sortedRows hpoints E).imp_of_mem
      fun {a b} ha hb hab r hrow r' hrow' hacc hacc' hnames hlabels => ?_
    rw [Bool.and_eq_true, hrows.labels a r hrow] at hacc
    change r.2.labels = r'.2.labels at hlabels
    change r.2.metricName = r'.2.metricName at hnames
    rw [hrows.labels a r hrow, hrows.labels b r' hrow'] at hlabels
    rw [hrows.metricName a r hrow, hrows.metricName b r' hrow'] at hnames
    change Follows once r.1.at_ r'.1.at_
    rw [hrows.at_ a r hrow, hrows.at_ b r' hrow']
    exact hab hacc.1 (hrows.series_eq_of_name hvalid (hname.imp_right htell) (E.mem_sort.mp ha)
      (E.mem_sort.mp hb) hacc.1 hnames hlabels)

end Decode

/-! ### Cuts in the query -/

section Cuts

variable [DecidableEq τ] [F64 F] {inner : Pushdown} {evals : List ℤ} {startUs endUs : ℤ}
  {E : Sql.Engine} (hrow : OneRowPerSeries t)
include hrow

omit [F64 F] hrow in
theorem map_fst_rowNumber_perm {β κ : Type} [DecidableEq κ] (E : Sql.Engine) (key : β → κ)
    (le : β → β → Bool) (rows : List β) :
    ((E.rowNumber key le rows).map Prod.fst).Perm rows := by
  rw [E.rowNumber_eq, List.map_flatMap]
  refine List.Perm.trans ?_ (Sql.flatMap_groupBy_perm key rows)
  refine List.Perm.flatMap_left _ fun g _ => ?_
  rw [List.zipIdx_map_fst]
  exact E.sort_perm le g.2

theorem map_fst_keepTop_subperm {β κ : Type} [DecidableEq κ] (n : ℕ) (top : Bool)
    (group : β → κ) (rows : List (Point τ F × β)) :
    ((keepTop t n (rankPoints E top group rows)).map Prod.fst).Subperm (rows.map Prod.fst) := by
  have hranked : ((rankPoints E top group rows).map Prod.fst).Perm (rows.map Prod.fst) := by
    rw [rankPoints, List.map_map]
    have := (map_fst_rowNumber_perm E (fun r : Point τ F × β => (r.1.at_, group r.2))
      (fun a b => orderDir top a.1.value b.1.value) rows).map Prod.fst
    rwa [List.map_map] at this
  have hkept : ((keepTop t n (rankPoints E top group rows)).map Prod.fst).Sublist
      ((rankPoints E top group rows).map Prod.fst) := by
    have := (joinSeries_fst_sublist hrow (fun r : Point τ F × ℕ => r.1.seriesId)
      (rankPoints E top group rows)).map Prod.fst
    rw [List.map_map] at this
    rw [keepTop, List.map_map]
    exact (List.filter_sublist.map _).trans this
  exact hkept.subperm.trans hranked.subperm

omit hrow [F64 F] in
/-- A series has one text. -/
theorem nodup_gk (E : Sql.Engine) (t : Tables F) (excluded : List String) (sids : List ℤ) :
    ((gk E t excluded sids).map Prod.fst).Nodup := by
  rw [gk, List.map_map]
  exact Sql.nodup_groupBy_keys Prod.fst _

omit hrow [DecidableEq τ] in
theorem joinGk_fst_sublist (E : Sql.Engine) (t : Tables F) (excluded : List String)
    (sids : List ℤ) (points : List (Point τ F)) :
    ((joinGk E t excluded sids points).map Prod.fst).Sublist points := by
  rw [joinGk, List.map_map]
  refine Sql.join_fst_sublist fun x _ => ?_
  have hle := Sql.length_filter_key_le (nodup_gk E t excluded sids) x.seriesId
  simpa only [eq_comm] using hle

/-- **A cut keeps points, each once**, with their series. -/
theorem topkOf_subperm {modifier : Option LabelModifier} {n : ℕ} {top : Bool} {sids : List ℤ}
    {points : List (Point τ F)} {rows : List (Point τ F × Skaldberg.SeriesRow)}
    (hrows : (rows.map Prod.fst).Sublist points) :
    ((topkOf E t n top modifier sids points rows).map Prod.fst).Subperm points := by
  rw [topkOf]
  split
  · exact (map_fst_keepTop_subperm hrow n top id _).trans
      (joinGk_fst_sublist E t _ sids points).subperm
  · exact (map_fst_keepTop_subperm hrow n top _ rows).trans hrows.subperm

omit hrow in
theorem series_of_mem_topkOf {modifier : Option LabelModifier} {n : ℕ} {top : Bool}
    {sids : List ℤ} {points : List (Point τ F)}
    {rows : List (Point τ F × Skaldberg.SeriesRow)} {r : Point τ F × Skaldberg.SeriesRow}
    (hr : r ∈ topkOf E t n top modifier sids points rows) :
    r.2 ∈ t.series ∧ r.1.seriesId = r.2.seriesId := by
  rw [topkOf] at hr
  split at hr
  · exact (mem_keepTop hr).2
  · exact (mem_keepTop hr).2

end Cuts

/-! ### The samples of a window -/

section Window

variable {xxh3 : List UInt8 → UInt64}

/-- **The samples of a window** make a matrix that is told by its names and labels. -/
theorem told_rangeSelector {once labelled : Prop} (hvalid : ValidatedTables xxh3 t)
    (hapart : SpeltApart t) (hone : once → OneSample t sel) (hname : labelled → OneName t sel)
    (E : Sql.Engine) (startUs endUs : ℤ) :
    Told once labelled (rangeSelector E t sel startUs endUs) := by
  let base := baseRows t sel startUs endUs
  have hrow : ∀ r ∈ runSelectorQuery E t sel startUs endUs,
      ∃ x ∈ base, x ∈ selectedRows t sel ∧ seriesRow x = r := by
    intro r hr
    obtain ⟨x, hx, rfl⟩ := exists_row_of_mem_runSelectorQuery hr
    exact ⟨x, hx, mem_selectedRows_of_mem_baseRows hx (List.mem_filter.mp hr).2, rfl⟩
  refine told_groupRowsBySeries (fun a ha b hb => ?_) (fun hlabelled a ha b hb hlabels => ?_) ?_
  · obtain ⟨x, hx, -, rfl⟩ := hrow a ha
    obtain ⟨y, hy, -, rfl⟩ := hrow b hb
    exact (partOf_series (snd_mem_sampledSeries hx)).seriesKey_eq_iff hvalid hapart
      (partOf_series (snd_mem_sampledSeries hy))
  · obtain ⟨x, -, hxsel, rfl⟩ := hrow a ha
    obtain ⟨y, -, hysel, rfl⟩ := hrow b hb
    exact congrArg Skaldberg.SeriesRow.metricName (hname hlabelled x hxsel y hysel hlabels)
  · let same (a b : SeriesRow F) : Prop :=
      sel.postFilter a.labels = true ∧ a.labels = b.labels ∧ a.metricName = b.metricName
    have hbase : once → (base.map seriesRow).Pairwise fun a b => same a b → a.tsUs ≠ b.tsUs := by
      intro honce
      have hsamples := hone honce
      rw [OneSample, selectedRows, List.pairwise_filter] at hsamples
      rw [List.pairwise_map]
      refine (hsamples.filter _).imp_of_mem fun {x y} hx hy hne hsame => ?_
      obtain ⟨hpost, hlabels, hname⟩ := hsame
      have hx : x ∈ base := hx
      have hy : y ∈ base := hy
      have hxsel := mem_selectedRows_of_mem_baseRows hx hpost
      have hysel := mem_selectedRows_of_mem_baseRows hy
        ((congrArg sel.postFilter hlabels).symm.trans hpost)
      exact hne (List.mem_filter.mp hxsel).2 (List.mem_filter.mp hysel).2
        (hvalid.series_eq (mem_baseRows.mp hx).1.2.1 (mem_baseRows.mp hy).1.2.1 hname hlabels)
    have hsorted := pairwise_sort_nameTime E (fun a : SeriesRow F => (a.metricName, a.tsUs)) same
      (fun a b hab => ⟨hab.2.1 ▸ hab.1, hab.2.1.symm, hab.2.2.symm⟩) (fun _ _ _ _ hab => hab.2.2)
      hbase
    rw [runSelectorQuery, List.pairwise_filter]
    exact hsorted.imp fun hab hpost _ hname hlabels => hab ⟨hpost, hlabels, hname⟩

theorem OfSeries.rangeSelector (E : Sql.Engine) (startUs endUs : ℤ) :
    OfSeries t (Prometheus.rangeSelector E t sel startUs endUs) := by
  refine OfSeries.groupRowsBySeries (fun _ => true) fun r hr => ?_
  obtain ⟨x, hx, rfl⟩ := exists_row_of_mem_runSelectorQuery hr
  exact partOf_series (snd_mem_sampledSeries hx)

end Window

end Skaldberg.Prometheus
