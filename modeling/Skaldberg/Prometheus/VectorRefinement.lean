import Skaldberg.Prometheus.SelectorSemantics
import Skaldberg.Prometheus.VectorMatching

/-!
# Operators between selectors

Which points meet is the one difference between an operator in a query and in the program
(`Skaldberg.Prometheus.mem_vectorVectorInstantViaSql`, `mem_applyVectorVectorInstant`). The query
matches two series by their texts and pairs every left point with every right one; the program
looks the labels of a left series up among those of the right ones, and has one point for the
series that share a key, and one for those that share their labels.

The two agree for every table of samples of some series exactly when a left and a right series have
the same text if and only if they have the same labels, and when those that meet are one on each
side (`MatchedByText`, `vectorVector_refines_iff`). The label-less series are why the first half of
it may fail where no label has a separator in it: they have the same labels, and no text
(`labelless_series_never_meet`).
-/

namespace Skaldberg.Prometheus

/-! ### What is to agree -/

/-- An operator between two selectors has the same points in the query and in the program. -/
structure VectorAgrees (E : Sql.Engine) (t : Tables Exact) (lsel rsel : VectorSelector) : Prop where
  /-- The points of an instant have the same names, labels and values. -/
  instant : ∀ op returnBool timeUs x,
    x ∈ (vectorVectorInstantViaSql E t lsel rsel op returnBool timeUs).map InstantPoint.named ↔
      x ∈ (applyVectorVectorInstant (instantSelector E t lsel timeUs)
        (instantSelector E t rsel timeUs) op returnBool).map InstantPoint.named
  /-- The points of a matrix have the same names, labels, timestamps and values. -/
  range : ∀ op returnBool startUs endUs row,
    row ∈ (vectorVectorRangeViaSql E t lsel rsel op returnBool startUs endUs).flatMap
      RangePoints.rows ↔
        row ∈ (applyVectorVectorRange (rangeSelector E t lsel startUs endUs)
          (rangeSelector E t rsel startUs endUs) op returnBool).flatMap RangePoints.rows

/-- Series are matched by their texts as they are by their labels, one to one. -/
structure MatchedByText (left right : List Skaldberg.SeriesRow) : Prop where
  /-- A text in common is the same labels. -/
  told : ∀ l ∈ left, ∀ r ∈ right, SameText l r ↔ l.labels = r.labels
  /-- What is matched on the right is one series of the left. -/
  one_left : ∀ l ∈ left, ∀ l' ∈ left, ∀ r ∈ right,
    l.labels = r.labels → l'.labels = r.labels → l = l'
  /-- What is matched on the left is one series of the right. -/
  one_right : ∀ r ∈ right, ∀ r' ∈ right, ∀ l ∈ left,
    l.labels = r.labels → l.labels = r'.labels → r = r'

theorem spelling_eq_empty {labels : Labels} : spelling labels = "" ↔ labels.isEmpty = true := by
  rw [spelling, SortedMap.isEmpty]
  rcases labels.entries with _ | ⟨e, _ | ⟨e', l⟩⟩
  · simp
  · simp
  · simp

theorem remaining_nil (labels : Labels) : remaining [] labels = labels :=
  SortedMap.ext_entries (List.filter_eq_self.mpr fun _ _ => rfl)

/-- **The text of all the labels of a series** is what they spell, if there are any. -/
theorem groupText_nil (s : Skaldberg.SeriesRow) :
    groupText [] s = if spelling s.labels = "" then none else some (spelling s.labels) := by
  rw [groupText, remaining_nil]
  by_cases hempty : s.labels.isEmpty = true
  · rw [if_pos hempty, if_pos (spelling_eq_empty.mpr hempty)]
  · rw [if_neg hempty, if_neg fun hs => hempty (spelling_eq_empty.mp hs)]

theorem sameText_iff {s s' : Skaldberg.SeriesRow} :
    SameText s s' ↔ spelling s.labels = spelling s'.labels ∧ s.labels.isEmpty = false := by
  rw [SameText, groupText_nil, groupText_nil, ← Bool.not_eq_true, ← spelling_eq_empty]
  constructor
  · rintro ⟨text, hs, hs'⟩
    split_ifs at hs hs' with hne hne'
    exact ⟨(Option.some.inj hs).trans (Option.some.inj hs').symm, hne⟩
  · rintro ⟨heq, hne⟩
    refine ⟨spelling s.labels, if_neg hne, ?_⟩
    rw [← heq, if_neg hne]

instance (s s' : Skaldberg.SeriesRow) : Decidable (SameText s s') :=
  decidable_of_iff _ sameText_iff.symm

instance (left right : List Skaldberg.SeriesRow) : Decidable (MatchedByText left right) :=
  decidable_of_iff ((∀ l ∈ left, ∀ r ∈ right, SameText l r ↔ l.labels = r.labels) ∧
    (∀ l ∈ left, ∀ l' ∈ left, ∀ r ∈ right, l.labels = r.labels → l'.labels = r.labels → l = l') ∧
      ∀ r ∈ right, ∀ r' ∈ right, ∀ l ∈ left, l.labels = r.labels → l.labels = r'.labels → r = r')
    ⟨fun h => ⟨h.1, h.2.1, h.2.2⟩, fun h => ⟨h.told, h.one_left, h.one_right⟩⟩

theorem spelling_eq_of_seriesKey {name : String} {labels labels' : Labels}
    (h : seriesKey name labels = seriesKey name labels') : spelling labels = spelling labels' := by
  rw [seriesKey, seriesKey, String.append_left_inj, String.append_right_inj] at h
  exact h

section Selectors

variable {t : Tables Exact} {lsel rsel : VectorSelector} {m m' : String}

theorem metricName_of_pushed {sel : VectorSelector} {name : String}
    (hname : effectiveMetricName sel = some name) {s : Skaldberg.SeriesRow}
    (hpush : sel.pushed s = true) : s.metricName = name := (pushed_iff.mp hpush).1 name hname

theorem mem_selectedSeries {sel : VectorSelector} {s : Skaldberg.SeriesRow} :
    s ∈ selectedSeries t sel ↔ s ∈ t.series ∧ sel.pushed s = true := List.mem_filter

/-- The series of a row is one of those selected. -/
theorem snd_mem_selectedSeries {sel : VectorSelector} {lo hi : ℤ}
    {r : SampleRow Exact × Skaldberg.SeriesRow} (hr : r ∈ baseRows t sel lo hi) :
    r.2 ∈ selectedSeries t sel :=
  mem_selectedSeries.mpr ⟨(mem_baseRows.mp hr).1.2.1, (mem_baseRows.mp hr).2.1⟩

variable (hmatched : MatchedByText (selectedSeries t lsel) (selectedSeries t rsel))
include hmatched

/-- **No left series shares the key of one that is matched.** -/
theorem ownKey_left (hm : effectiveMetricName lsel = some m) {l r : Skaldberg.SeriesRow}
    (hl : l ∈ selectedSeries t lsel) (hr : r ∈ selectedSeries t rsel)
    (htext : SameText l r) : OwnKey t lsel l := by
  intro s hs hpush hkey
  have hsel : s ∈ selectedSeries t lsel := mem_selectedSeries.mpr ⟨hs, hpush⟩
  rw [metricName_of_pushed hm hpush, metricName_of_pushed hm (mem_selectedSeries.mp hl).2] at hkey
  have hspell := spelling_eq_of_seriesKey hkey
  obtain ⟨hlr, hne⟩ := sameText_iff.mp htext
  have hs : SameText s r := by
    refine sameText_iff.mpr ⟨hspell.trans hlr, ?_⟩
    rwa [← Bool.not_eq_true, ← spelling_eq_empty, hspell, spelling_eq_empty, Bool.not_eq_true]
  exact hmatched.one_left s hsel l hl r hr ((hmatched.told s hsel r hr).mp hs)
    ((hmatched.told l hl r hr).mp htext)

/-- Nor does a right one. -/
theorem ownKey_right (hm : effectiveMetricName rsel = some m) {l r : Skaldberg.SeriesRow}
    (hl : l ∈ selectedSeries t lsel) (hr : r ∈ selectedSeries t rsel)
    (htext : SameText l r) : OwnKey t rsel r := by
  intro s hs hpush hkey
  have hsel : s ∈ selectedSeries t rsel := mem_selectedSeries.mpr ⟨hs, hpush⟩
  rw [metricName_of_pushed hm hpush, metricName_of_pushed hm (mem_selectedSeries.mp hr).2] at hkey
  have hspell := spelling_eq_of_seriesKey hkey
  obtain ⟨hlr, hne⟩ := sameText_iff.mp htext
  have hs : SameText l s := sameText_iff.mpr ⟨hlr.trans hspell.symm, hne⟩
  exact hmatched.one_right s hsel r hr l hl ((hmatched.told l hl s hsel).mp hs)
    ((hmatched.told l hl r hr).mp htext)

end Selectors

/-! ### Where series are matched one to one -/

section Sufficient

variable {t : Tables Exact} {lsel rsel : VectorSelector} {m m' : String} {E : Sql.Engine}

/-- A latest row is told by its series. -/
theorem latestRows_eq (h : OneRowPerSeries t) (hts : DistinctTimestamps t) {sel : VectorSelector}
    {lo hi : ℤ} {r r' : SampleRow Exact × Skaldberg.SeriesRow} (hr : r ∈ latestRows t sel lo hi)
    (hr' : r' ∈ latestRows t sel lo hi) (hs : r.2 = r'.2) : r = r' := by
  have hbase := mem_baseRows_of_mem_latestRows hr
  have hbase' := mem_baseRows_of_mem_latestRows hr'
  have hid : r.1.seriesId = r'.1.seriesId := by
    rw [(mem_baseRows.mp hbase).1.2.2, (mem_baseRows.mp hbase').1.2.2, hs]
  have hle := List.all_eq_true.mp (List.mem_filter.mp hr).2 r' hbase'
  have hle' := List.all_eq_true.mp (List.mem_filter.mp hr').2 r hbase
  refine baseRows_eq h hts hbase hbase' hid (le_antisymm ?_ ?_)
  · simpa [hid] using hle'
  · simpa [hid] using hle

variable (h : OneRowPerSeries t) (hplain : Plain t) (hm : effectiveMetricName lsel = some m)
  (hm' : effectiveMetricName rsel = some m') (hlsel : lsel.RegexFree) (hrsel : rsel.RegexFree)
  (hmatched : MatchedByText (selectedSeries t lsel) (selectedSeries t rsel))
include h hplain hm hm' hlsel hrsel hmatched

/-- **Series matched one to one meet in both evaluations of an instant.** -/
theorem instant_of_matched (op : BinOp) (returnBool : Bool) (timeUs : ℤ)
    (x : String × Labels × Exact) :
    x ∈ (vectorVectorInstantViaSql E t lsel rsel op returnBool timeUs).map InstantPoint.named ↔
      x ∈ (applyVectorVectorInstant (instantSelector E t lsel timeUs)
        (instantSelector E t rsel timeUs) op returnBool).map InstantPoint.named := by
  rw [mem_vectorVectorInstantViaSql h hplain hlsel hrsel, mem_applyVectorVectorInstant]
  have hselected : ∀ {sel : VectorSelector} {r : SampleRow Exact × Skaldberg.SeriesRow},
      r ∈ latestRows t sel (asI64 (timeUs - lookbackUs)) timeUs → r.2 ∈ selectedSeries t sel :=
    fun hr => snd_mem_selectedSeries (mem_baseRows_of_mem_latestRows hr)
  constructor
  · rintro ⟨a, ha, b, hb, htext, v, hv, rfl⟩
    have hlabels := (hmatched.told _ (hselected ha) _ (hselected hb)).mp htext
    have hown := ownKey_left hmatched hm (hselected ha) (hselected hb) htext
    have hown' := ownKey_right hmatched hm' (hselected ha) (hselected hb) htext
    have hleft : instantPoint a ∈ instantSelector E t lsel timeUs :=
      (mem_instantSelector_iff h hplain.distinctTimestamps hlsel.nothingRefused hown rfl rfl).mpr
        ⟨a, ha, rfl, rfl⟩
    have hright : instantPoint b ∈ instantSelector E t rsel timeUs :=
      (mem_instantSelector_iff h hplain.distinctTimestamps hrsel.nothingRefused hown' rfl rfl).mpr
        ⟨b, hb, rfl, rfl⟩
    refine ⟨instantPoint a, hleft, instantPoint b, ?_, v, hv, rfl⟩
    refine SortedMap.get?_ofList_of_unique (List.mem_map.mpr ⟨_, hright, Prod.ext hlabels.symm rfl⟩)
      fun q hq => ?_
    -- another point with these labels is of a series that meets the left one too
    obtain ⟨q', hq', heq⟩ := List.mem_map.mp hq
    obtain ⟨hqlabels, rfl⟩ := Prod.mk.inj heq
    obtain ⟨c, hc, rfl⟩ := exists_row_of_mem_instantSelector hq'
    have hcb : c.2 = b.2 := hmatched.one_right c.2 (snd_mem_selectedSeries hc) b.2 (hselected hb)
      a.2 (hselected ha) hqlabels.symm hlabels
    obtain ⟨c', hc', hcs, hpoint⟩ := (mem_instantSelector_iff h hplain.distinctTimestamps
      hrsel.nothingRefused hown' (congrArg Skaldberg.SeriesRow.metricName hcb)
        (congrArg Skaldberg.SeriesRow.labels hcb)).mp hq'
    rw [hpoint, latestRows_eq h hplain.distinctTimestamps hc' hb hcs]
  · rintro ⟨p, hp, q, hq, v, hv, rfl⟩
    obtain ⟨q', hq', heq⟩ := List.mem_map.mp (SortedMap.mem_of_get?_ofList hq)
    obtain ⟨hqlabels, rfl⟩ := Prod.mk.inj heq
    obtain ⟨a, ha, rfl⟩ := exists_row_of_mem_instantSelector hp
    obtain ⟨b, hb, rfl⟩ := exists_row_of_mem_instantSelector hq'
    have hl := snd_mem_selectedSeries ha
    have hr := snd_mem_selectedSeries hb
    have htext : SameText a.2 b.2 := (hmatched.told _ hl _ hr).mpr hqlabels.symm
    obtain ⟨a', ha', has, hpoint⟩ := (mem_instantSelector_iff h hplain.distinctTimestamps
      hlsel.nothingRefused (ownKey_left hmatched hm hl hr htext) rfl rfl).mp hp
    obtain ⟨b', hb', hbs, hpoint'⟩ := (mem_instantSelector_iff h hplain.distinctTimestamps
      hrsel.nothingRefused (ownKey_right hmatched hm' hl hr htext) rfl rfl).mp hq'
    refine ⟨a', ha', b', hb', by rw [has, hbs]; exact htext, v, ?_, ?_⟩
    · rw [hpoint, hpoint'] at hv
      exact hv
    · rw [hpoint]
      rfl

omit hm' in
/-- The rows of a matrix query are of one series each, as their names and texts tell. -/
theorem flatMap_rows_of_matched {op : BinOp} {returnBool : Bool} {startUs endUs : ℤ}
    {row : SeriesRow Exact} :
    row ∈ (vectorVectorRangeViaSql E t lsel rsel op returnBool startUs endUs).flatMap
        RangePoints.rows ↔
      ∃ a ∈ baseRows t lsel startUs endUs, ∃ b ∈ baseRows t rsel startUs endUs,
        a.1.timestamp = b.1.timestamp ∧ SameText a.2 b.2 ∧
          ∃ v, applyOp op returnBool a.1.value b.1.value a.1.value = some v ∧
            row = ⟨resultName op returnBool a.2.metricName, a.2.labels, a.1.timestamp, v⟩ := by
  obtain ⟨rows, hrange, hrows⟩ := mem_rows_vectorVectorRangeViaSql (E := E) h hplain hlsel hrsel
    op returnBool startUs endUs
  rw [hrange, (flatMap_groupRowsBySeries_perm fun x hx y hy hkey => ?_).mem_iff, hrows]
  obtain ⟨a, ha, b, hb, -, htext, v, -, rfl⟩ := (hrows x).mp hx
  obtain ⟨a', ha', b', hb', -, htext', v', -, rfl⟩ := (hrows y).mp hy
  have hname : a.2.metricName = a'.2.metricName := by
    rw [metricName_of_pushed hm (mem_baseRows.mp ha).2.1,
      metricName_of_pushed hm (mem_baseRows.mp ha').2.1]
  rw [hname] at hkey
  -- both left series have the text of the right series of the one, and so its labels
  have hcross : SameText a'.2 b.2 := by
    obtain ⟨hspell, -⟩ := sameText_iff.mp htext
    obtain ⟨-, hne⟩ := sameText_iff.mp htext'
    exact sameText_iff.mpr ⟨(spelling_eq_of_seriesKey hkey).symm.trans hspell, hne⟩
  have hl := snd_mem_selectedSeries ha
  have hl' := snd_mem_selectedSeries ha'
  have hr := snd_mem_selectedSeries hb
  refine ⟨congrArg (resultName op returnBool) hname, ?_⟩
  exact ((hmatched.told _ hl _ hr).mp htext).trans ((hmatched.told _ hl' _ hr).mp hcross).symm

/-- **Series matched one to one meet in both evaluations of a matrix.** -/
theorem range_of_matched (op : BinOp) (returnBool : Bool) (startUs endUs : ℤ)
    (row : SeriesRow Exact) :
    row ∈ (vectorVectorRangeViaSql E t lsel rsel op returnBool startUs endUs).flatMap
      RangePoints.rows ↔
        row ∈ (applyVectorVectorRange (rangeSelector E t lsel startUs endUs)
          (rangeSelector E t rsel startUs endUs) op returnBool).flatMap RangePoints.rows := by
  rw [flatMap_rows_of_matched h hplain hm hlsel hrsel hmatched, mem_rows_applyVectorVectorRange]
  have hpoints : ∀ {sel : VectorSelector} {s : Skaldberg.SeriesRow}, sel.RegexFree →
      OwnKey t sel s → ∀ {r : SampleRow Exact × Skaldberg.SeriesRow},
        r ∈ baseRows t sel startUs endUs → r.2 = s →
          s.metricName = (seriesOf E t sel startUs endUs s).metricName ∧
            s.labels = (seriesOf E t sel startUs endUs s).labels ∧
              (r.1.timestamp, r.1.value) ∈ (seriesOf E t sel startUs endUs s).points := by
    rintro sel s hfree hown r hr rfl
    exact mem_rows.mp ((mem_rows_seriesOf hfree.nothingRefused hown).mpr ⟨r, hr, rfl, rfl⟩)
  have hrow : ∀ {sel : VectorSelector} {s : Skaldberg.SeriesRow}, sel.RegexFree → OwnKey t sel s →
      ∀ {p : ℤ × Exact}, p ∈ (seriesOf E t sel startUs endUs s).points →
        ∃ r ∈ baseRows t sel startUs endUs, r.2 = s ∧ p = (r.1.timestamp, r.1.value) := by
    intro sel s hfree hown p hp
    obtain ⟨r, hr, hs, hreq⟩ := (mem_rows_seriesOf hfree.nothingRefused hown).mp
      (mem_rows.mpr ⟨rfl, rfl, hp⟩ : (⟨_, _, p.1, p.2⟩ : SeriesRow Exact) ∈ _)
    obtain ⟨-, -, hts, hv⟩ := SeriesRow.mk.inj hreq
    exact ⟨r, hr, hs, Prod.ext hts.symm hv.symm⟩
  constructor
  · rintro ⟨a, ha, b, hb, htime, htext, v, hv, rfl⟩
    have hl := snd_mem_selectedSeries ha
    have hr := snd_mem_selectedSeries hb
    have hlabels := (hmatched.told _ hl _ hr).mp htext
    have hown' := ownKey_right hmatched hm' hl hr htext
    obtain ⟨hname, hleft, hpoint⟩ := hpoints hlsel (ownKey_left hmatched hm hl hr htext) ha rfl
    obtain ⟨-, hright, hpoint'⟩ := hpoints hrsel hown' hb rfl
    refine ⟨_, seriesOf_mem_rangeSelector hlsel.nothingRefused ha,
      SortedMap.ofList (seriesOf E t rsel startUs endUs b.2).points, ?_, _, hpoint, b.1.value, ?_,
      v, hv, by rw [hname, hleft]⟩
    · refine SortedMap.get?_ofList_of_unique (List.mem_map.mpr
        ⟨_, seriesOf_mem_rangeSelector hrsel.nothingRefused hb, Prod.ext ?_ rfl⟩) fun pts hpts => ?_
      · rw [← hright, ← hleft, hlabels]
      · obtain ⟨q, hq, heq⟩ := List.mem_map.mp hpts
        obtain ⟨hqlabels, rfl⟩ := Prod.mk.inj heq
        obtain ⟨c, hc, -, hclabels, rfl⟩ := exists_row_of_mem_rangeSelector hq
        rw [hmatched.one_right c.2 (snd_mem_selectedSeries hc) b.2 hr a.2 hl
          (by rw [← hclabels, hqlabels, ← hleft]) hlabels]
    · refine SortedMap.get?_ofList_of_unique (by rw [htime]; exact hpoint') fun v' hv' => ?_
      obtain ⟨r, hr', hrs, hp⟩ := hrow hrsel hown' hv'
      obtain ⟨hts, rfl⟩ := Prod.mk.inj hp
      have hid : r.1.seriesId = b.1.seriesId := by
        rw [(mem_baseRows.mp hr').1.2.2, (mem_baseRows.mp hb).1.2.2, hrs]
      rw [baseRows_eq h hplain.distinctTimestamps hr' hb hid (hts.symm.trans htime)]
  · rintro ⟨l, hl, pts, hpts, p, hp, rv, hrv, v, hv, rfl⟩
    obtain ⟨q, hq, heq⟩ := List.mem_map.mp (SortedMap.mem_of_get?_ofList hpts)
    obtain ⟨hqlabels, rfl⟩ := Prod.mk.inj heq
    obtain ⟨a₀, ha₀, hname, hlabels, hleq⟩ := exists_row_of_mem_rangeSelector hl
    obtain ⟨b₀, hb₀, -, hlabels', hqeq⟩ := exists_row_of_mem_rangeSelector hq
    have hleft := snd_mem_selectedSeries ha₀
    have hright := snd_mem_selectedSeries hb₀
    have htext : SameText a₀.2 b₀.2 := (hmatched.told _ hleft _ hright).mpr
      (by rw [← hlabels, ← hqlabels, hlabels'])
    obtain ⟨a, ha, has, rfl⟩ := hrow hlsel (ownKey_left hmatched hm hleft hright htext) (hleq ▸ hp)
    obtain ⟨b, hb, hbs, hpb⟩ := hrow hrsel (ownKey_right hmatched hm' hleft hright htext)
      (hqeq ▸ SortedMap.mem_of_get?_ofList hrv)
    obtain ⟨htime, rfl⟩ := Prod.mk.inj hpb
    refine ⟨a, ha, b, hb, htime, by rw [has, hbs]; exact htext, v, hv, ?_⟩
    rw [hname, hlabels, has]

end Sufficient

/-! ### Samples at the epoch -/

section Necessary

variable {series ss : List Skaldberg.SeriesRow} {lsel rsel : VectorSelector} {m : String}

variable (value : ℤ → ℚ) (h : (series.map Skaldberg.SeriesRow.seriesId).Nodup)
    (hlsel : lsel.RegexFree)
  (hrsel : rsel.RegexFree) (hagree : ∀ samples, Plain ⟨samples, series⟩ → ∀ E,
    VectorAgrees E ⟨samples, series⟩ lsel rsel)
include h hlsel hrsel hagree

/-- **The sum of two samples whose series have one text** is in the program, as it is in the
query. -/
theorem sum_mem_of_agrees (hss : ss.Sublist series) {l r : Skaldberg.SeriesRow} (hl : l ∈ ss)
    (hr : r ∈ ss) (hlpush : lsel.pushed l = true) (hrpush : rsel.pushed r = true)
    (htext : SameText l r) :
    ("", l.labels, .num (value l.seriesId + value r.seriesId)) ∈
      (applyVectorVectorInstant (instantSelector Sql.Engine.stable (atEpoch value series ss) lsel 0)
        (instantSelector Sql.Engine.stable (atEpoch value series ss) rsel 0) .add false).map
          InstantPoint.named := by
  have hplain : Plain (atEpoch value series ss) := plain_atEpoch (h.sublist (hss.map _))
  refine ((hagree _ hplain Sql.Engine.stable).instant .add false 0 _).mp ?_
  refine (mem_vectorVectorInstantViaSql (t := atEpoch value series ss) h hplain hlsel hrsel).mpr
    ⟨_, mem_latestRows_atEpoch value h hss.subset (by decide) hl hlpush, _,
      mem_latestRows_atEpoch value h hss.subset (by decide) hr hrpush, htext, _, rfl, rfl⟩

/-- **Two sums are one**, where the left series share a key. -/
theorem sum_eq_of_agrees (hss : ss.Sublist series) {k : String}
    (hkey : ∀ s ∈ ss, lsel.pushed s = true → seriesKey s.metricName s.labels = k)
    {l l' r r' : Skaldberg.SeriesRow} (hl : l ∈ ss) (hl' : l' ∈ ss) (hr : r ∈ ss) (hr' : r' ∈ ss)
    (hlpush : lsel.pushed l = true) (hlpush' : lsel.pushed l' = true)
    (hrpush : rsel.pushed r = true) (hrpush' : rsel.pushed r' = true) (htext : SameText l r)
    (htext' : SameText l' r') :
    value l.seriesId + value r.seriesId = value l'.seriesId + value r'.seriesId := by
  have hmem := sum_mem_of_agrees value h hlsel hrsel hagree hss hl hr hlpush hrpush htext
  have hmem' := sum_mem_of_agrees value h hlsel hrsel hagree hss hl' hr' hlpush' hrpush'
    htext'
  obtain ⟨p, hp, q, hq, v, hv, hx⟩ := mem_applyVectorVectorInstant.mp hmem
  obtain ⟨p', hp', q', hq', v', hv', hx'⟩ := mem_applyVectorVectorInstant.mp hmem'
  -- the program has one left point
  have hone : p = p' := by
    have hle := length_instantSelector_le_one value h hss.subset hkey Sql.Engine.stable
    match instantSelector Sql.Engine.stable (atEpoch value series ss) lsel 0, hle, hp, hp' with
    | [x], _, hp, hp' => rw [List.mem_singleton.mp hp, List.mem_singleton.mp hp']
  subst hone
  have hqq : q = q' := Option.some.inj (hq.symm.trans hq')
  subst hqq
  have hvv : v = v' := Option.some.inj (hv.symm.trans hv')
  simp only [Prod.mk.injEq] at hx hx'
  exact Exact.num.inj (hx.2.2.trans (hvv.trans hx'.2.2.symm))

/-- **The sum of two samples is of series with one text**: a point of the program is one of the
query. -/
theorem sameText_of_labels (hss : ss.Sublist series) {l r : Skaldberg.SeriesRow} (hl : l ∈ ss)
    (hr : r ∈ ss) (hlpush : lsel.pushed l = true) (hrpush : rsel.pushed r = true)
    (hlabels : ∀ s ∈ ss, s.labels = l.labels) : SameText l r := by
  let t : Tables Exact := atEpoch (fun _ => 0) series ss
  have hplain : Plain t := plain_atEpoch (h.sublist (hss.map _))
  obtain ⟨p, hp⟩ := exists_mem_instantSelector (E := Sql.Engine.stable) (t := t)
    hlsel.nothingRefused (mem_baseRows_atEpoch (fun _ => 0) (by decide) (hss.subset hl) hl
      hlpush)
  obtain ⟨q, hq⟩ := exists_mem_instantSelector (E := Sql.Engine.stable) (t := t)
    hrsel.nothingRefused (mem_baseRows_atEpoch (fun _ => 0) (by decide) (hss.subset hr) hr
      hrpush)
  have hlabelled : ∀ {sel : VectorSelector} {p : InstantPoint Exact},
      p ∈ instantSelector Sql.Engine.stable t sel 0 → p.labels = l.labels := by
    intro sel p hp
    obtain ⟨r, hr, rfl⟩ := exists_row_of_mem_instantSelector hp
    exact hlabels r.2 (eq_of_mem_baseRows_atEpoch h hss.subset hr).1
  -- the left point has a right one under its labels
  have hkey : p.labels ∈ (SortedMap.ofList ((instantSelector Sql.Engine.stable t rsel 0).map
      fun r => (r.labels, r))).keys := by
    rw [SortedMap.mem_keys_ofList, hlabelled hp, ← hlabelled hq, List.map_map]
    exact List.mem_map_of_mem hq
  obtain ⟨q', hq'⟩ := Option.isSome_iff_exists.mp (SortedMap.contains_iff_mem_keys.mpr hkey)
  have hpoint := ((hagree _ hplain Sql.Engine.stable).instant .add false 0 _).mpr
    (mem_applyVectorVectorInstant.mpr ⟨p, hp, q', hq', _, rfl, rfl⟩)
  obtain ⟨a, ha, b, -, htext, -⟩ := (mem_vectorVectorInstantViaSql (t := t) h hplain hlsel
    hrsel).mp hpoint
  obtain ⟨-, hne⟩ := sameText_iff.mp htext
  have hal := hlabels a.2 (eq_of_mem_baseRows_atEpoch h hss.subset
    (mem_baseRows_of_mem_latestRows ha)).1
  refine sameText_iff.mpr ⟨?_, hal ▸ hne⟩
  rw [hlabels r hr]

/-- **Series with one text have one set of labels**: else their sum has those of neither. -/
theorem labels_of_sameText {l r : Skaldberg.SeriesRow} (hl : l ∈ series) (hr : r ∈ series)
    (hlpush : lsel.pushed l = true) (hrpush : rsel.pushed r = true) (htext : SameText l r) :
    l.labels = r.labels := by
  by_contra hne
  let ss : List Skaldberg.SeriesRow := series.filter fun s => decide (s = l ∨ s = r)
  have hss : ss.Sublist series := List.filter_sublist
  have hmem : ∀ s, s ∈ ss ↔ s ∈ series ∧ (s = l ∨ s = r) := by simp [ss]
  have hid : l.seriesId ≠ r.seriesId := fun hid =>
    hne (congrArg Skaldberg.SeriesRow.labels (List.inj_on_of_nodup_map h hl hr hid))
  let value : ℤ → ℚ := fun sid => if sid = r.seriesId then 1 else 0
  have hsum := sum_mem_of_agrees value h hlsel hrsel hagree hss ((hmem l).mpr
    ⟨hl, Or.inl rfl⟩) ((hmem r).mpr ⟨hr, Or.inr rfl⟩) hlpush hrpush htext
  obtain ⟨p, hp, q, hq, v, hv, hx⟩ := mem_applyVectorVectorInstant.mp hsum
  simp only [Prod.mk.injEq] at hx
  -- only the left series has its labels
  have hzero : ∀ {sel : VectorSelector} {p : InstantPoint Exact},
      p ∈ instantSelector Sql.Engine.stable (atEpoch value series ss) sel 0 →
        p.labels = l.labels → p.value = .num 0 := by
    intro sel p hp hlabels
    obtain ⟨a, ha, rfl⟩ := exists_row_of_mem_instantSelector hp
    obtain ⟨hin, ha1⟩ := eq_of_mem_baseRows_atEpoch h hss.subset ha
    rcases ((hmem a.2).mp hin).2 with heq | heq
    · rw [instantPoint, ha1, heq]
      exact congrArg Exact.num (if_neg hid)
    · exact absurd (hlabels.symm.trans (congrArg Skaldberg.SeriesRow.labels heq)) hne
  obtain ⟨q', hq', heq⟩ := List.mem_map.mp (SortedMap.mem_of_get?_ofList hq)
  obtain ⟨hqlabels, rfl⟩ := Prod.mk.inj heq
  have hv0 : v = .num (0 + 0) := by
    rw [hzero hp hx.2.1.symm, hzero hq' (hqlabels.trans hx.2.1.symm)] at hv
    exact (Option.some.inj hv).symm
  have hvalue : value l.seriesId + value r.seriesId = 0 + 0 :=
    Exact.num.inj (hx.2.2.trans hv0)
  simp [value, hid] at hvalue

/-- **The series of agreeing evaluations are matched one to one by their texts.** -/
theorem matchedByText_of_agrees (hm : effectiveMetricName lsel = some m) :
    MatchedByText (series.filter lsel.pushed) (series.filter rsel.pushed) := by
  have htold : ∀ l ∈ series.filter lsel.pushed, ∀ r ∈ series.filter rsel.pushed,
      SameText l r ↔ l.labels = r.labels := by
    intro l hl r hr
    obtain ⟨hl, hlpush⟩ := List.mem_filter.mp hl
    obtain ⟨hr, hrpush⟩ := List.mem_filter.mp hr
    refine ⟨labels_of_sameText h hlsel hrsel hagree hl hr hlpush hrpush, fun hlabels => ?_⟩
    let ss : List Skaldberg.SeriesRow := series.filter fun s => decide (s = l ∨ s = r)
    have hmem : ∀ s, s ∈ ss ↔ s ∈ series ∧ (s = l ∨ s = r) := by simp [ss]
    have hss : ss.Sublist series := List.filter_sublist
    refine sameText_of_labels h hlsel hrsel hagree hss
      ((hmem l).mpr ⟨hl, Or.inl rfl⟩) ((hmem r).mpr ⟨hr, Or.inr rfl⟩) hlpush hrpush fun s hs => ?_
    rcases ((hmem s).mp hs).2 with rfl | rfl
    · rfl
    · exact hlabels.symm
  -- series with the same labels, of which the left ones share a key
  have hkeys : ∀ (a b c : Skaldberg.SeriesRow), a.labels = c.labels → b.labels = c.labels →
      ∀ s ∈ series.filter (fun s => decide (s = a ∨ s = b ∨ s = c)), lsel.pushed s = true →
        seriesKey s.metricName s.labels = seriesKey m c.labels := by
    intro a b c hac hbc s hs hpush
    have hlabels : s.labels = c.labels := by
      rcases of_decide_eq_true (List.mem_filter.mp hs).2 with rfl | rfl | rfl
      · exact hac
      · exact hbc
      · rfl
    rw [metricName_of_pushed hm hpush, hlabels]
  refine ⟨htold, fun l hl l' hl' r hr hlr hlr' => ?_, fun r hr r' hr' l hl hlr hlr' => ?_⟩
  · have htext := (htold l hl r hr).mpr hlr
    have htext' := (htold l' hl' r hr).mpr hlr'
    obtain ⟨hl, hlpush⟩ := List.mem_filter.mp hl
    obtain ⟨hl', hlpush'⟩ := List.mem_filter.mp hl'
    obtain ⟨hr, hrpush⟩ := List.mem_filter.mp hr
    refine List.inj_on_of_nodup_map h hl hl' ?_
    by_contra hid
    have hsum := sum_eq_of_agrees (fun sid => if sid = l'.seriesId then 1 else 0) h hlsel
      hrsel hagree List.filter_sublist (hkeys l l' r hlr hlr')
      (List.mem_filter.mpr ⟨hl, by simp⟩) (List.mem_filter.mpr ⟨hl', by simp⟩)
      (List.mem_filter.mpr ⟨hr, by simp⟩) (List.mem_filter.mpr ⟨hr, by simp⟩)
      hlpush hlpush' hrpush hrpush htext htext'
    simp [hid] at hsum
  · have htext := (htold l hl r hr).mpr hlr
    have htext' := (htold l hl r' hr').mpr hlr'
    obtain ⟨hl, hlpush⟩ := List.mem_filter.mp hl
    obtain ⟨hr, hrpush⟩ := List.mem_filter.mp hr
    obtain ⟨hr', hrpush'⟩ := List.mem_filter.mp hr'
    refine List.inj_on_of_nodup_map h hr hr' ?_
    by_contra hid
    have hsum := sum_eq_of_agrees (fun sid => if sid = r'.seriesId then 1 else 0) h hlsel
      hrsel hagree List.filter_sublist (hkeys r r' l hlr.symm hlr'.symm)
      (List.mem_filter.mpr ⟨hl, by simp⟩) (List.mem_filter.mpr ⟨hl, by simp⟩)
      (List.mem_filter.mpr ⟨hr, by simp⟩) (List.mem_filter.mpr ⟨hr', by simp⟩)
      hlpush hlpush hrpush hrpush' htext htext'
    simp [hid] at hsum

end Necessary

/-- **An operator between two selectors agrees on every table of samples** of some series exactly
when the selected series are matched by their texts as they are by their labels, one to one. -/
theorem vectorVector_refines_iff {series : List Skaldberg.SeriesRow}
    (h : (series.map Skaldberg.SeriesRow.seriesId).Nodup) {lsel rsel : VectorSelector}
    {m m' : String} (hm : effectiveMetricName lsel = some m)
    (hm' : effectiveMetricName rsel = some m') (hlsel : lsel.RegexFree) (hrsel : rsel.RegexFree) :
    (∀ samples, Plain ⟨samples, series⟩ → ∀ E, VectorAgrees E ⟨samples, series⟩ lsel rsel) ↔
      MatchedByText (series.filter lsel.pushed) (series.filter rsel.pushed) := by
  constructor
  · exact fun hagree => matchedByText_of_agrees h hlsel hrsel hagree hm
  · intro hmatched samples hplain E
    exact ⟨instant_of_matched (t := ⟨samples, series⟩) h hplain hm hm' hlsel hrsel hmatched,
      range_of_matched (t := ⟨samples, series⟩) h hplain hm hm' hlsel hrsel hmatched⟩

/-- `up + up`, for series of `up` with a job and an instance. -/
theorem vectorVector_refines_iff_jobsUp :
    VectorAgrees Sql.Engine.stable jobsUp ⟨some "up", []⟩ ⟨some "up", []⟩ := by
  have hname : effectiveMetricName ⟨some "up", []⟩ = some "up" := rfl
  have hfree : VectorSelector.RegexFree ⟨some "up", []⟩ := rfl
  exact (vectorVector_refines_iff (by decide) hname hname hfree hfree).mpr (by decide +kernel)
    jobsUp.samples ⟨by decide, by decide⟩ Sql.Engine.stable

/-- **Series without labels never meet in the query**: of `a + b`, for a series `a` and a series
`b` that have no label, the program has a point and the query has none. -/
theorem labelless_series_never_meet :
    ¬VectorAgrees Sql.Engine.stable
      ⟨[⟨1, 0, .num 1⟩, ⟨2, 0, .num 2⟩], [⟨1, "a", .empty⟩, ⟨2, "b", .empty⟩]⟩
      ⟨some "a", []⟩ ⟨some "b", []⟩ :=
  fun h => absurd ((h.instant .add false 0 ("", .empty, .num 3)).mpr (by decide +kernel))
    (by decide +kernel)

end Skaldberg.Prometheus
