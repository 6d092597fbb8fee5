import Skaldberg.Lib.TopN
import Skaldberg.Prometheus.AggregateRefinement
import Skaldberg.Prometheus.TopK

/-!
# Pushed cuts

`topk` and `bottomk` do not say which of several series as good are kept, and the query and the
program keep different ones. Both are compared with what they are for: at each timestamp and in
each group, `n` of the best rows (`Skaldberg.Prometheus.TopOfGroups`). The values of such a choice
do not depend on it (`Sql.IsTop.map_perm`), so that both return the same values
(`Skaldberg.Prometheus.topk_refines`).

In the query a cut numbers the rows of each group of columns and keeps the first ones
(`topkBy_eq`); in the program each group is sorted, over a range at each of its timestamps
(`topkOfGroup_filter`). The program compares values with a comparison of doubles that finds a value
that is no number as good as any other, so these are left out of the tables here.
-/

namespace Skaldberg.Prometheus

/-! ### Choices of the best rows -/

section Groups

variable {F : Type}

/-- The rows at a timestamp and in a group. -/
def groupRows (modifier : Option LabelModifier) (k : ℤ × Labels) (rows : List (SeriesRow F)) :
    List (SeriesRow F) :=
  rows.filter fun r => decide ((r.tsUs, retainedLabels r.labels modifier) = k)

theorem groupRows_perm {modifier : Option LabelModifier} {k : ℤ × Labels}
    {rows rows' : List (SeriesRow F)} (h : rows.Perm rows') :
    (groupRows modifier k rows).Perm (groupRows modifier k rows') := h.filter _

theorem groupRows_map {α : Type} {modifier : Option LabelModifier} {k : ℤ × Labels}
    (row : α → SeriesRow F) (l : List α) :
    groupRows modifier k (l.map row) =
      (l.filter fun x => decide (((row x).tsUs, retainedLabels (row x).labels modifier) = k)).map
        row := List.filter_map

theorem groupRows_eq (modifier : Option LabelModifier) (ts : ℤ) (labels : Labels)
    (rows : List (SeriesRow F)) :
    groupRows modifier (ts, labels) rows =
      (rows.filter fun r => decide (retainedLabels r.labels modifier = labels)).filter
        fun r => decide (r.tsUs = ts) := by
  rw [groupRows, List.filter_filter]
  refine List.filter_congr fun r _ => ?_
  simp only [Prod.mk.injEq, Bool.decide_and]

/-- No row is better than another, for topk or bottomk. -/
def noWorse [F64 F] (top : Bool) (a b : SeriesRow F) : Bool := rustOrder top a.value b.value

/-- `out` are, at each timestamp and in each group, `n` of the best of some rows, one for a series,
with the values that `ref` has there. -/
structure TopOfGroups [F64 F] (n : ℕ) (top : Bool) (modifier : Option LabelModifier)
    (rows out ref : List (SeriesRow F)) : Prop where
  /-- The rows of a group are `n` of its best, or all if there are fewer. -/
  isTop : ∀ k, Sql.IsTop (noWorse top) n (groupRows modifier k rows) (groupRows modifier k out)
  /-- No two rows are of the same series and timestamp. -/
  distinct : (out.map fun r => (r.metricName, r.labels, r.tsUs)).Nodup
  /-- Their values are those of the other rows. -/
  values : ∀ k, ((groupRows modifier k out).map SeriesRow.value).Perm
    ((groupRows modifier k ref).map SeriesRow.value)

end Groups

variable {n : ℕ} {top : Bool} {modifier : Option LabelModifier}

/-! ### The two comparisons -/

theorem orderDir_total (top : Bool) (v w : Exact) :
    orderDir top v w = true ∨ orderDir top w v = true := by
  cases top
  · exact Exact.totalLe_total v w
  · exact Exact.totalLe_total w v

theorem orderDir_trans {u v w : Exact} (huv : orderDir top u v = true)
    (hvw : orderDir top v w = true) : orderDir top u w = true := by
  cases top
  · exact Exact.totalLe_trans huv hvw
  · exact Exact.totalLe_trans hvw huv

theorem orderDir_antisymm {v w : Exact} (hvw : orderDir top v w = true)
    (hwv : orderDir top w v = true) : v = w := by
  cases top
  · exact Exact.totalLe_antisymm hvw hwv
  · exact Exact.totalLe_antisymm hwv hvw

/-- **The comparison of the program is that of the query**, but on values that are no numbers. -/
theorem rustOrder_eq_orderDir {v w : Exact} (hv : v ≠ .nan) (hw : w ≠ .nan) :
    rustOrder top v w = orderDir top v w := by
  have hlt : ∀ x y : Exact, x ≠ .nan → y ≠ .nan → F64.lt x y = !F64.totalLe y x := by
    intro x y hx hy
    change (x != .nan && y != .nan && !Exact.totalLe y x) = !Exact.totalLe y x
    rw [bne_iff_ne.mpr hx, bne_iff_ne.mpr hy]
    rfl
  cases top
  · rw [rustOrder, hlt w v hw hv]
    simp [orderDir]
  · rw [rustOrder, hlt v w hv hw]
    simp [orderDir]

/-- **The program sorts by its comparison**. -/
theorem pairwise_sortByValue {α : Type} {value : α → Exact} {l : List α}
    (h : ∀ a ∈ l, value a ≠ .nan) :
    (sortByValue top value l).Pairwise fun a b => rustOrder top (value a) (value b) = true := by
  have htotal : Std.Total fun a b : α => orderDir top (value a) (value b) = true :=
    ⟨fun _ _ => orderDir_total top _ _⟩
  have htrans : IsTrans α fun a b => orderDir top (value a) (value b) = true :=
    ⟨fun _ _ _ => orderDir_trans⟩
  have hsort : sortByValue top value l =
      l.insertionSort fun a b => orderDir top (value a) (value b) = true := by
    have hmap := List.map_insertionSort (fun a b => rustOrder top (value a) (value b) = true)
      (fun a b => orderDir top (value a) (value b) = true) id l fun a ha b hb => by
        rw [rustOrder_eq_orderDir (h a ha) (h b hb)]
        exact Iff.rfl
    rwa [List.map_id, List.map_id] at hmap
  rw [hsort]
  refine (List.pairwise_insertionSort _ l).imp_of_mem fun {a b} ha hb hab => ?_
  rw [List.mem_insertionSort] at ha hb
  rw [rustOrder_eq_orderDir (h a ha) (h b hb)]
  exact hab

/-- **Two choices of the best rows** of the same groups are what they should be. -/
theorem TopOfGroups.of_isTop {rows out ref : List (SeriesRow Exact)}
    (hnan : ∀ r ∈ rows, r.value ≠ .nan)
    (hrows : (rows.map fun r => (r.metricName, r.labels, r.tsUs)).Nodup)
    (hout : ∀ k, Sql.IsTop (noWorse top) n (groupRows modifier k rows) (groupRows modifier k out))
    (href : ∀ k, Sql.IsTop (noWorse top) n (groupRows modifier k rows)
      (groupRows modifier k ref)) : TopOfGroups n top modifier rows out ref where
  isTop := hout
  distinct := by
    -- a row is chosen at most as often as there is such a row
    have hsub : out.Subperm rows := by
      refine List.subperm_ext_iff.mpr fun r _ => ?_
      have hcount := (hout (r.tsUs, retainedLabels r.labels modifier)).subperm.count_le r
      rwa [groupRows, groupRows, List.count_filter (by simp), List.count_filter (by simp)] at hcount
    obtain ⟨sub, hperm, hsublist⟩ := hsub
    exact (hperm.map _).nodup_iff.mp (hrows.sublist (hsublist.map _))
  values k := by
    refine (hout k).map_perm (href k) (List.Perm.refl _) (orderDir_total top)
      (fun _ _ _ => orderDir_trans) (fun _ _ => orderDir_antisymm) fun a ha b hb hab => ?_
    rwa [noWorse, rustOrder_eq_orderDir (hnan a (List.mem_of_mem_filter ha))
      (hnan b (List.mem_of_mem_filter hb))] at hab

/-! ### The cut of the query -/

section Query

variable {F τ : Type} [F64 F] [DecidableEq τ] {t : Tables F}

/-- **The cut of the query**: the first rows of each group of columns. -/
theorem topkBy_eq (h : OneRowPerSeries t) {rows : List (Point τ F × Skaldberg.SeriesRow)}
    (hrows : ∀ r ∈ rows, r.2 ∈ t.series ∧ r.1.seriesId = r.2.seriesId) (E : Sql.Engine) (n : ℕ)
    (top : Bool) (keys : List String) :
    topkBy E t n top keys rows =
      (Sql.groupBy (fun r => (r.1.at_, labelColumns keys r.2)) rows).flatMap fun g =>
        (E.sort (fun a b => orderDir top a.1.value b.1.value) g.2).take n := by
  let ranked := E.rowNumber (fun r : Point τ F × Skaldberg.SeriesRow =>
    (r.1.at_, labelColumns keys r.2)) (fun a b => orderDir top a.1.value b.1.value) rows
  have hjoin : joinSeries t (fun r : Point τ F × ℕ => r.1.seriesId)
      (ranked.map fun r => (r.1.1, r.2)) = ranked.map fun r => ((r.1.1, r.2), r.1.2) :=
    joinSeries_map h fun r hr => hrows r.1 (E.mem_rowNumber hr)
  rw [topkBy, rankPoints, keepTop, hjoin, List.filter_map, List.map_map, ← E.rowNumber_le]
  rfl

end Query

section Query

variable {τ : Type} [DecidableEq τ] {t : Tables Exact}

/-- A joined point as a row. -/
def rowOf {τ : Type} (time : τ → ℤ) (r : Point τ Exact × Skaldberg.SeriesRow) : SeriesRow Exact :=
  ⟨r.2.metricName, r.2.labels, time r.1.at_, r.1.value⟩

/-- **The cut of the query takes the best rows of each group.** -/
theorem isTop_topkBy (h : OneRowPerSeries t) (hm : modifierExcludedKeys modifier = none)
    {rows : List (Point τ Exact × Skaldberg.SeriesRow)}
    (hrows : ∀ r ∈ rows, r.2 ∈ t.series ∧ r.1.seriesId = r.2.seriesId)
    (hnan : ∀ r ∈ rows, r.1.value ≠ .nan) (time : τ → ℤ) (htime : Function.Injective time)
    (E : Sql.Engine) (n : ℕ) (top : Bool) (k : ℤ × Labels) :
    Sql.IsTop (noWorse top) n (groupRows modifier k (rows.map (rowOf time)))
      (groupRows modifier k
        ((topkBy E t n top (aggregateGroupKeys modifier) rows).map (rowOf time))) := by
  let key (r : Point τ Exact × Skaldberg.SeriesRow) : ℤ × Labels :=
    (time r.1.at_, retainedLabels r.2.labels modifier)
  let le (a b : Point τ Exact × Skaldberg.SeriesRow) : Bool := orderDir top a.1.value b.1.value
  let best (l : List (Point τ Exact × Skaldberg.SeriesRow)) :
      List (Point τ Exact × Skaldberg.SeriesRow) := (E.sort le l).take n
  -- the groups of columns are the groups of retained labels
  have hcut : topkBy E t n top (aggregateGroupKeys modifier) rows =
      (Sql.groupBy key rows).flatMap fun g => best g.2 := by
    refine (topkBy_eq h hrows E n top _).trans (Sql.flatMap_groupBy_comp_key (f := fun k =>
      (time k.1, decodeLabels (aggregateGroupKeys modifier) k.2)) (fun r _ => ?_)
        (fun r _ r' _ hkey => ?_) best)
    · exact Prod.ext rfl ((retainedLabels_eq hm _).trans (decodeLabels_labelColumns _ _).symm)
    · refine Prod.ext (htime (congrArg Prod.fst hkey)) (labelColumns_eq_iff.mpr ?_)
      rw [← retainedLabels_eq hm, ← retainedLabels_eq hm]
      exact congrArg Prod.snd hkey
  have hgroup : (topkBy E t n top (aggregateGroupKeys modifier) rows).filter
      (fun r => decide (key r = k)) = best (rows.filter fun r => decide (key r = k)) := by
    rw [hcut]
    refine Sql.filter_flatMap_groupBy (by simp [best]) (fun g hg r hr => ?_) k
    exact (Sql.mem_of_mem_groupBy hg (E.mem_sort.mp (List.mem_of_mem_take hr))).2
  rw [groupRows_map, groupRows_map]
  change Sql.IsTop _ n ((rows.filter fun r => decide (key r = k)).map _)
    (((topkBy E t n top _ rows).filter fun r => decide (key r = k)).map _)
  rw [hgroup]
  have hbest : ∀ l, Sql.IsTop le n l (best l) := fun l =>
    Sql.isTop_take (E.sort_perm le l) (E.sort_pairwise le l (fun a b => orderDir_total top _ _)
      fun a b c => orderDir_trans) n
  refine (hbest _).map fun a ha b hb hab => ?_
  refine (rustOrder_eq_orderDir ?_ ?_).trans hab
  · exact hnan a (List.mem_of_mem_filter ha)
  · exact hnan b (List.mem_of_mem_filter hb)

end Query

/-! ### The cut of the program -/

/-- A point as a row at the timestamp of the evaluation. -/
def InstantPoint.rowAt {F : Type} (timeUs : ℤ) (p : InstantPoint F) : SeriesRow F :=
  ⟨p.metricName, p.labels, timeUs, p.value⟩

/-- **The program takes the best points of each group.** -/
theorem isTop_topkInstantPoints
    (modifier : Option LabelModifier) {inner : List (InstantPoint Exact)}
    (hnan : ∀ p ∈ inner, p.value ≠ .nan) (n : ℕ) (top : Bool) (timeUs : ℤ) (k : ℤ × Labels) :
    Sql.IsTop (noWorse top) n (groupRows modifier k (inner.map (InstantPoint.rowAt timeUs)))
      (groupRows modifier k
        ((topkInstantPoints inner n top modifier).map (InstantPoint.rowAt timeUs))) := by
  rw [topkInstantPoints]
  split_ifs with hn
  · rw [hn]
    exact Sql.isTop_zero _
  let key (p : InstantPoint Exact) : ℤ × Labels := (timeUs, retainedLabels p.labels modifier)
  let best (l : List (InstantPoint Exact)) : List (InstantPoint Exact) :=
    (sortByValue top InstantPoint.value l).take n
  have hgroups : ((inner.foldl (fun m p => m.push (retainedLabels p.labels modifier) p)
      (.empty : SortedMap Labels (List (InstantPoint Exact)))).values.flatMap best).Perm
        ((Sql.groupBy key inner).flatMap fun g => best g.2) := by
    have hentries := SortedMap.entries_foldl_push_perm
      (fun p : InstantPoint Exact => retainedLabels p.labels modifier) id inner
    simp only [List.map_id, Prod.mk.eta, List.map_id'] at hentries
    have hkeys : ((Sql.groupBy (fun p => retainedLabels p.labels modifier) inner).flatMap
        fun g => best g.2) = (Sql.groupBy key inner).flatMap fun g => best g.2 :=
      have hkey : ∀ p ∈ inner, key p = (timeUs, retainedLabels p.labels modifier) :=
        fun _ _ => rfl
      Sql.flatMap_groupBy_comp_key (f := fun labels => (timeUs, labels)) hkey
        (fun _ _ _ _ h => congrArg Prod.snd h) best
    rw [← hkeys, SortedMap.values, List.flatMap_map]
    exact hentries.flatMap_right _
  have hgroup : ((Sql.groupBy key inner).flatMap fun g => best g.2).filter
      (fun p => decide (key p = k)) = best (inner.filter fun p => decide (key p = k)) := by
    refine Sql.filter_flatMap_groupBy (by simp [best, sortByValue]) (fun g hg p hp => ?_) k
    exact (Sql.mem_of_mem_groupBy hg ((List.mem_insertionSort _).mp (List.mem_of_mem_take hp))).2
  have hbest : ∀ l, (∀ p ∈ l, p ∈ inner) →
      Sql.IsTop (fun a b => rustOrder top a.value b.value) n l (best l) := fun l hl =>
    Sql.isTop_take (List.perm_insertionSort _ l)
      (pairwise_sortByValue fun p hp => hnan p (hl p hp)) n
  refine Sql.IsTop.perm ?_ (List.Perm.refl _) ((groupRows_perm (hgroups.map _)).symm)
  rw [groupRows_map, groupRows_map]
  change Sql.IsTop _ n ((inner.filter fun p => decide (key p = k)).map _)
    ((((Sql.groupBy key inner).flatMap fun g => best g.2).filter
      fun p => decide (key p = k)).map _)
  rw [hgroup]
  exact (hbest _ fun p hp => List.mem_of_mem_filter hp).map fun a _ b _ hab => hab

/-- The members of a group that have a value at a timestamp, with their values there. -/
def valuesAt {F : Type} (ts : ℤ) (members : List (RangePoints F)) : List (RangePoints F × F) :=
  (members.map fun m => (m, SortedMap.ofList m.points)).filterMap fun m =>
    (m.2.get? ts).map fun v => (m.1, v)

/-- A member of a group with its value at a timestamp, as a row. -/
def valueRow {F : Type} (ts : ℤ) (e : RangePoints F × F) : SeriesRow F :=
  ⟨e.1.metricName, e.1.labels, ts, e.2⟩

/-- The timestamps of a series are distinct. -/
def RangePoints.DistinctTimes {F : Type} (s : RangePoints F) : Prop := (s.points.map Prod.fst).Nodup

theorem get?_ofList {β : Type} {l : List (ℤ × β)} (h : (l.map Prod.fst).Nodup) (ts : ℤ) :
    ((SortedMap.ofList l).get? ts).toList =
      (l.filter fun e => decide (e.1 = ts)).map Prod.snd := by
  have hget := SortedMap.get?_foldl_upsert Prod.fst (fun (e : ℤ × β) _ => e.2) ts l .empty
  rw [SortedMap.ofList]
  change (SortedMap.get? (l.foldl (fun m e => m.upsert e.1 fun _ => e.2) .empty) ts).toList = _
  rw [hget]
  have hle := Sql.length_filter_key_le h ts
  revert hle
  generalize l.filter (fun e => decide (e.1 = ts)) = found
  rcases found with _ | ⟨e, _ | ⟨e', found⟩⟩
  · exact fun _ => rfl
  · exact fun _ => rfl
  · exact fun hle => absurd hle (by simp)

/-- **The values at a timestamp** are the rows there. -/
theorem map_valuesAt {F : Type} {members : List (RangePoints F)}
    (h : ∀ s ∈ members, s.DistinctTimes) (ts : ℤ) :
    (valuesAt ts members).map (valueRow ts) =
      (members.flatMap RangePoints.rows).filter fun r => decide (r.tsUs = ts) := by
  rw [valuesAt, List.filterMap_map, List.filterMap_eq_flatMap_toList, List.map_flatMap,
    List.filter_flatMap]
  refine List.flatMap_congr fun s hs => ?_
  rw [Function.comp_apply, Option.toList_map, List.map_map, get?_ofList (h s hs), List.map_map,
    RangePoints.rows, List.filter_map]
  refine List.map_congr_left fun p hp => ?_
  have hts : p.1 = ts := of_decide_eq_true (List.mem_filter.mp hp).2
  rw [← hts]
  rfl

/-- **The cut of a group at a timestamp** is made of the values there. -/
theorem topkOfGroup_filter {F : Type} [F64 F] (n : ℕ) (top : Bool) (members : List (RangePoints F))
    (ts : ℤ) :
    (topkOfGroup n top members).filter (fun r => decide (r.tsUs = ts)) =
      ((sortByValue top Prod.snd (valuesAt ts members)).take n).map (valueRow ts) := by
  let times : SortedMap ℤ Unit :=
    SortedMap.ofList (members.flatMap fun m => m.points.map fun p => (p.1, ()))
  let cut (ts : ℤ) : List (SeriesRow F) :=
    ((sortByValue top Prod.snd (valuesAt ts members)).take n).map (valueRow ts)
  have hfilter : (times.keys.filter fun ts' => decide (ts' = ts)).flatMap cut =
      (times.keys.flatMap cut).filter fun r => decide (r.tsUs = ts) := by
    refine Sql.flatMap_filter fun ts' _ r hr => ?_
    obtain ⟨e, -, rfl⟩ := List.mem_map.mp hr
    rfl
  change (times.keys.flatMap cut).filter _ = cut ts
  rw [← hfilter]
  by_cases hmem : ts ∈ times.keys
  · have hnodup : (times.keys.map id).Nodup := by
      rw [List.map_id]
      exact times.keys_nodup
    have hone : (times.keys.filter fun ts' => decide (ts' = ts)) = [ts] :=
      Sql.filter_key_eq hnodup hmem
    rw [hone, List.flatMap_singleton]
  · -- at another timestamp no member has a value
    have hnone : valuesAt ts members = [] := by
      refine List.filterMap_eq_nil_iff.mpr fun m hm => ?_
      obtain ⟨s, hs, rfl⟩ := List.mem_map.mp hm
      rw [Option.map_eq_none_iff, Option.eq_none_iff_forall_ne_some]
      rintro v hv
      have hts := SortedMap.mem_keys_ofList.mp
        (List.mem_map_of_mem (f := Prod.fst) (SortedMap.get?_eq_some_iff.mp hv))
      obtain ⟨p, hp, rfl⟩ := List.mem_map.mp hts
      refine hmem (SortedMap.mem_keys_ofList.mpr (List.mem_map.mpr ⟨(p.1, ()), ?_, rfl⟩))
      exact List.mem_flatMap.mpr ⟨s, hs, List.mem_map.mpr ⟨p, hp, rfl⟩⟩
    have hempty : (times.keys.filter fun ts' => decide (ts' = ts)) = [] := by
      refine List.filter_eq_nil_iff.mpr fun ts' hts' h => hmem ?_
      rwa [← of_decide_eq_true h]
    rw [hempty]
    simp [cut, hnone, sortByValue]

/-- Rows under one key are of one series. -/
def OneSeriesPerKey {F : Type} (rows : List (SeriesRow F)) : Prop :=
  ∀ a ∈ rows, ∀ b ∈ rows, seriesKey a.metricName a.labels = seriesKey b.metricName b.labels →
    a.metricName = b.metricName ∧ a.labels = b.labels

/-- **The program takes the best rows of each group at each timestamp.** -/
theorem isTop_topkRangePoints (modifier : Option LabelModifier) {inner : List (RangePoints Exact)}
    (htimes : ∀ s ∈ inner, s.DistinctTimes)
    (hkeys : OneSeriesPerKey (inner.flatMap RangePoints.rows))
    (hnan : ∀ r ∈ inner.flatMap RangePoints.rows, r.value ≠ .nan) (n : ℕ) (top : Bool)
    (k : ℤ × Labels) :
    Sql.IsTop (noWorse top) n (groupRows modifier k (inner.flatMap RangePoints.rows))
      (groupRows modifier k
        ((topkRangePoints inner n top modifier).flatMap RangePoints.rows)) := by
  rw [topkRangePoints]
  split_ifs with hn
  · rw [hn]
    exact Sql.isTop_zero _
  let key (s : RangePoints Exact) : Labels := retainedLabels s.labels modifier
  let rows : List (SeriesRow Exact) := inner.flatMap RangePoints.rows
  let cuts : List (SeriesRow Exact) :=
    (Sql.groupBy key inner).flatMap fun g => topkOfGroup n top g.2
  have hcuts : ((inner.foldl (fun m s => m.push (retainedLabels s.labels modifier) s)
      (.empty : SortedMap Labels (List (RangePoints Exact)))).values.flatMap
        fun members => topkOfGroup n top members).Perm cuts := by
    have hentries := SortedMap.entries_foldl_push_perm key id inner
    simp only [List.map_id, Prod.mk.eta, List.map_id'] at hentries
    rw [SortedMap.values, List.flatMap_map]
    exact hentries.flatMap_right _
  -- the cut of a group at a timestamp takes the best rows there
  have hgroup : ∀ k : ℤ × Labels, Sql.IsTop (noWorse top) n (groupRows modifier k rows)
      (groupRows modifier k cuts) := by
    rintro ⟨ts, labels⟩
    let members : List (RangePoints Exact) := inner.filter fun s => decide (key s = labels)
    have hrows : groupRows modifier (ts, labels) rows =
        (members.flatMap RangePoints.rows).filter fun r => decide (r.tsUs = ts) := by
      have hmembers : members.flatMap RangePoints.rows =
          rows.filter fun r => decide (retainedLabels r.labels modifier = labels) := by
        refine Sql.flatMap_filter fun s _ r hr => ?_
        rw [(mem_rows.mp hr).2.1]
      rw [hmembers, groupRows_eq]
    have hcut : groupRows modifier (ts, labels) cuts =
        ((sortByValue top Prod.snd (valuesAt ts members)).take n).map (valueRow ts) := by
      have hlabels : cuts.filter (fun r => decide (retainedLabels r.labels modifier = labels)) =
          topkOfGroup n top members := by
        refine Sql.filter_flatMap_groupBy rfl (fun g hg r hr => ?_) labels
        have hr : r ∈ (topkOfGroup n top g.2).filter fun r' => decide (r'.tsUs = r.tsUs) :=
          List.mem_filter.mpr ⟨hr, decide_eq_true rfl⟩
        rw [topkOfGroup_filter] at hr
        obtain ⟨e, he, hr⟩ := List.mem_map.mp hr
        have he := (List.mem_insertionSort _).mp (List.mem_of_mem_take he)
        obtain ⟨m, hm, he⟩ := List.mem_filterMap.mp he
        obtain ⟨s, hs, rfl⟩ := List.mem_map.mp hm
        obtain ⟨v, -, rfl⟩ := Option.map_eq_some_iff.mp he
        rw [← hr]
        exact (Sql.mem_of_mem_groupBy hg hs).2
      rw [← topkOfGroup_filter, ← hlabels, groupRows_eq]
    have hvalues : ∀ e ∈ valuesAt ts members, e.2 ≠ .nan := by
      intro e he
      have hr := List.mem_map_of_mem (f := valueRow ts) he
      rw [map_valuesAt (fun s hs => htimes s (List.mem_of_mem_filter hs)), ← hrows] at hr
      exact hnan _ (List.mem_of_mem_filter hr)
    have hbest : Sql.IsTop (fun a b : RangePoints Exact × Exact => rustOrder top a.2 b.2) n
        (valuesAt ts members) ((sortByValue top Prod.snd (valuesAt ts members)).take n) :=
      Sql.isTop_take (List.perm_insertionSort _ _) (pairwise_sortByValue hvalues) n
    have hmap : Sql.IsTop (noWorse top) n ((valuesAt ts members).map (valueRow ts)) _ :=
      hbest.map fun _ _ _ _ hab => hab
    rwa [map_valuesAt (fun s hs => htimes s (List.mem_of_mem_filter hs)), ← hrows, ← hcut] at hmap
  have hsub : ∀ r ∈ cuts, r ∈ rows := by
    intro r hr
    have hmem := (hgroup (r.tsUs, retainedLabels r.labels modifier)).mem
      (List.mem_filter.mpr ⟨hr, decide_eq_true rfl⟩)
    exact List.mem_of_mem_filter hmem
  have hout := (flatMap_groupRowsBySeries_perm fun a ha b hb =>
    hkeys a (hsub a (hcuts.mem_iff.mp ha)) b (hsub b (hcuts.mem_iff.mp hb))).trans hcuts
  exact (hgroup k).perm (List.Perm.refl _) (groupRows_perm hout).symm

/-! ### Both cuts -/

section Refinement

variable {t : Tables Exact} {sel : VectorSelector} {lo hi : ℤ}

/-- The values of a table can be compared. -/
def Comparable (t : Tables Exact) : Prop := ∀ sa ∈ t.samples, sa.value ≠ .nan

instance (t : Tables Exact) : Decidable (Comparable t) :=
  inferInstanceAs (Decidable (∀ sa ∈ t.samples, sa.value ≠ .nan))

theorem series_of_mem_baseRows {r : SampleRow Exact × Skaldberg.SeriesRow}
    (hr : r ∈ baseRows t sel lo hi) : r.2 ∈ t.series ∧ r.1.seriesId = r.2.seriesId := by
  obtain ⟨⟨-, hs, hon⟩, -⟩ := mem_baseRows.mp hr
  exact ⟨hs, hon⟩

/-- The rows of a window are of distinct series or timestamps. -/
theorem nodup_seriesRow (h : OneRowPerSeries t) (hts : DistinctTimestamps t)
    (hkeys : DistinctKeys t sel) {rows : List (SampleRow Exact × Skaldberg.SeriesRow)}
    (hrows : ∀ r ∈ rows, r ∈ baseRows t sel lo hi) (hnodup : rows.Nodup) :
    (rows.map fun r => (r.2.metricName, r.2.labels, r.1.timestamp)).Nodup := by
  refine hnodup.map_on fun r hr r' hr' heq => ?_
  simp only [Prod.mk.injEq] at heq
  refine baseRows_eq h hts (hrows r hr) (hrows r' hr') ?_ heq.2.2
  exact (seriesKey_eq_iff hkeys h (hrows r hr) (hrows r' hr')).mp (by rw [heq.1, heq.2.1])

theorem oneSeriesPerKey_baseRows (hkeys : DistinctKeys t sel) :
    OneSeriesPerKey ((baseRows t sel lo hi).map seriesRow) := by
  intro a ha b hb hkey
  obtain ⟨r, hr, rfl⟩ := List.mem_map.mp ha
  obtain ⟨r', hr', rfl⟩ := List.mem_map.mp hb
  obtain ⟨⟨-, hs, -⟩, hpush, -⟩ := mem_baseRows.mp hr
  obtain ⟨⟨-, hs', -⟩, hpush', -⟩ := mem_baseRows.mp hr'
  have hseries : r.2 = r'.2 := hkeys _ hs _ hs' hpush hpush' hkey
  exact ⟨congrArg Skaldberg.SeriesRow.metricName hseries,
    congrArg Skaldberg.SeriesRow.labels hseries⟩

/-- The latest row of a series, at the timestamp of the evaluation. -/
def latestRow (timeUs : ℤ) (r : SampleRow Exact × Skaldberg.SeriesRow) : SeriesRow Exact :=
  ⟨r.2.metricName, r.2.labels, timeUs, r.1.value⟩

theorem nodup_latestRow (h : OneRowPerSeries t) (hts : DistinctTimestamps t)
    (hkeys : DistinctKeys t sel) (timeUs : ℤ) :
    (((latestRows t sel lo hi).map (latestRow timeUs)).map
      fun r => (r.metricName, r.labels, r.tsUs)).Nodup := by
  rw [List.map_map]
  refine ((baseRows_nodup h hts).filter _).map_on fun r hr r' hr' heq => ?_
  simp only [Function.comp_apply, latestRow, Prod.mk.injEq] at heq
  have hbase := mem_baseRows_of_mem_latestRows hr
  have hbase' := mem_baseRows_of_mem_latestRows hr'
  have hid : r.1.seriesId = r'.1.seriesId :=
    (seriesKey_eq_iff hkeys h hbase hbase').mp (by rw [heq.1, heq.2.1])
  -- each is the latest row of the series
  have hle : ∀ a ∈ latestRows t sel lo hi, ∀ b ∈ baseRows t sel lo hi,
      b.1.seriesId = a.1.seriesId → b.1.timestamp ≤ a.1.timestamp := by
    intro a ha b hb hab
    have := List.all_eq_true.mp (List.mem_filter.mp ha).2 b hb
    simpa [hab] using this
  exact baseRows_eq h hts hbase hbase' hid
    (le_antisymm (hle r' hr' r hbase hid) (hle r hr r' hbase' hid.symm))

/-- No row of a window has a value that does not compare. -/
theorem Comparable.value_ne_nan (hcomp : Comparable t) {lo hi : ℤ}
    {r : SampleRow Exact × Skaldberg.SeriesRow} (hr : r ∈ baseRows t sel lo hi) :
    r.1.value ≠ .nan := hcomp _ (mem_baseRows.mp hr).1.1

/-- **For an instant** a pushed cut keeps the best of the latest values of each group. -/
theorem instantTopk_refines (h : OneRowPerSeries t) (hts : DistinctTimestamps t)
    (hkeys : DistinctKeys t sel) (hregex : sel.RegexFree) (hcomp : Comparable t)
    (hm : modifierExcludedKeys modifier = none) (E : Sql.Engine) (n : ℕ) (top : Bool) (timeUs : ℤ) :
    TopOfGroups n top modifier
      ((latestRows t sel (asI64 (timeUs - lookbackUs)) timeUs).map (latestRow timeUs))
      ((instantTopkViaSql E t sel n top modifier timeUs).map (InstantPoint.rowAt timeUs))
      ((topkInstantPoints (instantSelector E t sel timeUs) n top modifier).map
        (InstantPoint.rowAt timeUs)) := by
  let latest := latestRows t sel (asI64 (timeUs - lookbackUs)) timeUs
  have hbase : ∀ r ∈ latest, r ∈ baseRows t sel (asI64 (timeUs - lookbackUs)) timeUs :=
    fun r hr => mem_baseRows_of_mem_latestRows hr
  have hpoints : (joinSeries t Point.seriesId (latestPoints E t sel timeUs)).Perm _ :=
    joinSeries_latestPoints_perm h hts E timeUs
  have hselector := instantSelector_perm h hts hkeys hregex.nothingRefused E timeUs
  refine TopOfGroups.of_isTop ?_ (nodup_latestRow h hts hkeys timeUs) (fun k => ?_) fun k => ?_
  · intro r hr
    obtain ⟨r', hr', rfl⟩ := List.mem_map.mp hr
    exact hcomp.value_ne_nan (hbase r' hr')
  · have hrows : ∀ r ∈ joinSeries t Point.seriesId (latestPoints E t sel timeUs),
        (r.2 ∈ t.series ∧ r.1.seriesId = r.2.seriesId) ∧ r.1.value ≠ .nan := by
      intro r hr
      obtain ⟨r', hr', rfl⟩ := List.mem_map.mp (hpoints.mem_iff.mp hr)
      exact ⟨series_of_mem_baseRows (hbase r' hr'), hcomp.value_ne_nan (hbase r' hr')⟩
    have htop := isTop_topkBy h hm (fun r hr => (hrows r hr).1)
      (fun r hr => (hrows r hr).2) (fun _ => timeUs) (fun _ _ _ => rfl) E n top k
    have hperm := hpoints.map (rowOf fun _ : Unit => timeUs)
    rw [List.map_map] at hperm
    refine htop.perm (groupRows_perm hperm) (List.Perm.of_eq (congrArg _ ?_))
    rw [instantTopkViaSql, hm]
    split_ifs with hn
    · have hnil : topkBy E t n top (aggregateGroupKeys modifier)
          (joinSeries t Point.seriesId (latestPoints E t sel timeUs)) = [] := by
        rw [topkBy_eq h (fun r hr => (hrows r hr).1), hn]
        simp
      rw [hnil]
      rfl
    · rw [decodeInstantRows, List.filter_eq_self.mpr fun r _ => by
        rw [hregex.postFilter, Bool.and_true], List.map_map]
      rfl
  · have htop := isTop_topkInstantPoints modifier
      (fun p (hp : p ∈ instantSelector E t sel timeUs) => ?_) n top timeUs k
    · have hperm := hselector.map (InstantPoint.rowAt timeUs)
      rw [List.map_map] at hperm
      exact htop.perm (groupRows_perm hperm) (List.Perm.refl _)
    · obtain ⟨r, hr, rfl⟩ := List.mem_map.mp (hselector.mem_iff.mp hp)
      exact hcomp.value_ne_nan (hbase r hr)

/-- A series has a row at a timestamp once if all rows are told by series and timestamp. -/
theorem distinctTimes_of_nodup {inner : List (RangePoints Exact)}
    (h : ((inner.flatMap RangePoints.rows).map fun r =>
      (r.metricName, r.labels, r.tsUs)).Nodup) : ∀ s ∈ inner, s.DistinctTimes := by
  intro s hs
  have hsublist : s.rows.Sublist (inner.flatMap RangePoints.rows) := by
    have hone := (List.singleton_sublist.mpr hs).flatMap RangePoints.rows
    rwa [List.flatMap_singleton] at hone
  have hown := h.sublist (hsublist.map _)
  rw [RangePoints.rows, List.map_map] at hown
  refine List.Nodup.of_map (fun ts => (s.metricName, s.labels, ts)) ?_
  rw [List.map_map]
  exact hown

/-- **Over a range** it keeps the best of the values of each group at each timestamp. -/
theorem rangeTopk_refines (h : OneRowPerSeries t) (hts : DistinctTimestamps t)
    (hkeys : DistinctKeys t sel) (hregex : sel.RegexFree) (hcomp : Comparable t)
    (hm : modifierExcludedKeys modifier = none) (E : Sql.Engine) (n : ℕ) (top : Bool)
    (startUs endUs : ℤ) :
    TopOfGroups n top modifier
      ((baseRows t sel startUs endUs).map seriesRow)
      ((rangeTopkViaSql E t sel n top modifier startUs endUs).flatMap RangePoints.rows)
      ((topkRangePoints (rangeSelector E t sel startUs endUs) n top modifier).flatMap
        RangePoints.rows) := by
  let base := baseRows t sel startUs endUs
  have hselector : ((rangeSelector E t sel startUs endUs).flatMap RangePoints.rows).Perm
      (base.map seriesRow) := flatMap_rangeSelector_perm hkeys hregex.nothingRefused E
  have hone : OneSeriesPerKey (base.map seriesRow) := oneSeriesPerKey_baseRows hkeys
  have hnodup := nodup_seriesRow h hts hkeys (fun r (hr : r ∈ base) => hr) (baseRows_nodup h hts)
  have hnan : ∀ r ∈ base.map seriesRow, r.value ≠ .nan := by
    intro r hr
    obtain ⟨r', hr', rfl⟩ := List.mem_map.mp hr
    exact hcomp.value_ne_nan hr'
  refine TopOfGroups.of_isTop hnan (by rwa [List.map_map]) (fun k => ?_) fun k => ?_
  · have hrows : ∀ r ∈ base.map basePoint,
        (r.2 ∈ t.series ∧ r.1.seriesId = r.2.seriesId) ∧ r.1.value ≠ .nan := by
      intro r hr
      obtain ⟨r', hr', rfl⟩ := List.mem_map.mp hr
      exact ⟨series_of_mem_baseRows hr', hcomp.value_ne_nan hr'⟩
    have htop := isTop_topkBy h hm (fun r hr => (hrows r hr).1)
      (fun r hr => (hrows r hr).2) id (fun _ _ h => h) E n top
    let cut := topkBy E t n top (aggregateGroupKeys modifier) (base.map basePoint)
    have hbase : (base.map basePoint).map (rowOf id) = base.map seriesRow := by
      rw [List.map_map]
      rfl
    have hsub : ∀ r ∈ cut.map (rowOf id), r ∈ base.map seriesRow := by
      intro r hr
      have hmem := (htop (r.tsUs, retainedLabels r.labels modifier)).mem
        (List.mem_filter.mpr ⟨hr, decide_eq_true rfl⟩)
      exact hbase ▸ List.mem_of_mem_filter hmem
    have hout : ((rangeTopkViaSql E t sel n top modifier startUs endUs).flatMap
        RangePoints.rows).Perm (cut.map (rowOf id)) := by
      rw [rangeTopkViaSql, hm]
      split_ifs with hn
      · have hnil : cut = [] := by
          rw [show cut = _ from topkBy_eq h (fun r hr => (hrows r hr).1) E n top _, hn]
          simp
        rw [hnil]
        exact List.Perm.refl _
      · have hsorted : (orderByNameTime E cut).Perm cut := E.sort_perm _ _
        rw [decodeRangeRows, List.filter_eq_self.mpr fun r _ => by
          rw [hregex.postFilter, Bool.and_true]]
        refine (flatMap_groupRowsBySeries_perm fun a ha b hb => ?_).trans (hsorted.map pointRow)
        exact hone a (hsub a ((hsorted.map _).mem_iff.mp ha)) b
          (hsub b ((hsorted.map _).mem_iff.mp hb))
    exact (hbase ▸ htop k).perm (List.Perm.refl _) (groupRows_perm hout).symm
  · have htimes : ∀ s ∈ rangeSelector E t sel startUs endUs, s.DistinctTimes := by
      refine distinctTimes_of_nodup ?_
      rw [(hselector.map _).nodup_iff, List.map_map]
      exact hnodup
    have htop := isTop_topkRangePoints modifier htimes
      (fun a ha b hb => hone a (hselector.mem_iff.mp ha) b (hselector.mem_iff.mp hb))
      (fun r hr => hnan r (hselector.mem_iff.mp hr)) n top k
    exact htop.perm (groupRows_perm hselector) (List.Perm.refl _)

/-- **A pushed cut keeps the best series of each group**, for an instant the latest values and over
a range the values at each timestamp, and has the values of the cut of the points of its inner
selector. -/
theorem topk_refines (h : OneRowPerSeries t) (hts : DistinctTimestamps t)
    (hkeys : DistinctKeys t sel) (hregex : sel.RegexFree) (hcomp : Comparable t)
    (hm : modifierExcludedKeys modifier = none) (E : Sql.Engine) (n : ℕ) (top : Bool) :
    (∀ timeUs, TopOfGroups n top modifier
      ((latestRows t sel (asI64 (timeUs - lookbackUs)) timeUs).map (latestRow timeUs))
      ((instantTopkViaSql E t sel n top modifier timeUs).map (InstantPoint.rowAt timeUs))
      ((topkInstantPoints (instantSelector E t sel timeUs) n top modifier).map
        (InstantPoint.rowAt timeUs))) ∧
    ∀ startUs endUs, TopOfGroups n top modifier
      ((baseRows t sel startUs endUs).map seriesRow)
      ((rangeTopkViaSql E t sel n top modifier startUs endUs).flatMap RangePoints.rows)
      ((topkRangePoints (rangeSelector E t sel startUs endUs) n top modifier).flatMap
        RangePoints.rows) :=
  ⟨instantTopk_refines h hts hkeys hregex hcomp hm E n top,
    rangeTopk_refines h hts hkeys hregex hcomp hm E n top⟩

/-- `topk by (job) (1, up)` a minute on, and over that minute. -/
theorem topk_refines_jobsUp :
    TopOfGroups 1 true (some (.includes ["job"]))
        ((latestRows jobsUp ⟨some "up", []⟩ (asI64 (60000000 - lookbackUs)) 60000000).map
          (latestRow 60000000))
        ((instantTopkViaSql Sql.Engine.stable jobsUp ⟨some "up", []⟩ 1 true
          (some (.includes ["job"])) 60000000).map (InstantPoint.rowAt 60000000))
        ((topkInstantPoints (instantSelector Sql.Engine.stable jobsUp ⟨some "up", []⟩ 60000000) 1
          true (some (.includes ["job"]))).map (InstantPoint.rowAt 60000000)) ∧
      TopOfGroups 1 true (some (.includes ["job"]))
        ((baseRows jobsUp ⟨some "up", []⟩ 0 60000000).map seriesRow)
        ((rangeTopkViaSql Sql.Engine.stable jobsUp ⟨some "up", []⟩ 1 true
          (some (.includes ["job"])) 0 60000000).flatMap RangePoints.rows)
        ((topkRangePoints (rangeSelector Sql.Engine.stable jobsUp ⟨some "up", []⟩ 0 60000000) 1
          true (some (.includes ["job"]))).flatMap RangePoints.rows) :=
  have hkeys : DistinctKeys jobsUp ⟨some "up", []⟩ := by decide +kernel
  have hboth := topk_refines (by decide) (by decide) hkeys rfl (by decide) rfl Sql.Engine.stable 1
    true
  ⟨hboth.1 60000000, hboth.2 0 60000000⟩

end Refinement

end Skaldberg.Prometheus
