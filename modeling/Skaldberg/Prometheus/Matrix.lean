import Skaldberg.Prometheus.Aggregate
import Skaldberg.Prometheus.SelectedRows

/-!
# Aggregated matrices

The answer to an aggregation over a range is a list of series without a name: in the order of
their labels, each with its points in the order of their timestamps, and none without points. Such
a list is told by its rows (`Skaldberg.Prometheus.Grouped.eq_of_mem_rows`), so that two ways to
compute it are compared row by row.

Both ways end so. The program takes the entries of a map of maps (`grouped_aggregateRangePoints`);
the query sorts its rows by group and timestamp, and the decoder pushes them under their labels
(`grouped_decodeRange`).
-/

namespace Skaldberg.Prometheus

variable {F : Type}

/-- A matrix of groups: in the order of the labels and of the timestamps. -/
structure Grouped (l : List (RangePoints F)) : Prop where
  /-- A group has no name. -/
  unnamed : ∀ s ∈ l, s.metricName = ""
  /-- The labels are strictly increasing. -/
  byLabels : (l.map RangePoints.labels).Pairwise (· < ·)
  /-- The timestamps of a group are strictly increasing. -/
  byTime : ∀ s ∈ l, (s.points.map Prod.fst).Pairwise (· < ·)
  /-- A group has points. -/
  nonempty : ∀ s ∈ l, s.points ≠ []

theorem mem_rows {s : RangePoints F} {r : SeriesRow F} :
    r ∈ s.rows ↔ r.metricName = s.metricName ∧ r.labels = s.labels ∧
      (r.tsUs, r.value) ∈ s.points := by
  obtain ⟨name, labels, ts, v⟩ := r
  simp only [RangePoints.rows, List.mem_map, SeriesRow.mk.injEq]
  constructor
  · rintro ⟨p, hp, rfl, rfl, rfl, rfl⟩
    exact ⟨rfl, rfl, hp⟩
  · rintro ⟨rfl, rfl, hp⟩
    exact ⟨(ts, v), hp, rfl, rfl, rfl, rfl⟩

theorem Grouped.eq_of_labels {l : List (RangePoints F)} (h : Grouped l) {s s' : RangePoints F}
    (hs : s ∈ l) (hs' : s' ∈ l) (hlabels : s.labels = s'.labels) : s = s' :=
  List.inj_on_of_nodup_map (h.byLabels.imp ne_of_lt) hs hs' hlabels

/-- Strictly increasing lists with the same members are the same. -/
theorem eq_of_mem_iff_of_pairwise {α β : Type} [LinearOrder β] {key : α → β} {l l' : List α}
    (h : (l.map key).Pairwise (· < ·)) (h' : (l'.map key).Pairwise (· < ·))
    (hmem : ∀ x, x ∈ l ↔ x ∈ l') : l = l' := by
  have hnodup : l.Nodup := List.Nodup.of_map key (h.imp ne_of_lt)
  have hnodup' : l'.Nodup := List.Nodup.of_map key (h'.imp ne_of_lt)
  have hperm : l.Perm l' := (List.perm_ext_iff_of_nodup hnodup hnodup').mpr hmem
  rw [List.pairwise_map] at h h'
  exact hperm.eq_of_pairwise (fun a b _ _ hab hba => absurd hab (lt_asymm hba)) h h'

/-- **A matrix of groups is told by its rows.** -/
theorem Grouped.eq_of_mem_rows {l l' : List (RangePoints F)} (h : Grouped l) (h' : Grouped l')
    (hrows : ∀ r, r ∈ l.flatMap RangePoints.rows ↔ r ∈ l'.flatMap RangePoints.rows) : l = l' := by
  have hsub : ∀ {l l' : List (RangePoints F)}, Grouped l → Grouped l' →
      (∀ r, r ∈ l.flatMap RangePoints.rows ↔ r ∈ l'.flatMap RangePoints.rows) →
        ∀ s ∈ l, s ∈ l' := by
    intro l l' h h' hrows s hs
    -- the group of a row is the one with its labels
    have hgroup : ∀ {l l' : List (RangePoints F)}, Grouped l' →
        (∀ r, r ∈ l.flatMap RangePoints.rows → r ∈ l'.flatMap RangePoints.rows) →
          ∀ s ∈ l, ∀ s' ∈ l', s.labels = s'.labels → ∀ p ∈ s.points, p ∈ s'.points := by
      intro l l' h' himp s hs s' hs' hlabels p hp
      have hr := himp ⟨s.metricName, s.labels, p.1, p.2⟩
        (List.mem_flatMap.mpr ⟨s, hs, mem_rows.mpr ⟨rfl, rfl, hp⟩⟩)
      obtain ⟨s'', hs'', hr⟩ := List.mem_flatMap.mp hr
      obtain ⟨-, hlabels', hp'⟩ := mem_rows.mp hr
      rwa [h'.eq_of_labels hs' hs'' (hlabels.symm.trans hlabels')]
    obtain ⟨p, hp⟩ := List.exists_mem_of_ne_nil _ (h.nonempty s hs)
    have hr := (hrows ⟨s.metricName, s.labels, p.1, p.2⟩).mp
      (List.mem_flatMap.mpr ⟨s, hs, mem_rows.mpr ⟨rfl, rfl, hp⟩⟩)
    obtain ⟨s', hs', hr⟩ := List.mem_flatMap.mp hr
    obtain ⟨hname, hlabels, -⟩ := mem_rows.mp hr
    have hpoints : s.points = s'.points :=
      eq_of_mem_iff_of_pairwise (h.byTime s hs) (h'.byTime s' hs') fun p =>
        ⟨hgroup h' (fun r => (hrows r).mp) s hs s' hs' hlabels p,
          hgroup h (fun r => (hrows r).mpr) s' hs' s hs hlabels.symm p⟩
    have heq : s = s' := by
      obtain ⟨_, _, _⟩ := s
      obtain ⟨_, _, _⟩ := s'
      cases hname
      cases hlabels
      cases hpoints
      rfl
    rwa [heq]
  exact eq_of_mem_iff_of_pairwise h.byLabels h'.byLabels fun s =>
    ⟨hsub h h' hrows s, hsub h' h (fun r => (hrows r).symm) s⟩

/-! ### In the program -/

/-- **What is aligned at each timestamp**: the values of all the members there. -/
theorem mem_alignByTs {members : List (RangePoints F)} {e : ℤ × List F} :
    e ∈ (alignByTs members).entries ↔
      (∃ x ∈ members.flatMap RangePoints.rows, x.tsUs = e.1) ∧
        e.2 = ((members.flatMap RangePoints.rows).filter fun x => decide (x.tsUs = e.1)).map
          SeriesRow.value := by
  have hfold : alignByTs members = (members.flatMap RangePoints.rows).foldl
      (fun m r => m.push r.tsUs r.value) .empty := by
    rw [alignByTs, List.foldl_flatMap]
    congr 1
    funext m s
    rw [RangePoints.rows, List.foldl_map]
  rw [hfold]
  exact SortedMap.mem_entries_foldl_push

section Program

variable [F64 F]

theorem grouped_aggregateRangePoints (inner : List (RangePoints F)) (op : AggOp)
    (modifier : Option LabelModifier) : Grouped (aggregateRangePoints inner op modifier) where
  unnamed s hs := by
    obtain ⟨g, -, rfl⟩ := List.mem_map.mp (List.mem_of_mem_filter hs)
    rfl
  byLabels := by
    refine List.Pairwise.sublist (List.filter_sublist.map _) ?_
    rw [List.map_map]
    exact SortedMap.keys_pairwise _
  byTime s hs := by
    obtain ⟨g, -, rfl⟩ := List.mem_map.mp (List.mem_of_mem_filter hs)
    simp only [List.map_map]
    exact SortedMap.keys_pairwise (alignByTs g.2)
  nonempty s hs := by
    have := (List.mem_filter.mp hs).2
    simpa using this

/-- **The rows of an aggregation in the program**: for each group of labels and each timestamp
with a value, the aggregate of the values there. -/
theorem mem_rows_aggregateRangePoints {inner : List (RangePoints F)} {op : AggOp}
    {modifier : Option LabelModifier} {r : SeriesRow F} :
    r ∈ (aggregateRangePoints inner op modifier).flatMap RangePoints.rows ↔
      r.metricName = "" ∧
        (∃ x ∈ inner.flatMap RangePoints.rows,
          retainedLabels x.labels modifier = r.labels ∧ x.tsUs = r.tsUs) ∧
        r.value = applyAgg op (((inner.flatMap RangePoints.rows).filter fun x =>
          decide (retainedLabels x.labels modifier = r.labels ∧ x.tsUs = r.tsUs)).map
            SeriesRow.value) := by
  let group (labels : Labels) : List (RangePoints F) :=
    inner.filter fun s => decide (retainedLabels s.labels modifier = labels)
  have hgroup : ∀ g, g ∈ (inner.foldl (fun m s => m.push (retainedLabels s.labels modifier) s)
      (.empty : SortedMap Labels (List (RangePoints F)))).entries ↔
        (∃ s ∈ inner, retainedLabels s.labels modifier = g.1) ∧ g.2 = group g.1 := by
    intro g
    have h : _ ↔ _ ∧ g.2 = (group g.1).map id := SortedMap.mem_entries_foldl_push
    rwa [List.map_id] at h
  -- the rows of the members of a group are the rows of the group
  have hrows : ∀ labels, (group labels).flatMap RangePoints.rows =
      (inner.flatMap RangePoints.rows).filter fun x =>
        decide (retainedLabels x.labels modifier = labels) := by
    intro labels
    refine Sql.flatMap_filter fun s _ x hx => ?_
    rw [(mem_rows.mp hx).2.1]
  have hvalues : ∀ labels ts, (((group labels).flatMap RangePoints.rows).filter
      fun x => decide (x.tsUs = ts)) = (inner.flatMap RangePoints.rows).filter fun x =>
        decide (retainedLabels x.labels modifier = labels ∧ x.tsUs = ts) := by
    intro labels ts
    rw [hrows, List.filter_filter]
    refine List.filter_congr fun x _ => ?_
    rw [Bool.and_comm, ← Bool.decide_and]
  constructor
  · intro h
    obtain ⟨s, hs, hr⟩ := List.mem_flatMap.mp h
    obtain ⟨g, hg, rfl⟩ := List.mem_map.mp (List.mem_of_mem_filter hs)
    obtain ⟨hname, hlabels, hp⟩ := mem_rows.mp hr
    obtain ⟨e, he, hpe⟩ := List.mem_map.mp hp
    obtain ⟨-, hg2⟩ := (hgroup g).mp hg
    rw [hg2] at he
    obtain ⟨⟨x, hx, hxts⟩, hvs⟩ := mem_alignByTs.mp he
    rw [Prod.mk.injEq] at hpe
    obtain ⟨hts, hval⟩ := hpe
    have hlabels : r.labels = g.1 := hlabels
    rw [hrows] at hx
    obtain ⟨hx, hxl⟩ := List.mem_filter.mp hx
    refine ⟨hname, ⟨x, hx, ?_, hxts.trans hts⟩, ?_⟩
    · rw [hlabels]
      exact of_decide_eq_true hxl
    · rw [← hval, hvs, hvalues, hlabels, hts]
  · rintro ⟨hname, ⟨x, hx, hxl, hxts⟩, hval⟩
    obtain ⟨s, hs, hxs⟩ := List.mem_flatMap.mp hx
    have hsl : retainedLabels s.labels modifier = r.labels := by
      rw [← hxl, (mem_rows.mp hxs).2.1]
    have hg : (r.labels, group r.labels) ∈ _ := (hgroup (r.labels, group r.labels)).mpr
      ⟨⟨s, hs, hsl⟩, rfl⟩
    have hxg : x ∈ (group r.labels).flatMap RangePoints.rows := by
      rw [hrows]
      exact List.mem_filter.mpr ⟨hx, decide_eq_true hxl⟩
    have hp : (r.tsUs, r.value) ∈ (alignByTs (group r.labels)).entries.map
        fun e => (e.1, applyAgg op e.2) := by
      refine List.mem_map.mpr ⟨(r.tsUs, (((group r.labels).flatMap RangePoints.rows).filter
        fun x => decide (x.tsUs = r.tsUs)).map SeriesRow.value), ?_, Prod.ext rfl ?_⟩
      · exact mem_alignByTs.mpr ⟨⟨x, hxg, hxts⟩, rfl⟩
      · rw [hvalues, hval]
    refine List.mem_flatMap.mpr ⟨⟨"", r.labels, _⟩, List.mem_filter.mpr
      ⟨List.mem_map.mpr ⟨_, hg, rfl⟩, ?_⟩, mem_rows.mpr ⟨hname, rfl, hp⟩⟩
    rw [Bool.not_eq_true', List.isEmpty_eq_false_iff]
    exact List.ne_nil_of_mem hp

end Program

/-! ### In the query -/

section Query

variable {keep : F → Bool} {rows : List (ℤ × Labels × Option F)}

/-- The rows of a query that have a value, one that is kept. -/
def keptRows (keep : F → Bool) (rows : List (ℤ × Labels × Option F)) : List (Labels × ℤ × F) :=
  rows.filterMap fun r => (r.2.2.filter keep).map fun v => (r.2.1, r.1, v)

theorem decodeRange_eq (keep : F → Bool) (rows : List (ℤ × Labels × Option F)) :
    decodeRange keep rows =
      (((keptRows keep rows).foldl (fun m x => m.push x.1 x.2)
        (.empty : SortedMap Labels (List (ℤ × F)))).entries.filter
          fun g => !g.2.isEmpty).map fun g => ⟨"", g.1, g.2⟩ := by
  rw [decodeRange, keptRows, List.foldl_filterMap]
  congr 4
  funext m r
  cases r.2.2.filter keep <;> rfl

theorem mem_keptRows {x : Labels × ℤ × F} :
    x ∈ keptRows keep rows ↔ (x.2.1, x.1, some x.2.2) ∈ rows ∧ keep x.2.2 = true := by
  simp only [keptRows, List.mem_filterMap, Option.map_eq_some_iff, Option.filter_eq_some_iff]
  constructor
  · rintro ⟨⟨ts, labels, o⟩, hr, v, ⟨rfl, hk⟩, rfl⟩
    exact ⟨hr, hk⟩
  · rintro ⟨hr, hk⟩
    exact ⟨_, hr, x.2.2, ⟨rfl, hk⟩, rfl⟩

/-- **The rows of a decoded query** are its rows with a value. -/
theorem mem_rows_decodeRange {r : SeriesRow F} :
    r ∈ (decodeRange keep rows).flatMap RangePoints.rows ↔
      r.metricName = "" ∧ (r.tsUs, r.labels, some r.value) ∈ rows ∧ keep r.value = true := by
  have hx : (r.labels, r.tsUs, r.value) ∈ keptRows keep rows ↔ _ := mem_keptRows
  rw [← hx, decodeRange_eq]
  constructor
  · intro h
    obtain ⟨s, hs, hr⟩ := List.mem_flatMap.mp h
    obtain ⟨g, hg, rfl⟩ := List.mem_map.mp hs
    obtain ⟨hname, hlabels, hp⟩ := mem_rows.mp hr
    obtain ⟨-, hg2⟩ := SortedMap.mem_entries_foldl_push.mp (List.mem_of_mem_filter hg)
    have hp : (r.tsUs, r.value) ∈ g.2 := hp
    rw [hg2] at hp
    obtain ⟨x, hx, hxp⟩ := List.mem_map.mp hp
    obtain ⟨hx, hxg⟩ := List.mem_filter.mp hx
    have hxeq : x = (r.labels, r.tsUs, r.value) :=
      Prod.ext ((of_decide_eq_true hxg).trans hlabels.symm) hxp
    exact ⟨hname, hxeq ▸ hx⟩
  · rintro ⟨hname, hx⟩
    refine List.mem_flatMap.mpr ⟨⟨"", r.labels, ((keptRows keep rows).filter
      fun x => decide (x.1 = r.labels)).map Prod.snd⟩, List.mem_map.mpr ⟨(r.labels, _),
        List.mem_filter.mpr ⟨SortedMap.mem_entries_foldl_push.mpr ⟨⟨_, hx, rfl⟩, rfl⟩,
          ?_⟩, rfl⟩, ?_⟩
    · rw [Bool.not_eq_true', List.isEmpty_eq_false_iff]
      exact List.ne_nil_of_mem (List.mem_map_of_mem (List.mem_filter.mpr ⟨hx, by simp⟩))
    · exact mem_rows.mpr ⟨hname, rfl, List.mem_map.mpr
        ⟨_, List.mem_filter.mpr ⟨hx, decide_eq_true rfl⟩, rfl⟩⟩

/-- **A decoded query is a matrix of groups**, when the rows under the same labels come in the
order of their timestamps. -/
theorem grouped_decodeRange (hrows : rows.Pairwise fun a b => a.2.1 = b.2.1 → a.1 < b.1) :
    Grouped (decodeRange keep rows) := by
  have hkept : (keptRows keep rows).Pairwise fun x y => x.1 = y.1 → x.2.1 < y.2.1 := by
    rw [keptRows, List.pairwise_filterMap]
    refine hrows.imp fun {a b} hab x hx y hy => ?_
    obtain ⟨v, -, rfl⟩ := Option.map_eq_some_iff.mp hx
    obtain ⟨w, -, rfl⟩ := Option.map_eq_some_iff.mp hy
    exact hab
  rw [decodeRange_eq]
  refine ⟨?_, ?_, ?_, ?_⟩
  · intro s hs
    obtain ⟨g, -, rfl⟩ := List.mem_map.mp hs
    rfl
  · rw [List.map_map]
    exact List.Pairwise.sublist (List.filter_sublist.map Prod.fst) (SortedMap.keys_pairwise _)
  · intro s hs
    obtain ⟨g, hg, rfl⟩ := List.mem_map.mp hs
    obtain ⟨-, hg2⟩ := SortedMap.mem_entries_foldl_push.mp (List.mem_of_mem_filter hg)
    rw [hg2, List.map_map, List.pairwise_map, List.pairwise_filter]
    refine hkept.imp fun {x y} hxy hx hy => hxy ?_
    rw [of_decide_eq_true hx, of_decide_eq_true hy]
  · intro s hs
    obtain ⟨g, hg, rfl⟩ := List.mem_map.mp hs
    simpa using (List.mem_filter.mp hg).2

end Query

end Skaldberg.Prometheus
