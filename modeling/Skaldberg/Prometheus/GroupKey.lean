import Skaldberg.Prometheus.AggregateRefinement
import Skaldberg.Prometheus.Windows

/-!
# The texts of groups

Where a query cannot name the labels of a group, because it groups by those a series has besides
some, or matches series by all their labels, it groups and matches by the text these labels spell
(`gk`): `k=v` for each, joined by commas.

A text stands for labels only as far as it tells them apart, and the separators are not escaped:
`{a="1,b=2"}` and `{a="1", b="2"}` spell the same. And the text is aggregated from a table with a
row for each label, so that a series with none has no text at all, and is lost where the points are
joined with their texts (`joinGk_eq`). Where neither happens, the texts are the labels
(`GroupedByText`, `groupedByText_iff`).
-/

namespace Skaldberg.Prometheus

variable {F τ : Type}

/-! ### What labels spell -/

/-- The labels under the other keys. -/
def remaining (excluded : List String) (labels : Labels) : Labels :=
  labels.filter fun k _ => !excluded.contains k

/-- The text that labels spell. -/
def spelling (labels : Labels) : String :=
  ",".intercalate (labels.entries.map fun e => e.1 ++ "=" ++ e.2)

/-- The text of the group of a series, if it has one. -/
def groupText (excluded : List String) (s : Skaldberg.SeriesRow) : Option String :=
  if (remaining excluded s.labels).isEmpty then none
  else some (spelling (remaining excluded s.labels))

/-- **The text that a query aggregates** from the labels of a series. -/
theorem stringAgg_entries (E : Sql.Engine) (labels : Labels) :
    stringAgg E (labels.entries.map fun e => (e.1, some e.2)) =
      if labels.isEmpty then none else some (spelling labels) := by
  let pairs : List (String × Option String) := labels.entries.map fun e => (e.1, some e.2)
  have hkeys : (pairs.map Prod.fst).Pairwise (· < ·) := by
    rw [List.map_map]
    exact labels.keys_pairwise
  -- the labels are in the order of their keys already
  have hsort : E.sort (fun a b : String × Option String => decide (a.1 ≤ b.1)) pairs = pairs := by
    rw [List.pairwise_map] at hkeys
    refine (E.sort_perm _ pairs).eq_of_pairwise (fun a b ha hb hab hba => ?_)
      (E.sort_pairwise _ pairs (fun a b => by simpa using le_total a.1 b.1)
        fun a b c => by simpa using le_trans) (hkeys.imp fun h => decide_eq_true h.le)
    have hkey : a.1 = b.1 := le_antisymm (of_decide_eq_true hab) (of_decide_eq_true hba)
    have hnodup : (pairs.map Prod.fst).Nodup := List.Pairwise.imp ne_of_lt
      (List.pairwise_map.mpr hkeys)
    exact List.inj_on_of_nodup_map hnodup (E.mem_sort.mp ha) hb hkey
  have htexts : pairs.filterMap (fun e => e.2.map fun v => e.1 ++ "=" ++ v) =
      labels.entries.map fun e => e.1 ++ "=" ++ e.2 := by
    rw [List.filterMap_map, ← List.filterMap_eq_map]
    rfl
  have hagg : ∀ texts, (E.sort (fun a b : String × Option String => decide (a.1 ≤ b.1))
      pairs).filterMap (fun e => e.2.map fun v => e.1 ++ "=" ++ v) = texts →
        stringAgg E pairs = if texts.isEmpty then none else some (",".intercalate texts) := by
    rintro texts rfl
    rfl
  rw [hagg _ ((congrArg _ hsort).trans htexts), List.isEmpty_map]
  rfl

/-- The pairs of a series are its remaining labels. -/
theorem pairs_eq_entries {α : Type} (excluded : List String) (sid : α) (labels : Labels) :
    ((labels.keys.filter fun k => !excluded.contains k).map fun k =>
      (sid, k, elementAt labels k)) =
        (remaining excluded labels).entries.map fun e => (sid, e.1, some e.2) := by
  rw [SortedMap.keys, List.filter_map, List.map_map]
  refine List.map_congr_left fun e he => ?_
  rw [Function.comp_apply, elementAt, SortedMap.get?_eq_some_iff.mpr (List.mem_of_mem_filter he)]

/-! ### The texts of points -/

section Text

variable {t : Tables F} {excluded : List String} {sids : List ℤ}

/-- **The text of a series in the query**, which it has if it has a label left. -/
theorem gk_filter_eq (h : OneRowPerSeries t) (hsids : sids.Nodup) (E : Sql.Engine)
    {s : Skaldberg.SeriesRow} (hs : s ∈ t.series) (hsid : s.seriesId ∈ sids) :
    (gk E t excluded sids).filter (fun g => decide (s.seriesId = g.1)) =
      (groupText excluded s).toList.map fun text => (s.seriesId, text) := by
  let pairsOf (r : ℤ × Skaldberg.SeriesRow) :=
    (r.2.labels.keys.filter fun k => !excluded.contains k).map fun k =>
      (r.1, k, elementAt r.2.labels k)
  have hnodup : ((joinSeries t id sids).map Prod.fst).Nodup :=
    hsids.sublist (joinSeries_fst_sublist h id sids)
  have hmem : (s.seriesId, s) ∈ joinSeries t id sids :=
    Sql.mem_join.mpr ⟨hsid, hs, beq_iff_eq.mpr rfl⟩
  have hgroup := Sql.filter_groupBy_flatMap Prod.fst pairsOf hnodup
    (fun r _ x hx => by
      obtain ⟨k, -, rfl⟩ := List.mem_map.mp hx
      rfl) hmem
  have hcomm : (fun g : ℤ × String => decide (s.seriesId = g.1)) ∘
      (fun g : ℤ × List (ℤ × String × Option String) =>
        (g.1, (stringAgg E (g.2.map Prod.snd)).getD "")) =
          fun g => decide (g.1 = s.seriesId) := by
    funext g
    exact decide_eq_decide.mpr eq_comm
  rw [gk, List.filter_map, hcomm]
  change ((Sql.groupBy Prod.fst ((joinSeries t id sids).flatMap pairsOf)).filter _).map _ = _
  have hpairs : pairsOf (s.seriesId, s) = _ := pairs_eq_entries excluded s.seriesId s.labels
  rw [hgroup, hpairs, List.isEmpty_map, groupText]
  change (if (remaining excluded s.labels).isEmpty = true then _ else _ : List _).map _ = _
  split_ifs with hempty
  · rfl
  · rw [List.map_singleton, List.map_map]
    change [(s.seriesId, (stringAgg E ((remaining excluded s.labels).entries.map fun e =>
      (e.1, some e.2))).getD "")] = _
    rw [stringAgg_entries, if_neg hempty]
    rfl

section Points

variable [F64 F]

/-- **The points with their texts**: those whose series has one. -/
theorem joinGk_eq (h : OneRowPerSeries t) (hsids : sids.Nodup) (E : Sql.Engine)
    {rows : List (Point τ F × Skaldberg.SeriesRow)}
    (hrows : ∀ r ∈ rows, r.2 ∈ t.series ∧ r.1.seriesId = r.2.seriesId)
    (hmem : ∀ r ∈ rows, r.1.seriesId ∈ sids) :
    joinGk E t excluded sids (rows.map Prod.fst) =
      rows.filterMap fun r => (groupText excluded r.2).map fun text => (r.1, text) := by
  rw [joinGk, Sql.join, List.flatMap_map, List.map_flatMap, List.filterMap_eq_flatMap_toList]
  refine List.flatMap_congr fun r hr => ?_
  obtain ⟨hs, hid⟩ := hrows r hr
  rw [hid, gk_filter_eq h hsids E hs (hid ▸ hmem r hr)]
  cases groupText excluded r.2 <;> rfl

end Points

/-- The points of series in the table, with their series. -/
theorem map_fst_joinSeries (h : OneRowPerSeries t) {points : List (Point τ F)}
    (hseries : ∀ p ∈ points, ∃ s ∈ t.series, s.seriesId = p.seriesId) :
    (joinSeries t Point.seriesId points).map Prod.fst = points := by
  refine (map_joinSeries h fun p hp => ?_).trans (List.map_id points)
  obtain ⟨s, hs, hid⟩ := hseries p hp
  exact ⟨s, hs, hid, rfl⟩

end Text

/-! ### Texts in place of labels -/

/-- The labels left to some series are told by their texts: each has a label left, and no two spell
the same text with different ones. -/
structure ToldByText (excluded : List String) (series : List Skaldberg.SeriesRow) : Prop where
  /-- A label is left. -/
  some_label : ∀ s ∈ series, (remaining excluded s.labels).isEmpty = false
  /-- Different labels spell different texts. -/
  spelt_apart : ∀ s ∈ series, ∀ s' ∈ series,
    spelling (remaining excluded s.labels) = spelling (remaining excluded s'.labels) →
      remaining excluded s.labels = remaining excluded s'.labels

theorem ToldByText.mono {excluded : List String} {series series' : List Skaldberg.SeriesRow}
    (h : ToldByText excluded series') (hsub : ∀ s ∈ series, s ∈ series') :
    ToldByText excluded series where
  some_label s hs := h.some_label s (hsub s hs)
  spelt_apart s hs s' hs' := h.spelt_apart s (hsub s hs) s' (hsub s' hs')

instance (excluded : List String) (series : List Skaldberg.SeriesRow) :
    Decidable (ToldByText excluded series) :=
  decidable_of_iff ((∀ s ∈ series, (remaining excluded s.labels).isEmpty = false) ∧
    ∀ s ∈ series, ∀ s' ∈ series,
      spelling (remaining excluded s.labels) = spelling (remaining excluded s'.labels) →
        remaining excluded s.labels = remaining excluded s'.labels)
    ⟨fun h => ⟨h.1, h.2⟩, fun h => ⟨h.some_label, h.spelt_apart⟩⟩

section Groups

variable [F64 F] {t : Tables F} {excluded : List String} {sids : List ℤ} {E : Sql.Engine}

/-- The groups of a text are the groups of the labels left: every point is in one, and two points
are in the same one exactly when their series have the same labels left. -/
structure GroupedByText (E : Sql.Engine) (t : Tables F) (excluded : List String) (sids : List ℤ)
    (points : List (Point τ F)) : Prop where
  /-- Every point has one text. -/
  once : ((joinGk E t excluded sids points).map Prod.fst).Perm points
  /-- Texts are the same when labels are. -/
  same : ∀ r ∈ joinGk E t excluded sids points, ∀ r' ∈ joinGk E t excluded sids points,
    ∀ s ∈ t.series, ∀ s' ∈ t.series, s.seriesId = r.1.seriesId → s'.seriesId = r'.1.seriesId →
      (r.2 = r'.2 ↔ retainedLabels s.labels (some (.excludes excluded)) =
        retainedLabels s'.labels (some (.excludes excluded)))

variable {rows : List (Point τ F × Skaldberg.SeriesRow)}

/-- **Every point of series told by their texts has the text of its series.** -/
theorem joinGk_of_told (h : OneRowPerSeries t) (hsids : sids.Nodup)
    (hrows : ∀ r ∈ rows, r.2 ∈ t.series ∧ r.1.seriesId = r.2.seriesId)
    (hmem : ∀ r ∈ rows, r.1.seriesId ∈ sids) (htold : ToldByText excluded (rows.map Prod.snd)) :
    joinGk E t excluded sids (rows.map Prod.fst) =
      rows.map fun r => (r.1, spelling (remaining excluded r.2.labels)) := by
  rw [joinGk_eq h hsids E hrows hmem]
  refine List.filterMap_eq_map_iff_forall_eq_some.mpr fun r hr => ?_
  rw [groupText, htold.some_label r.2 (List.mem_map_of_mem hr)]
  rfl

/-- **Texts make the groups of labels exactly when they tell the labels.** -/
theorem groupedByText_iff (h : OneRowPerSeries t) (hsids : sids.Nodup)
    (hrows : ∀ r ∈ rows, r.2 ∈ t.series ∧ r.1.seriesId = r.2.seriesId)
    (hmem : ∀ r ∈ rows, r.1.seriesId ∈ sids) :
    GroupedByText E t excluded sids (rows.map Prod.fst) ↔
      ToldByText excluded (rows.map Prod.snd) := by
  constructor
  · intro hgrouped
    have hjoin : joinGk E t excluded sids (rows.map Prod.fst) = _ :=
      joinGk_eq h hsids E hrows hmem
    have hlabel : ∀ s ∈ rows.map Prod.snd, (remaining excluded s.labels).isEmpty = false := by
      -- no point is lost
      have hlen := hgrouped.once.length_eq
      rw [hjoin, List.length_map, List.length_map, List.length_filterMap_eq_countP,
        List.countP_eq_length] at hlen
      intro s hs
      obtain ⟨r, hr, rfl⟩ := List.mem_map.mp hs
      have hsome := hlen r hr
      rw [Option.isSome_map, groupText] at hsome
      by_contra hempty
      rw [Bool.not_eq_false] at hempty
      simp [hempty] at hsome
    refine ⟨hlabel, fun s hs s' hs' hspell => ?_⟩
    have htext : ∀ r ∈ rows, (r.1, spelling (remaining excluded r.2.labels)) ∈
        joinGk E t excluded sids (rows.map Prod.fst) := by
      intro r hr
      rw [hjoin]
      refine List.mem_filterMap.mpr ⟨r, hr, ?_⟩
      rw [groupText, hlabel r.2 (List.mem_map_of_mem hr)]
      rfl
    obtain ⟨r, hr, rfl⟩ := List.mem_map.mp hs
    obtain ⟨r', hr', rfl⟩ := List.mem_map.mp hs'
    exact (hgrouped.same _ (htext r hr) _ (htext r' hr') r.2 (hrows r hr).1 r'.2 (hrows r' hr').1
      (hrows r hr).2.symm (hrows r' hr').2.symm).mp hspell
  · intro htold
    have hjoin := joinGk_of_told h hsids hrows hmem htold (E := E)
    refine ⟨?_, ?_⟩
    · rw [hjoin, List.map_map]
      exact List.Perm.refl _
    · rw [hjoin]
      intro r hr r' hr' s hs s' hs' hid hid'
      obtain ⟨x, hx, rfl⟩ := List.mem_map.mp hr
      obtain ⟨x', hx', rfl⟩ := List.mem_map.mp hr'
      have hsx : s = x.2 := series_eq h hs (hrows x hx).1 (hid.trans (hrows x hx).2)
      have hsx' : s' = x'.2 := series_eq h hs' (hrows x' hx').1 (hid'.trans (hrows x' hx').2)
      rw [hsx, hsx']
      exact ⟨htold.spelt_apart _ (List.mem_map_of_mem hx) _ (List.mem_map_of_mem hx'),
        congrArg spelling⟩

end Groups

end Skaldberg.Prometheus
