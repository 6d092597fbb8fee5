import Skaldberg.Prometheus.WellFormed

/-!
# The shape of an instant vector

An instant vector is well formed (`Skaldberg.Prometheus.WellFormedVector`) when no two of its points
have the same name and labels. As with matrices, what carries over from the operands of an operator
to its result is that the labels alone tell the points apart (`ToldVector`). Unlike a matrix, an
instant vector is not collected by series once the query has answered, so there is nothing that
would merge two points of a series: each of the queries has to answer with one.

Here this is followed through what the program does to instant vectors, and through the rows of the
queries.
-/

namespace Skaldberg.Prometheus

variable {F : Type}

/-- A vector without two points of one name and one label map. -/
def WellFormedVector (l : List (InstantPoint F)) : Prop :=
  (l.map fun p => (p.metricName, p.labels)).Nodup

/-- A vector whose points are told apart by their labels alone. -/
def ToldVector (l : List (InstantPoint F)) : Prop := (l.map InstantPoint.labels).Nodup

namespace ToldVector

variable {l l' : List (InstantPoint F)}

theorem wellFormed (h : ToldVector l) : WellFormedVector l := by
  refine List.Nodup.of_map Prod.snd ?_
  rw [List.map_map]
  exact h

theorem nil : ToldVector ([] : List (InstantPoint F)) := List.nodup_nil

/-- Points taken once each from a vector. -/
theorem subperm (h : ToldVector l) (hsub : l'.Subperm l) : ToldVector l' := by
  obtain ⟨l₁, hperm, hl₁⟩ := hsub
  exact ((hperm.map InstantPoint.labels).nodup_iff).mp (h.sublist (hl₁.map _))

/-- Points that are changed, or dropped, and keep their labels. -/
theorem filterMap (h : ToldVector l) {f : InstantPoint F → Option (InstantPoint F)}
    (hf : ∀ p p', f p = some p' → p'.labels = p.labels) : ToldVector (l.filterMap f) := by
  rw [ToldVector, List.Nodup, List.pairwise_map, List.pairwise_filterMap]
  refine (List.pairwise_map.mp h).imp fun {a b} hab a' ha b' hb => ?_
  rw [hf a a' ha, hf b b' hb]
  exact hab

end ToldVector

/-! ### In the program -/

section Program

variable [F64 F] {l lhs rhs : List (InstantPoint F)} {op : BinOp} {returnBool : Bool}

theorem told_aggregateInstantPoints (l : List (InstantPoint F)) (op : AggOp)
    (modifier : Option LabelModifier) (timeUs : ℤ) :
    ToldVector (aggregateInstantPoints l op modifier timeUs) := by
  rw [ToldVector, aggregateInstantPoints, List.map_map]
  exact SortedMap.keys_nodup _

theorem told_histogramQuantileInstant (l : List (InstantPoint F)) (quantile : F) (timeUs : ℤ) :
    ToldVector (histogramQuantileInstant l quantile timeUs) := by
  rw [ToldVector, histogramQuantileInstant, List.Nodup, List.pairwise_map, List.pairwise_filterMap]
  refine (List.pairwise_map.mp (SortedMap.keys_nodup _)).imp fun {g g'} hne p hp p' hp' => ?_
  obtain ⟨v, -, rfl⟩ := Option.map_eq_some_iff.mp hp
  obtain ⟨v', -, rfl⟩ := Option.map_eq_some_iff.mp hp'
  exact hne

/-- **A cut takes points of its vector**, each once. -/
theorem topkInstantPoints_subperm (l : List (InstantPoint F)) (n : ℕ) (top : Bool)
    (modifier : Option LabelModifier) : (topkInstantPoints l n top modifier).Subperm l := by
  rw [topkInstantPoints]
  split_ifs
  · exact List.nil_subperm
  · let key (p : InstantPoint F) : Labels := retainedLabels p.labels modifier
    let groups : SortedMap Labels (List (InstantPoint F)) :=
      l.foldl (fun m p => m.push (key p) p) .empty
    have hperm : (groups.values.flatMap id).Perm l := by
      rw [SortedMap.values, List.flatMap_map]
      refine ((SortedMap.entries_foldl_push_perm key id l).flatMap_right _).trans ?_
      rw [List.flatMap_map]
      simp only [id_eq, List.map_id]
      exact Sql.flatMap_groupBy_perm key l
    have hcut : ∀ gs : List (List (InstantPoint F)),
        (gs.flatMap fun members => (sortByValue top InstantPoint.value members).take n).Subperm
          (gs.flatMap id) := by
      intro gs
      induction gs with
      | nil => exact List.Subperm.refl _
      | cons g gs ih =>
        rw [List.flatMap_cons, List.flatMap_cons]
        refine (List.Subperm.trans ?_ ((List.subperm_append_left _).mpr ih))
        refine (List.subperm_append_right _).mpr ?_
        exact (List.take_sublist _ _).subperm.trans (List.perm_insertionSort _ g).subperm
    exact (hcut groups.values).trans hperm.subperm

theorem ToldVector.applyScalarVectorInstant (h : ToldVector l) (scalar : F) (op : BinOp)
    (returnBool scalarOnLeft : Bool) :
    ToldVector (Prometheus.applyScalarVectorInstant scalar l op returnBool scalarOnLeft) := by
  refine h.filterMap fun p p' hp => ?_
  obtain ⟨v, -, rfl⟩ := Option.map_eq_some_iff.mp hp
  rfl

theorem ToldVector.applyVectorVectorInstant (h : ToldVector lhs) (rhs : List (InstantPoint F))
    (op : BinOp) (returnBool : Bool) :
    ToldVector (Prometheus.applyVectorVectorInstant lhs rhs op returnBool) := by
  refine h.filterMap fun p p' hp => ?_
  obtain ⟨r, -, hr⟩ := Option.bind_eq_some_iff.mp hp
  obtain ⟨v, -, rfl⟩ := Option.map_eq_some_iff.mp hr
  rfl

/-- **An operator keeps the labels of its vector**, of the left one if both are vectors. -/
theorem told_combineInstant (op : BinOp) (returnBool : Bool) :
    ∀ left right : Side F (List (InstantPoint F)), (∀ l, left = .vector l → ToldVector l) →
      (∀ l, right = .vector l → ToldVector l) → ToldVector (combineInstant op returnBool left right)
  | .scalar s, .vector l, _, hr => (hr l rfl).applyScalarVectorInstant s op returnBool true
  | .vector l, .scalar s, hl, _ => (hl l rfl).applyScalarVectorInstant s op returnBool false
  | .vector l, .vector r, hl, _ => (hl l rfl).applyVectorVectorInstant r op returnBool
  | .scalar _, .scalar _, _, _ => .nil

end Program

/-! ### Aggregations and quantiles in the query -/

section Groups

variable [F64 F] {t : Tables F} {keep : F → Bool} {timeUs : ℤ}

omit [F64 F] in
theorem told_decodeInstant {rows : List (Labels × Option F)} (h : (rows.map Prod.fst).Nodup) :
    ToldVector (decodeInstant keep timeUs rows) := by
  rw [ToldVector, decodeInstant, List.Nodup, List.pairwise_map, List.pairwise_filterMap]
  refine (List.pairwise_map.mp h).imp fun {a b} hne p hp p' hp' => ?_
  obtain ⟨v, -, rfl⟩ := Option.map_eq_some_iff.mp hp
  obtain ⟨v', -, rfl⟩ := Option.map_eq_some_iff.mp hp'
  exact hne

/-- **A group of columns has one row.** -/
theorem nodup_aggregateBy (t : Tables F) (op : AggOp) (keys : List String)
    (points : List (Point Unit F)) : ((aggregateBy t op keys points).map Prod.fst).Nodup := by
  rw [aggregateBy]
  split_ifs
  · exact List.nodup_singleton _
  · let cols (r : Point Unit F × Skaldberg.SeriesRow) := labelColumns keys r.2
    have hcols : ∀ g ∈ Sql.groupBy cols (joinSeries t Point.seriesId points),
        ∃ s, g.1 = labelColumns keys s := by
      intro g hg
      obtain ⟨⟨r, -, hkey⟩, -⟩ := Sql.mem_groupBy.mp hg
      exact ⟨r.2, hkey.symm⟩
    rw [List.map_map, List.Nodup, List.pairwise_map]
    refine (List.pairwise_map.mp (Sql.nodup_groupBy_keys cols _)).imp_of_mem
      fun {a b} ha hb hne hlabels => hne ?_
    obtain ⟨s, hs⟩ := hcols a ha
    obtain ⟨s', hs'⟩ := hcols b hb
    rw [hs, hs', labelColumns_eq_iff, ← decodeLabels_labelColumns, ← decodeLabels_labelColumns,
      ← hs, ← hs']
    exact hlabels

omit [F64 F] in
/-- Rows at the one timestamp that differ in their labels. -/
theorem told_decodeInstant_unit {rows : List (Unit × Labels × Option F)}
    (h : rows.Pairwise fun a b => a.2.1 = b.2.1 → a.1 ≠ b.1) :
    ToldVector (decodeInstant keep timeUs (rows.map Prod.snd)) := by
  refine told_decodeInstant ?_
  rw [List.map_map, List.Nodup, List.pairwise_map]
  exact h.imp fun hne hlabels => hne hlabels rfl

variable (hrow : OneRowPerSeries t) {points : List (Point Unit F)}
  (hpoints : (points.map Point.seriesId).Nodup)
include hrow hpoints

/-- **An aggregation of points in the query** is told by its labels. -/
theorem told_instantAggregateOf (E : Sql.Engine) (keep : F → Bool) (op : AggOp)
    (modifier : Option LabelModifier) (timeUs : ℤ) :
    ToldVector (instantAggregateOf E t keep op modifier timeUs points) := by
  rw [instantAggregateOf]
  split
  · exact told_decodeInstant_unit (pairwise_aggregateWithout hrow hpoints)
  · exact told_decodeInstant (nodup_aggregateBy t op _ points)

/-- **A quantile in the query** is told by its labels. -/
theorem told_histogramQuantileOf (E : Sql.Engine) (keep : F → Bool) (q : F) (timeUs : ℤ) :
    ToldVector (decodeInstant keep timeUs ((histogramQuantileOf E t q points).map Prod.snd)) := by
  refine told_decodeInstant_unit (pairwise_histogramQuantileOf hrow ?_ q)
  refine List.Nodup.of_map Prod.snd ?_
  rw [List.map_map]
  exact hpoints

end Groups

/-! ### The rows of a query -/

section Rows

variable {t : Tables F} {accept : Labels → Bool} {keep : F → Bool} {timeUs : ℤ}
  {points : List (Point Unit F)}

theorem decodeInstantRows_subperm {rows rows' : List (Point Unit F × Skaldberg.SeriesRow)}
    (h : rows.Subperm rows') : (decodeInstantRows accept keep timeUs rows).Subperm
      (decodeInstantRows accept keep timeUs rows') := by
  obtain ⟨l, hperm, hl⟩ := h
  exact ⟨_, (hperm.filter _).map _, (hl.filter _).map _⟩

/-- **Points that a query takes once each, with their series**, are some of those joined with their
series. -/
theorem subperm_joinSeries (hpoints : points.Nodup)
    {rows : List (Point Unit F × Skaldberg.SeriesRow)} (hsub : (rows.map Prod.fst).Subperm points)
    (hseries : ∀ r ∈ rows, r.2 ∈ t.series ∧ r.1.seriesId = r.2.seriesId) :
    rows.Subperm (joinSeries t Point.seriesId points) := by
  have hnodup : rows.Nodup := by
    obtain ⟨l, hperm, hl⟩ := hsub
    exact ((hperm.nodup_iff).mp (hpoints.sublist hl)).of_map
  refine List.subperm_of_subset hnodup fun r hr => ?_
  obtain ⟨hs, hid⟩ := hseries r hr
  exact Sql.mem_join.mpr ⟨hsub.subset (List.mem_map_of_mem hr), hs, beq_iff_eq.mpr hid⟩

/-- **The answer of a query is told by its labels** where no accepted series has two points, and
no two of them differ in their names only. -/
theorem told_decodeInstantRows {α : Type} {rows : List α}
    {proj : α → Point Unit F × Skaldberg.SeriesRow}
    {row : α → Option (Point Unit F × Skaldberg.SeriesRow)} {name : String → String}
    (hrows : RowsOf t points rows proj row name) (hpoints : PointsApart t accept points)
    (htell : LabelsTell t accept points) :
    ToldVector (decodeInstantRows accept keep timeUs (rows.filterMap row)) := by
  rw [ToldVector, decodeInstantRows, List.map_map, List.Nodup, List.pairwise_map,
    List.pairwise_filter, List.pairwise_filterMap]
  refine (List.pairwise_map.mp (hpoints.subperm hrows.points)).imp_of_mem
    fun {a b} ha hb hab r hr r' hr' hacc hacc' hlabels => ?_
  rw [Bool.and_eq_true, hrows.labels a r hr] at hacc
  change r.2.labels = r'.2.labels at hlabels
  rw [hrows.labels a r hr, hrows.labels b r' hr'] at hlabels
  obtain ⟨hs, hid⟩ := hrows.series a ha
  have hsame := hrows.series_eq htell ha hb hacc.1 hlabels
  refine hab ⟨(proj a).2, hs, hid.symm, hacc.1⟩ ?_ rfl
  rw [hid, (hrows.series b hb).2, hsame]

end Rows

end Skaldberg.Prometheus
