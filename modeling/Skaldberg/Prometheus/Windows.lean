import Skaldberg.Lib.Groups
import Skaldberg.Prometheus.RangeFn

/-!
# Range functions, window by window

The query of a range function runs through its windows all at once, in stages: it numbers the rows
of each, or looks back from each to the one before, and joins or groups what comes out. Every stage
is partitioned by the window, so that the whole query is one function applied to the rows of each
window (`Skaldberg.Prometheus.windowValue`, `perSeriesRangefn_eq`). A window has one value at most
(`nodup_perSeriesRangefn`).
-/

namespace Skaldberg.Prometheus

variable {τ F : Type}

/-! ### One window -/

/-- The rows of a window in the order of their timestamps, each with the one before it. -/
def withPrev (E : Sql.Engine) (rows : List (BaseRow τ F)) :
    List (BaseRow τ F × Option (BaseRow τ F)) :=
  (E.sort tsAsc rows).zip (none :: (E.sort tsAsc rows).map some)

theorem length_withPrev (E : Sql.Engine) (rows : List (BaseRow τ F)) :
    (withPrev E rows).length = rows.length := by
  simp [withPrev, (E.sort_perm tsAsc rows).length_eq]

theorem fst_mem_withPrev {E : Sql.Engine} {rows : List (BaseRow τ F)}
    {r : BaseRow τ F × Option (BaseRow τ F)} (h : r ∈ withPrev E rows) : r.1 ∈ rows :=
  E.mem_sort.mp (List.of_mem_zip (Prod.mk.eta (p := r) ▸ h)).1

/-- The rows of a window in the `ranked` stage of `delta`. -/
def deltaRows (E : Sql.Engine) (rows : List (BaseRow τ F)) : List (DeltaRow τ F) :=
  ((E.sort (fun a b => tsDesc a.1 b.1) ((E.sort tsAsc rows).zipIdx 1)).zipIdx 1).map fun r =>
    ⟨r.1.1, r.1.2, r.2, rows.length⟩

theorem row_mem_deltaRows {E : Sql.Engine} {rows : List (BaseRow τ F)} {d : DeltaRow τ F}
    (h : d ∈ deltaRows E rows) : d.row ∈ rows ∧ d.totalN = rows.length := by
  obtain ⟨r, hr, rfl⟩ := List.mem_map.mp h
  have hmem := E.mem_sort.mp (List.fst_mem_of_mem_zipIdx hr)
  exact ⟨E.mem_sort.mp (List.fst_mem_of_mem_zipIdx hmem), rfl⟩

/-- **The endpoint of a window** is its first row. -/
theorem map_row_endpoints (E : Sql.Engine) (rows : List (BaseRow τ F)) :
    ((deltaRows E rows).filter fun d => decide (d.rnAsc = 1)).map DeltaRow.row =
      (E.sort tsAsc rows).head?.toList := by
  have hperm : ((deltaRows E rows).map fun d => (d.row, d.rnAsc)).Perm
      ((E.sort tsAsc rows).zipIdx 1) := by
    rw [deltaRows, List.map_map]
    change (List.map Prod.fst _).Perm _
    rw [List.zipIdx_map_fst]
    exact E.sort_perm _ _
  have hfirst := (hperm.filterMap fun r => if r.2 = 1 then some r.1 else none).trans
    (List.Perm.of_eq (Sql.filterMap_zipIdx_one some (E.sort tsAsc rows)))
  have heq : ((deltaRows E rows).map fun d => (d.row, d.rnAsc)).filterMap
      (fun r => if r.2 = 1 then some r.1 else none) =
        ((deltaRows E rows).filter fun d => decide (d.rnAsc = 1)).map DeltaRow.row := by
    rw [List.filterMap_map, ← List.filterMap_eq_map, List.filterMap_filter]
    refine List.filterMap_congr fun d _ => ?_
    simp [Function.comp_apply]
  rw [heq, Option.bind_fun_some] at hfirst
  cases hhead : (E.sort tsAsc rows).head? with
  | none =>
    rw [hhead] at hfirst
    exact hfirst.eq_nil
  | some e =>
    rw [hhead] at hfirst
    exact List.perm_singleton.mp hfirst

/-- **The last row of a window** is the first one from its end. -/
theorem map_row_lastV (E : Sql.Engine) (rows : List (BaseRow τ F)) :
    ((deltaRows E rows).filter fun d => decide (d.rnDesc = 1)).map DeltaRow.row =
      ((E.sort (fun a b => tsDesc a.1 b.1) ((E.sort tsAsc rows).zipIdx 1)).head?.map
        Prod.fst).toList := by
  have hone := Sql.filterMap_zipIdx_one (fun r : BaseRow τ F × ℕ => some r.1)
    (E.sort (fun a b => tsDesc a.1 b.1) ((E.sort tsAsc rows).zipIdx 1))
  rw [deltaRows, List.filter_map, List.map_map, ← List.filterMap_eq_map, List.filterMap_filter]
  refine Eq.trans (List.filterMap_congr fun r _ => ?_) (hone.trans ?_)
  · simp [Function.comp_apply]
  · rw [Option.map_eq_bind]
    rfl

variable [F64 F]

/-- The `agg` row of a window. -/
def windowAgg (k : τ × ℤ) (rows : List (BaseRow τ F × Option (BaseRow τ F))) : WindowAgg τ F :=
  let ts := rows.map fun r => r.1.tsUs
  { at_ := k.1
    seriesId := k.2
    totalDelta := F64.sum (rows.map rowDelta)
    lastTsUs := ts.max?.getD 0
    firstTsUs := ts.min?.getD 0
    n := rows.length }

/-- The value of `rate` or `increase` in a window. -/
def aggsValue (value : WindowAgg τ F → F) (w : WindowAgg τ F) : Option F :=
  if 2 ≤ w.n ∧ w.firstTsUs < w.lastTsUs then some (value w) else none

/-- The value of `irate` in a window: of the last row and the one before it. -/
def irateValue (n : ℕ) (r : BaseRow τ F × Option (BaseRow τ F)) : Option F :=
  r.2.bind fun prev =>
    if 2 ≤ n ∧ prev.tsUs < r.1.tsUs then
      some (perSecond (resetAdjusted prev.value r.1.value) (r.1.tsUs - prev.tsUs))
    else none

/-- The value of a range function in the window of a key. -/
def windowValue (E : Sql.Engine) (op : RangeFnOp) (k : τ × ℤ) (rows : List (BaseRow τ F)) :
    Option F :=
  match op with
  | .rate => aggsValue (fun w => perSecond w.totalDelta (w.lastTsUs - w.firstTsUs))
      (windowAgg k (withPrev E rows))
  | .increase => aggsValue WindowAgg.totalDelta (windowAgg k (withPrev E rows))
  | .irate =>
    (E.sort (fun a b => tsDesc a.1 b.1) (withPrev E rows)).head?.bind (irateValue rows.length)
  | .delta =>
    let numbered := (E.sort tsAsc rows).zipIdx 1
    if 2 ≤ rows.length then
      (E.sort (fun a b => tsDesc a.1 b.1) numbered).head?.bind fun l =>
        (E.sort tsAsc rows).head?.map fun e => F64.sub l.1.value e.value
    else none

/-! ### All windows -/

section Stages

variable [DecidableEq τ] (E : Sql.Engine) (base : List (BaseRow τ F))

omit [F64 F]

theorem lag_withPrev :
    E.lag BaseRow.partition tsAsc base =
      (Sql.groupBy BaseRow.partition base).flatMap fun g => withPrev E g.2 :=
  E.lag_eq BaseRow.partition tsAsc base

/-- The rows of a window with their predecessors are a window. -/
theorem groupBy_withPrev :
    Sql.groupBy (fun r => r.1.partition) (E.lag BaseRow.partition tsAsc base) =
      (Sql.groupBy BaseRow.partition base).map fun g => (g.1, withPrev E g.2) := by
  rw [lag_withPrev]
  refine Sql.groupBy_flatMap_groupBy (fun g hg h => ?_) fun g hg r hr => ?_
  · have hlen := length_withPrev E g.2
    rw [h] at hlen
    exact Sql.ne_nil_of_mem_groupBy hg (List.eq_nil_of_length_eq_zero hlen.symm)
  · exact (Sql.mem_of_mem_groupBy hg (fst_mem_withPrev hr)).2

theorem deltaRanked_eq :
    deltaRanked E base =
      (Sql.groupBy BaseRow.partition base).flatMap fun g => deltaRows E g.2 := by
  have hover := Sql.overPartition_rowNumber E (fun r : BaseRow τ F × ℕ => r.1.partition)
    (fun a b => tsDesc a.1 b.1) (E.rowNumber BaseRow.partition tsAsc base)
  rw [Sql.groupBy_rowNumber, List.flatMap_map] at hover
  rw [deltaRanked, hover, List.map_flatMap]
  refine List.flatMap_congr fun g _ => ?_
  rw [List.map_map]
  refine List.map_congr_left fun r _ => ?_
  rw [Function.comp_apply, List.length_zipIdx, (E.sort_perm _ _).length_eq, List.length_zipIdx,
    (E.sort_perm _ _).length_eq]

variable [F64 F]

theorem windowAggs_eq :
    windowAggs E base =
      (Sql.groupBy BaseRow.partition base).map fun g => windowAgg g.1 (withPrev E g.2) := by
  rw [windowAggs, groupBy_withPrev, List.map_map]
  rfl

/-- **The `agg` rows are those of the windows.** -/
theorem mem_windowAggs {w : WindowAgg τ F} :
    w ∈ windowAggs E base ↔ (∃ b ∈ base, b.partition = (w.at_, w.seriesId)) ∧
      w = windowAgg (w.at_, w.seriesId)
        (withPrev E (base.filter fun b => decide (b.partition = (w.at_, w.seriesId)))) := by
  rw [windowAggs_eq, List.mem_map]
  constructor
  · rintro ⟨g, hg, rfl⟩
    obtain ⟨hex, hrows⟩ := Sql.mem_groupBy.mp hg
    exact ⟨hex, congrArg (fun rows => windowAgg g.1 (withPrev E rows)) hrows⟩
  · rintro ⟨hex, hw⟩
    exact ⟨((w.at_, w.seriesId), _), Sql.mem_groupBy.mpr ⟨hex, rfl⟩, hw.symm⟩

theorem perSeriesOfAggs_eq (value : WindowAgg τ F → F) :
    perSeriesOfAggs value E base = (Sql.groupBy BaseRow.partition base).filterMap fun g =>
      (aggsValue value (windowAgg g.1 (withPrev E g.2))).map fun v => ⟨g.1.1, g.1.2, v⟩ := by
  rw [perSeriesOfAggs, windowAggs_eq, List.filter_map, List.map_map, ← List.filterMap_eq_map,
    List.filterMap_filter]
  refine List.filterMap_congr fun g _ => ?_
  rw [aggsValue, Function.comp_apply]
  split_ifs with hd h h
  · rfl
  · exact absurd (of_decide_eq_true hd) h
  · exact absurd (decide_eq_true h) hd
  · rfl

theorem perSeriesIrate_eq :
    perSeriesIrate E base = (Sql.groupBy BaseRow.partition base).filterMap fun g =>
      (windowValue E .irate g.1 g.2).map fun v => ⟨g.1.1, g.1.2, v⟩ := by
  let rank (a b : BaseRow τ F × Option (BaseRow τ F)) : Bool := tsDesc a.1 b.1
  have hranked : irateRanked E base = (Sql.groupBy BaseRow.partition base).flatMap fun g =>
      ((E.sort rank (withPrev E g.2)).zipIdx 1).map fun r =>
        ⟨r.1.1, r.1.2, r.2, g.2.length⟩ := by
    have hover := Sql.overPartition_rowNumber E (fun r : BaseRow τ F × Option (BaseRow τ F) =>
      r.1.partition) rank (E.lag BaseRow.partition tsAsc base)
    rw [groupBy_withPrev, List.flatMap_map] at hover
    rw [irateRanked, hover, List.map_flatMap]
    refine List.flatMap_congr fun g _ => ?_
    rw [List.map_map]
    refine List.map_congr_left fun r _ => ?_
    rw [Function.comp_apply, List.length_zipIdx, (E.sort_perm rank _).length_eq, length_withPrev]
  rw [perSeriesIrate, hranked, List.filterMap_flatMap, List.filterMap_eq_flatMap_toList]
  refine List.flatMap_congr fun g hg => ?_
  have hone := Sql.filterMap_zipIdx_one (fun r => (irateValue g.2.length r).map fun v =>
    (⟨r.1.at_, r.1.seriesId, v⟩ : Point τ F)) (E.sort rank (withPrev E g.2))
  rw [List.filterMap_map]
  refine Eq.trans (List.filterMap_congr fun r _ => ?_) (hone.trans ?_)
  · rw [Function.comp_apply, irateValue]
    by_cases hr : r.2 = 1
    · cases r.1.2 with
      | none => simp
      | some prev =>
        simp only [hr, true_and, Option.bind_some, if_true]
        split_ifs <;> rfl
    · simp [hr]
  · -- the first row tells the key of the window
    rw [windowValue]
    cases hhead : (E.sort rank (withPrev E g.2)).head? with
    | none => rfl
    | some r =>
      have hmem : r ∈ withPrev E g.2 := E.mem_sort.mp (List.mem_of_mem_head? hhead)
      have hkey := (Sql.mem_of_mem_groupBy hg (fst_mem_withPrev hmem)).2
      change ((irateValue g.2.length r).map _).toList = ((irateValue g.2.length r).map _).toList
      rw [← hkey]
      rfl

theorem perSeriesDelta_eq :
    perSeriesDelta E base = (Sql.groupBy BaseRow.partition base).filterMap fun g =>
      (windowValue E .delta g.1 g.2).map fun v => ⟨g.1.1, g.1.2, v⟩ := by
  have hkey : ∀ g ∈ Sql.groupBy BaseRow.partition base, ∀ c : DeltaRow τ F → Bool,
      ∀ d ∈ (deltaRows E g.2).filter c, d.row.partition = g.1 := fun g hg c d hd =>
    (Sql.mem_of_mem_groupBy hg (row_mem_deltaRows (List.mem_of_mem_filter hd)).1).2
  rw [perSeriesDelta, deltaRanked_eq, List.filter_flatMap, List.filter_flatMap,
    Sql.join_flatMap_groupBy (fun g hg => hkey g hg _) (fun g hg => hkey g hg _),
    List.filter_flatMap, List.map_flatMap, List.filterMap_eq_flatMap_toList]
  refine List.flatMap_congr fun g hg => ?_
  -- one endpoint and one last row
  have hfirst := map_row_endpoints E g.2
  have hlast := map_row_lastV E g.2
  have hmem : ∀ c : DeltaRow τ F → Bool, ∀ d ∈ (deltaRows E g.2).filter c,
      d.row.partition = g.1 ∧ d.totalN = g.2.length := fun c d hd =>
    ⟨hkey g hg c d hd, (row_mem_deltaRows (List.mem_of_mem_filter hd)).2⟩
  rw [windowValue]
  revert hfirst hlast
  have hends := hmem fun d => decide (d.rnAsc = 1)
  have hlasts := hmem fun d => decide (d.rnDesc = 1)
  revert hends hlasts
  generalize (deltaRows E g.2).filter (fun d => decide (d.rnAsc = 1)) = ends
  generalize (deltaRows E g.2).filter (fun d => decide (d.rnDesc = 1)) = lasts
  generalize (E.sort tsAsc g.2).head? = e
  generalize (E.sort (fun a b => tsDesc a.1 b.1) ((E.sort tsAsc g.2).zipIdx 1)).head? = l
  intro hends hlasts hfirst hlast
  cases e with
  | none =>
    rw [List.map_eq_nil_iff.mp hfirst]
    cases l <;> simp
  | some e =>
    obtain ⟨d, rfl, hd⟩ := List.map_eq_singleton_iff.mp hfirst
    cases l with
    | none =>
      rw [List.map_eq_nil_iff.mp hlast]
      simp
    | some l =>
      obtain ⟨d', rfl, hd'⟩ := List.map_eq_singleton_iff.mp hlast
      obtain ⟨hpart, hn⟩ := hends d (List.mem_singleton_self d)
      have hd' : d'.row = l.1 := hd'
      rw [List.flatMap_singleton, List.map_singleton, Option.bind_some, ← hpart, ← hd, ← hd', ← hn]
      by_cases hlen : 2 ≤ d.totalN
      · rw [List.filter_cons_of_pos (by exact decide_eq_true hlen), if_pos hlen]
        rfl
      · rw [List.filter_cons_of_neg (by simpa using hlen), if_neg hlen]
        rfl

/-- **A range function is computed window by window.** -/
theorem perSeriesRangefn_eq (op : RangeFnOp) :
    perSeriesRangefn E op base = (Sql.groupBy BaseRow.partition base).filterMap fun g =>
      (windowValue E op g.1 g.2).map fun v => ⟨g.1.1, g.1.2, v⟩ := by
  cases op with
  | rate => exact perSeriesOfAggs_eq E base _
  | irate => exact perSeriesIrate_eq E base
  | increase => exact perSeriesOfAggs_eq E base _
  | delta => exact perSeriesDelta_eq E base

theorem mem_perSeriesRangefn {op : RangeFnOp} {x : Point τ F} :
    x ∈ perSeriesRangefn E op base ↔
      (∃ b ∈ base, b.partition = (x.at_, x.seriesId)) ∧
        windowValue E op (x.at_, x.seriesId)
          (base.filter fun b => decide (b.partition = (x.at_, x.seriesId))) = some x.value := by
  rw [perSeriesRangefn_eq, List.mem_filterMap]
  constructor
  · rintro ⟨g, hg, hx⟩
    obtain ⟨v, hv, rfl⟩ := Option.map_eq_some_iff.mp hx
    obtain ⟨hex, hrows⟩ := Sql.mem_groupBy.mp hg
    exact ⟨hex, hrows ▸ hv⟩
  · rintro ⟨hex, hv⟩
    exact ⟨((x.at_, x.seriesId), _), Sql.mem_groupBy.mpr ⟨hex, rfl⟩,
      Option.map_eq_some_iff.mpr ⟨x.value, hv, rfl⟩⟩

/-- **A window has one value**, at most. -/
theorem nodup_perSeriesRangefn (op : RangeFnOp) :
    ((perSeriesRangefn E op base).map fun x => (x.at_, x.seriesId)).Nodup := by
  rw [perSeriesRangefn_eq, List.map_filterMap]
  refine (Sql.nodup_groupBy_keys BaseRow.partition base).sublist ?_
  have hsub : ∀ l : List ((τ × ℤ) × List (BaseRow τ F)),
      (l.filterMap fun g => ((windowValue E op g.1 g.2).map fun v =>
        (⟨g.1.1, g.1.2, v⟩ : Point τ F)).map fun x => (x.at_, x.seriesId)).Sublist
          (l.map Prod.fst) := by
    intro l
    induction l with
    | nil => exact List.Sublist.slnil
    | cons g l ih =>
      rw [List.filterMap_cons, List.map_cons]
      cases windowValue E op g.1 g.2 with
      | none => exact ih.cons _
      | some v => exact ih.cons_cons _
  exact hsub _

end Stages

/-- A series has one value of a range function at a timestamp. -/
theorem nodup_seriesId_perSeriesRangefnCtes (E : Sql.Engine) (t : Tables F)
    (sel : VectorSelector) (op : RangeFnOp) (rangeUs timeUs : ℤ) :
    ((perSeriesRangefnCtes E t sel op rangeUs timeUs).map Point.seriesId).Nodup := by
  have hone := nodup_perSeriesRangefn E (instantBase t sel rangeUs timeUs) op
  refine List.Nodup.of_map (fun sid => ((), sid)) ?_
  rw [List.map_map]
  exact hone

end Skaldberg.Prometheus
