import Skaldberg.Prometheus.EvalGrid
import Skaldberg.Prometheus.RangeValue
import Skaldberg.Prometheus.SelectedRows

/-!
# The windows of a range function

An instant query of a range function looks at the samples of `[time - range, time]`, and a matrix
query at those of `(time - range, time]` for each of its evaluation timestamps, within a coarser
window for all of them. Both windows are made of 64-bit numbers and of literals
(`Skaldberg.Prometheus.inInstantWindow`, `inMatrixWindow`); the second one lies within the first
(`GridTime.inInstantWindow_of_inMatrixWindow`), and where the literals denote what they are made of
it lacks the left edge and nothing else (`GridTime.instantReadings_eq_cons`,
`GridTime.instantReadings_eq_matrixReadings`).

What the two queries compute is the value of the range over the readings of their windows
(`windowValue_instantBase`, `windowValue_rangeBase`).
-/

namespace Skaldberg.Prometheus

/-! ### Readings of a series -/

/-- The samples of a series are at distinct timestamps, as the query joins them with it. -/
def DistinctSamples {F : Type} (t : Tables F) : Prop :=
  ((samplesJoinSeries t).map fun r => (r.1.seriesId, r.1.timestamp)).Nodup

instance {F : Type} (t : Tables F) : Decidable (DistinctSamples t) :=
  inferInstanceAs (Decidable (List.Nodup _))

/-- Tables with one row for each series and distinct timestamps. -/
theorem DistinctTimestamps.distinctSamples {F : Type} {t : Tables F} (hts : DistinctTimestamps t)
    (hone : OneRowPerSeries t) : DistinctSamples t := by
  refine List.Nodup.sublist ?_ hts
  have hmap := (samplesJoinSeries_fst_sublist hone).map fun sa => (sa.seriesId, sa.timestamp)
  rwa [List.map_map] at hmap

/-- The samples of a series that the query selects, with an identity. -/
def joinedRows (t : Tables Exact) (sel : VectorSelector) (sid : ℤ) :
    List (SampleRow Exact × Skaldberg.SeriesRow) :=
  (samplesJoinSeries t).filter fun r => sel.pushed r.2 && decide (r.1.seriesId = sid)

/-- The readings of a series that the query selects, in the order of their times. -/
def readings (t : Tables Exact) (sel : VectorSelector) (sid : ℤ) : List (ℤ × ℚ) :=
  ((joinedRows t sel sid).map fun r => (r.1.timestamp, r.1.value.toRat)).insertionSort
    fun a b => a.1 ≤ b.1

variable {t : Tables Exact} {sel : VectorSelector} {sid : ℤ}

theorem readings_sorted (hts : DistinctSamples t) (sel : VectorSelector) (sid : ℤ) :
    ((readings t sel sid).map Prod.fst).Pairwise (· < ·) := by
  have hperm : (readings t sel sid).Perm _ := List.perm_insertionSort _ _
  have hnodup : ((readings t sel sid).map Prod.fst).Nodup := by
    refine (hperm.map Prod.fst).nodup_iff.mpr ?_
    have hrows : ((joinedRows t sel sid).map fun r => (r.1.seriesId, r.1.timestamp)).Nodup :=
      hts.sublist (List.filter_sublist.map _)
    rw [List.map_map]
    refine List.Nodup.of_map (fun ts => (sid, ts)) ?_
    rw [List.map_map]
    refine (List.Perm.of_eq (List.map_congr_left fun r hr => ?_)).nodup_iff.mp hrows
    have hsid := (List.mem_filter.mp hr).2
    rw [Bool.and_eq_true, decide_eq_true_eq] at hsid
    rw [Function.comp_apply, Function.comp_apply, hsid.2]
  have : Std.Total fun a b : ℤ × ℚ => a.1 ≤ b.1 := ⟨fun a b => le_total a.1 b.1⟩
  have : IsTrans (ℤ × ℚ) fun a b => a.1 ≤ b.1 := ⟨fun a b c => le_trans⟩
  have hle : (readings t sel sid).Pairwise fun a b => a.1 ≤ b.1 :=
    List.pairwise_insertionSort _ _
  exact (List.pairwise_map.mpr hle).imp₂ (fun _ _ => lt_of_le_of_ne) hnodup

/-- The row of a window that a joined row becomes. -/
def windowRow {τ : Type} (at_ : τ) (r : SampleRow Exact × Skaldberg.SeriesRow) :
    BaseRow τ Exact := ⟨at_, r.1.seriesId, r.1.timestamp, plusZero r.1.value⟩

theorem plusZero_of_isNum {x : Exact} (h : x.IsNum) : plusZero x = .num x.toRat := by
  obtain ⟨q, rfl⟩ := h
  exact congrArg Exact.num (add_zero q)

/-- **Some of the rows of a series are some of its readings.** -/
theorem readings_filter {τ : Type} (hnum : Numbers t) (hts : DistinctSamples t) (at_ : τ)
    (w : ℤ → Bool) :
    Readings (at_, sid) ((readings t sel sid).filter fun s => w s.1)
      (((joinedRows t sel sid).filter fun r => w r.1.timestamp).map (windowRow at_)) := by
  refine ⟨(readings_sorted hts sel sid).sublist (List.filter_sublist.map _), ?_⟩
  have hperm : (readings t sel sid).Perm _ := List.perm_insertionSort _ _
  have hrows := ((hperm.filter fun s => w s.1).map (sampleRow (at_, sid))).symm
  refine List.Perm.trans (List.Perm.of_eq ?_) hrows
  rw [List.filter_map, List.map_map]
  refine List.map_congr_left fun r hr => ?_
  obtain ⟨hjoin, hsid⟩ := List.mem_filter.mp (List.mem_of_mem_filter hr)
  rw [Bool.and_eq_true, decide_eq_true_eq] at hsid
  rw [windowRow, hsid.2, plusZero_of_isNum (hnum _ (Sql.mem_join.mp hjoin).1)]
  rfl

/-! ### The two windows -/

/-- Whether a timestamp is in the window of an instant query. -/
def inInstantWindow (rangeUs timeUs ts : ℤ) : Bool :=
  decide ((usToTsLit (asI64 (timeUs - rangeUs))).micros ≤ ts ∧ ts ≤ (usToTsLit timeUs).micros)

/-- Whether a timestamp is in the window of an evaluation timestamp of a matrix query, and in that
of all its evaluation timestamps. -/
def inMatrixWindow (rangeUs startUs endUs timeUs ts : ℤ) : Bool :=
  decide (asI64 (timeUs - rangeUs) < ts ∧ ts ≤ timeUs) &&
    decide ((usToTsLit (saturatingSub startUs rangeUs)).micros ≤ ts ∧
      ts ≤ (usToTsLit endUs).micros)

/-- The readings in the window of an instant query. -/
def instantReadings (t : Tables Exact) (sel : VectorSelector) (rangeUs timeUs sid : ℤ) :
    List (ℤ × ℚ) :=
  (readings t sel sid).filter fun s => inInstantWindow rangeUs timeUs s.1

/-- The readings in the window of an evaluation timestamp of a matrix query. -/
def matrixReadings (t : Tables Exact) (sel : VectorSelector)
    (rangeUs startUs endUs timeUs sid : ℤ) : List (ℤ × ℚ) :=
  (readings t sel sid).filter fun s => inMatrixWindow rangeUs startUs endUs timeUs s.1

variable {rangeUs startUs endUs timeUs : ℤ}

/-- A time between the start and the end of a matrix query, and a range. -/
structure GridTime (rangeUs startUs endUs timeUs : ℤ) : Prop where
  /-- The range is a number of the program. -/
  range : IsI64 rangeUs
  /-- It is not empty. -/
  pos : 0 < rangeUs
  /-- The start is a number of the program. -/
  start : IsI64 startUs
  /-- The end is one. -/
  end_ : IsI64 endUs
  /-- The time is not before the start. -/
  start_le : startUs ≤ timeUs
  /-- It is not after the end. -/
  le_end : timeUs ≤ endUs

/-- The ranges of a matrix query begin and end on a calendar date. -/
def DatedRanges (rangeUs startUs endUs : ℤ) : Prop :=
  InRangeMicros (startUs - rangeUs) ∧ InRangeMicros endUs

namespace GridTime

variable (h : GridTime rangeUs startUs endUs timeUs)
include h

theorem isI64 : IsI64 timeUs := ⟨h.start.1.trans h.start_le, h.le_end.trans h.end_.2⟩

/-- A difference of two `i64` is what it should be, or wraps beyond what it is taken from. -/
theorem asI64_sub_cases :
    asI64 (timeUs - rangeUs) = timeUs - rangeUs ∨ timeUs < asI64 (timeUs - rangeUs) := by
  have htime := h.isI64
  have hrange := h.range
  have hpos := h.pos
  simp only [asI64, Int.bmod, IsI64] at *
  omega

/-- **The window of a matrix query lies within that of an instant query.** -/
theorem inInstantWindow_of_inMatrixWindow {ts : ℤ}
    (hin : inMatrixWindow rangeUs startUs endUs timeUs ts = true) :
    inInstantWindow rangeUs timeUs ts = true := by
  obtain ⟨hrange, hpos, hstart, hend, hle, hle'⟩ := id h
  simp only [inMatrixWindow, inInstantWindow, Bool.and_eq_true, decide_eq_true_eq,
    usToTsLit_micros] at hin ⊢
  rcases h.asI64_sub_cases with heq | hwrap
  · rw [heq] at hin ⊢
    simp only [saturatingSub, saturate, InRangeMicros, minSecs, maxSecs, IsI64] at *
    split_ifs at hin ⊢ <;> omega
  · omega

/-- The window of an instant query is less long than the range of an `i64`. -/
theorem sub_lt {ts ts' : ℤ} (hin : inInstantWindow rangeUs timeUs ts = true)
    (hin' : inInstantWindow rangeUs timeUs ts' = true) : ts - ts' < 2 ^ 63 := by
  have htime := h.isI64
  have hrange := h.range
  have hpos := h.pos
  simp only [inInstantWindow, decide_eq_true_eq, usToTsLit_micros] at hin hin'
  norm_num
  rcases h.asI64_sub_cases with heq | hwrap
  · rw [heq] at hin hin'
    simp only [InRangeMicros, minSecs, maxSecs, IsI64] at *
    split_ifs at hin hin' <;> omega
  · simp only [InRangeMicros, minSecs, maxSecs, IsI64] at *
    split_ifs at hin hin' <;> omega

/-! ### The left edge -/

section Dated

variable (hdated : DatedRanges rangeUs startUs endUs)
include hdated

/-- **The window of an instant query is closed.** -/
theorem inInstantWindow_iff (ts : ℤ) :
    inInstantWindow rangeUs timeUs ts = true ↔ timeUs - rangeUs ≤ ts ∧ ts ≤ timeUs := by
  obtain ⟨hrange, hpos, hstart, hend, hle, hle'⟩ := h
  have hlo : InRangeMicros (timeUs - rangeUs) := by
    simp only [DatedRanges, InRangeMicros] at *
    omega
  have hhi : InRangeMicros timeUs := by
    simp only [DatedRanges, InRangeMicros] at *
    omega
  rw [inInstantWindow, decide_eq_true_eq, QueryWindow.usToTsLit_asI64_eq_iff.mpr hlo,
    QueryWindow.usToTsLit_eq_iff.mpr hhi]

/-- **The window of a matrix query is open on the left.** -/
theorem inMatrixWindow_iff (ts : ℤ) :
    inMatrixWindow rangeUs startUs endUs timeUs ts = true ↔
      timeUs - rangeUs < ts ∧ ts ≤ timeUs := by
  obtain ⟨hrange, hpos, hstart, hend, hle, hle'⟩ := h
  have hlo : IsI64 (timeUs - rangeUs) := by
    simp only [DatedRanges, InRangeMicros, minSecs, maxSecs, IsI64] at *
    omega
  have hsat : saturatingSub startUs rangeUs = startUs - rangeUs := by
    simp only [DatedRanges, InRangeMicros, minSecs, maxSecs] at hdated
    rw [saturatingSub, saturate]
    omega
  rw [inMatrixWindow, Bool.and_eq_true, decide_eq_true_eq, decide_eq_true_eq,
    QueryWindow.asI64_of_isI64 hlo, hsat, QueryWindow.usToTsLit_eq_iff.mpr hdated.1,
    QueryWindow.usToTsLit_eq_iff.mpr hdated.2]
  omega

/-- **A reading on the left edge** is in the window of an instant query only. -/
theorem instantReadings_eq_cons (hts : DistinctSamples t) {e : ℤ × ℚ} (he : e ∈ readings t sel sid)
    (hedge : e.1 = timeUs - rangeUs) :
    instantReadings t sel rangeUs timeUs sid =
      e :: matrixReadings t sel rangeUs startUs endUs timeUs sid := by
  have hpos := h.pos
  refine TimeSeries.filter_eq_cons (readings_sorted hts sel sid) he (fun ts => ?_) fun ts hin => ?_
  · rw [h.inInstantWindow_iff hdated, h.inMatrixWindow_iff hdated]
    omega
  · rw [h.inMatrixWindow_iff hdated] at hin
    omega

/-- Without one, the readings of the two windows are the same. -/
theorem instantReadings_eq_matrixReadings
    (hedge : ∀ e ∈ readings t sel sid, e.1 ≠ timeUs - rangeUs) :
    instantReadings t sel rangeUs timeUs sid =
      matrixReadings t sel rangeUs startUs endUs timeUs sid := by
  refine List.filter_congr fun s hs => ?_
  have hne := hedge s hs
  rw [Bool.eq_iff_iff, h.inInstantWindow_iff hdated, h.inMatrixWindow_iff hdated]
  omega

end Dated

end GridTime

/-! ### The base rows of the two queries -/

/-- The rows of a window of an instant query. -/
theorem windowRows_instantBase :
    windowRows (instantBase t sel rangeUs timeUs) ((), sid) =
      ((joinedRows t sel sid).filter fun r => inInstantWindow rangeUs timeUs r.1.timestamp).map
        (windowRow ()) := by
  change ((baseRows t sel _ _).map (windowRow ())).filter _ = _
  rw [List.filter_map, baseRows, Sql.select, joinedRows, List.filter_filter, List.filter_filter]
  refine congrArg _ (List.filter_congr fun r _ => ?_)
  rw [selectorWhere_holds, timestampBetween, Sql.Truth.holds_some, Bool.eq_iff_iff]
  simp only [Function.comp_apply, inInstantWindow, Bool.and_eq_true, decide_eq_true_eq]
  simp only [windowRow, BaseRow.partition, Prod.mk.injEq, true_and]
  tauto

/-- **The base rows of a matrix query**, evaluation timestamp by evaluation timestamp. -/
theorem rangeBase_eq (evals : List ℤ) :
    rangeBase t sel rangeUs evals startUs endUs = evals.flatMap fun et =>
      ((samplesJoinSeries t).filter fun r => sel.pushed r.2 &&
        inMatrixWindow rangeUs startUs endUs et r.1.timestamp).map (windowRow et) := by
  rw [rangeBase, evalSamples, Sql.join, Sql.join, Sql.select, List.flatMap_assoc,
    List.filter_flatMap, List.map_flatMap]
  refine List.flatMap_congr fun et _ => ?_
  -- the rows of one evaluation timestamp
  have hjoin : (t.samples.flatMap fun sa =>
      (t.series.filter fun s => sa.seriesId == s.seriesId).map fun s => ((et, sa), s)) =
        (samplesJoinSeries t).map fun r => ((et, r.1), r.2) := by
    rw [samplesJoinSeries, Sql.join, List.map_flatMap]
    refine List.flatMap_congr fun sa _ => ?_
    rw [List.map_map]
    rfl
  rw [List.flatMap_map, Sql.flatMap_filter (p := fun r : (ℤ × SampleRow Exact) × _ =>
    decide (asI64 (et - rangeUs) < r.1.2.timestamp ∧ r.1.2.timestamp ≤ et)) fun sa _ r hr => by
      obtain ⟨s, -, rfl⟩ := List.mem_map.mp hr
      rfl]
  rw [hjoin, List.filter_filter, List.filter_map, List.map_map]
  refine congrArg _ (List.filter_congr fun r _ => ?_)
  rw [Function.comp_apply, selectorWhere_holds, timestampBetween, Sql.Truth.holds_some,
    inMatrixWindow, Bool.and_assoc, Bool.and_comm (decide (_ < _ ∧ _))]

/-- The rows of a window of a matrix query. -/
theorem windowRows_rangeBase {evals : List ℤ} (hnodup : evals.Nodup) (htime : timeUs ∈ evals) :
    windowRows (rangeBase t sel rangeUs evals startUs endUs) (timeUs, sid) =
      ((joinedRows t sel sid).filter fun r =>
        inMatrixWindow rangeUs startUs endUs timeUs r.1.timestamp).map (windowRow timeUs) := by
  obtain ⟨l₁, l₂, rfl⟩ := List.append_of_mem htime
  have hne : ∀ et ∈ l₁ ++ l₂, et ≠ timeUs := by
    rintro et het rfl
    exact (List.nodup_cons.mp (List.nodup_middle.mp hnodup)).1 het
  have hother : ∀ l : List ℤ, (∀ et ∈ l, et ≠ timeUs) →
      ∀ rows : ℤ → List (SampleRow Exact × Skaldberg.SeriesRow), windowRows
        (l.flatMap fun et => (rows et).map (windowRow et)) (timeUs, sid) = [] := by
    intro l hl rows
    refine List.filter_eq_nil_iff.mpr fun b hb hkey => ?_
    obtain ⟨et, het, hb⟩ := List.mem_flatMap.mp hb
    obtain ⟨r, -, rfl⟩ := List.mem_map.mp hb
    exact hl et het (congrArg Prod.fst (of_decide_eq_true hkey))
  have happ : ∀ l l' : List (BaseRow ℤ Exact), windowRows (l ++ l') (timeUs, sid) =
      windowRows l (timeUs, sid) ++ windowRows l' (timeUs, sid) := fun _ _ => List.filter_append _ _
  rw [rangeBase_eq, List.flatMap_append, List.flatMap_cons, happ, happ,
    hother l₁ fun et het => hne et (List.mem_append_left _ het),
    hother l₂ fun et het => hne et (List.mem_append_right _ het), List.nil_append, List.append_nil,
    windowRows, List.filter_map, joinedRows, List.filter_filter, List.filter_filter]
  refine congrArg _ (List.filter_congr fun r _ => ?_)
  rw [Bool.eq_iff_iff]
  simp only [Function.comp_apply, Bool.and_eq_true, decide_eq_true_eq]
  simp only [windowRow, BaseRow.partition, Prod.mk.injEq, true_and]
  tauto

/-! ### The values of the two queries -/

section Values

variable (h : GridTime rangeUs startUs endUs timeUs) (hnum : Numbers t) (hts : DistinctSamples t)
include h hnum hts

/-- **The instant query computes the value of its window.** -/
theorem windowValue_instantBase (op : RangeFnOp) (E : Sql.Engine) :
    windowValue E op ((), sid) (windowRows (instantBase t sel rangeUs timeUs) ((), sid)) =
      (rangeValue op (instantReadings t sel rangeUs timeUs sid)).map .num := by
  rw [windowRows_instantBase]
  refine (readings_filter hnum hts () _).windowValue_eq_rangeValue (fun s hs s' hs' => ?_) op E
  exact h.sub_lt (List.mem_filter.mp hs).2 (List.mem_filter.mp hs').2

/-- **The matrix query computes the values of its windows.** -/
theorem windowValue_rangeBase {evals : List ℤ} (hnodup : evals.Nodup) (htime : timeUs ∈ evals)
    (op : RangeFnOp) (E : Sql.Engine) :
    windowValue E op (timeUs, sid)
        (windowRows (rangeBase t sel rangeUs evals startUs endUs) (timeUs, sid)) =
      (rangeValue op (matrixReadings t sel rangeUs startUs endUs timeUs sid)).map .num := by
  rw [windowRows_rangeBase hnodup htime]
  refine (readings_filter hnum hts timeUs _).windowValue_eq_rangeValue (fun s hs s' hs' => ?_) op E
  exact h.sub_lt (h.inInstantWindow_of_inMatrixWindow (List.mem_filter.mp hs).2)
    (h.inInstantWindow_of_inMatrixWindow (List.mem_filter.mp hs').2)

end Values

end Skaldberg.Prometheus
