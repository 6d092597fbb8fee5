import Skaldberg.Lib.Groups
import Skaldberg.Prometheus.Exact
import Skaldberg.Prometheus.RangeFn

/-!
# Range functions of numbers

`rate`, `irate`, `increase` and `delta` of numbers are numbers: they add and subtract them, and
where they divide it is by an extent of time that is not zero. The extent is computed on 64-bit
microseconds, but the timestamps of a window have calendar dates, and between two of these there is
less than the range of an `i64` (`Skaldberg.Prometheus.sub_lt_of_inRange`).
-/

namespace Skaldberg.Prometheus

open Exact (IsNum)

/-- The values of a table are numbers. -/
def Numbers (t : Tables Exact) : Prop := ∀ sa ∈ t.samples, sa.value.IsNum

instance (t : Tables Exact) : Decidable (Numbers t) :=
  inferInstanceAs (Decidable (∀ sa ∈ t.samples, sa.value.IsNum))

variable {τ : Type}

theorem IsNum.add {x y : Exact} (hx : x.IsNum) (hy : y.IsNum) : (F64.add x y).IsNum := by
  obtain ⟨p, rfl⟩ := hx
  obtain ⟨q, rfl⟩ := hy
  exact ⟨_, Exact.add_num p q⟩

theorem IsNum.sub {x y : Exact} (hx : x.IsNum) (hy : y.IsNum) : (F64.sub x y).IsNum := by
  obtain ⟨p, rfl⟩ := hx
  obtain ⟨q, rfl⟩ := hy
  exact ⟨_, Exact.sub_num p q⟩

theorem isNum_plusZero {x : Exact} (hx : x.IsNum) : (plusZero x).IsNum := IsNum.add hx ⟨0, rfl⟩

theorem isNum_resetAdjusted {x y : Exact} (hx : x.IsNum) (hy : y.IsNum) :
    (resetAdjusted x y).IsNum := by
  rw [resetAdjusted]
  split_ifs
  · exact IsNum.sub hy hx
  · exact hy

/-- A difference of microseconds that an `i64` cannot take for zero. -/
def Extent (us : ℤ) : Prop := 0 < us ∧ us < 2 ^ 64

theorem asI64_ne_zero {us : ℤ} (h : Extent us) : asI64 us ≠ 0 := by
  obtain ⟨hpos, hlt⟩ := h
  intro hzero
  rw [asI64, Int.bmod_def] at hzero
  norm_num at hzero hlt
  omega

theorem isNum_perSecond {x : Exact} (hx : x.IsNum) {us : ℤ} (h : Extent us) :
    (perSecond x us).IsNum := by
  obtain ⟨p, rfl⟩ := hx
  have hne : ((asI64 us : ℤ) : ℚ) ≠ 0 := by exact_mod_cast asI64_ne_zero h
  exact ⟨_, Exact.div_num _ hne⟩

/-- **The timestamps of a window** are less than the range of an `i64` apart. -/
theorem sub_lt_of_inRange {lo hi a b : ℤ} (ha : a ≤ (usToTsLit hi).micros)
    (hb : (usToTsLit lo).micros ≤ b) : a - b < 2 ^ 64 := by
  have hbounds : ∀ us, minSecs * 1000000 ≤ (usToTsLit us).micros ∧
      (usToTsLit us).micros < (maxSecs + 1) * 1000000 := by
    intro us
    rw [usToTsLit_micros]
    split_ifs with h
    · exact h
    · decide
  have hhi := (hbounds hi).2
  have hlo := (hbounds lo).1
  simp only [minSecs, maxSecs] at hhi hlo
  norm_num
  omega

section Stages

variable [DecidableEq τ] {E : Sql.Engine} {base : List (BaseRow τ Exact)}

/-- **A range function of numbers is a number.** -/
theorem isNum_perSeriesRangefn {op : RangeFnOp} (hnum : ∀ b ∈ base, b.value.IsNum)
    (hts : ∀ b ∈ base, ∀ b' ∈ base, b.tsUs - b'.tsUs < 2 ^ 64) {x : Point τ Exact}
    (hx : x ∈ perSeriesRangefn E op base) : x.value.IsNum := by
  have hdelta : ∀ r ∈ E.lag BaseRow.partition tsAsc base, (rowDelta r).IsNum := by
    rintro ⟨r, prev⟩ hr
    cases prev with
    | none => exact ⟨0, rfl⟩
    | some p =>
      exact isNum_resetAdjusted (hnum p (E.prev_mem_lag hr rfl).1) (hnum r (E.mem_lag hr))
  have hagg : ∀ w ∈ windowAggs E base, w.totalDelta.IsNum ∧
      (w.firstTsUs < w.lastTsUs → Extent (w.lastTsUs - w.firstTsUs)) := by
    intro w hw
    obtain ⟨g, hg, rfl⟩ := List.mem_map.mp hw
    have hmem : ∀ r ∈ g.2, r ∈ E.lag BaseRow.partition tsAsc base :=
      fun r hr => (Sql.mem_of_mem_groupBy hg hr).1
    refine ⟨?_, fun hlt => ⟨by omega, ?_⟩⟩
    · refine Exact.isNum_sum fun v hv => ?_
      obtain ⟨r, hr, rfl⟩ := List.mem_map.mp hv
      exact hdelta r (hmem r hr)
    · -- the first and the last timestamp are those of rows
      have hne : (g.2.map fun r => r.1.tsUs) ≠ [] := by simpa using Sql.ne_nil_of_mem_groupBy hg
      obtain ⟨last, hlast⟩ := Option.isSome_iff_exists.mp (List.isSome_max?_of_ne_nil hne)
      obtain ⟨first, hfirst⟩ := Option.isSome_iff_exists.mp (List.isSome_min?_of_ne_nil hne)
      obtain ⟨r, hr, hrl⟩ := List.mem_map.mp (List.max?_mem hlast)
      obtain ⟨r', hr', hrf⟩ := List.mem_map.mp (List.min?_mem hfirst)
      have := hts r.1 (E.mem_lag (hmem r hr)) r'.1 (E.mem_lag (hmem r' hr'))
      change (g.2.map fun r => r.1.tsUs).max?.getD 0 - (g.2.map fun r => r.1.tsUs).min?.getD 0 < _
      rw [hlast, hfirst, Option.getD_some, Option.getD_some, ← hrl, ← hrf]
      exact this
  cases op with
  | rate =>
    obtain ⟨w, hw, rfl⟩ := List.mem_map.mp hx
    obtain ⟨hw, hcond⟩ := List.mem_filter.mp hw
    obtain ⟨hnum, hextent⟩ := hagg w hw
    exact isNum_perSecond hnum (hextent (of_decide_eq_true hcond).2)
  | increase =>
    obtain ⟨w, hw, rfl⟩ := List.mem_map.mp hx
    exact (hagg w (List.mem_of_mem_filter hw)).1
  | irate =>
    obtain ⟨r, hr, hp⟩ := List.mem_filterMap.mp hx
    obtain ⟨y, hy, rfl⟩ := List.mem_map.mp hr
    have hlag := E.mem_rowNumber (Sql.mem_overPartition hy)
    obtain ⟨prev, hprev, hp⟩ := Option.bind_eq_some_iff.mp hp
    have hpm := (E.prev_mem_lag hlag hprev).1
    have hrm := E.mem_lag hlag
    split_ifs at hp with hcond
    cases hp
    refine isNum_perSecond (isNum_resetAdjusted (hnum _ hpm) (hnum _ hrm)) ⟨?_, hts _ hrm _ hpm⟩
    exact sub_pos.mpr hcond.2.2
  | delta =>
    obtain ⟨r, hr, rfl⟩ := List.mem_map.mp hx
    obtain ⟨hfst, hsnd, -⟩ := Sql.mem_join.mp (List.mem_of_mem_filter hr)
    have hranked : ∀ d ∈ deltaRanked E base, d.row ∈ base := by
      intro d hd
      obtain ⟨y, hy, rfl⟩ := List.mem_map.mp hd
      exact E.mem_rowNumber (E.mem_rowNumber (Sql.mem_overPartition hy))
    exact IsNum.sub (hnum _ (hranked _ (List.mem_of_mem_filter hsnd)))
      (hnum _ (hranked _ (List.mem_of_mem_filter hfst)))

end Stages

variable {t : Tables Exact} {sel : VectorSelector} {E : Sql.Engine} {op : RangeFnOp}

theorem isNum_instantPoint (hnum : Numbers t) {rangeUs timeUs : ℤ} {x : Point Unit Exact}
    (hx : x ∈ perSeriesRangefnCtes E t sel op rangeUs timeUs) : x.value.IsNum := by
  refine isNum_perSeriesRangefn ?_ ?_ hx
  · intro b hb
    obtain ⟨r, hr, rfl⟩ := List.mem_map.mp hb
    exact isNum_plusZero (hnum _ (mem_baseRows.mp hr).1.1)
  · intro b hb b' hb'
    obtain ⟨r, hr, rfl⟩ := List.mem_map.mp hb
    obtain ⟨r', hr', rfl⟩ := List.mem_map.mp hb'
    have hr := (mem_baseRows.mp hr).2.2
    have hr' := (mem_baseRows.mp hr').2.2
    simp only [timestampBetween, Sql.Truth.holds_some, decide_eq_true_eq] at hr hr'
    exact sub_lt_of_inRange hr.2 hr'.1

end Skaldberg.Prometheus
