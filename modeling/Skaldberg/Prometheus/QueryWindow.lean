import Skaldberg.Prometheus.RangeFn

/-!
# The window of a query

A query asks for the samples between two instants: the time of an instant query and some duration
before it, or the start and the end of a matrix query. The query engine is given the two as
literals, which are made of numbers of microseconds: a difference of two of them is taken in 64
bits, on one path wrapping and on the other saturating, a duration is cast to 64 bits before, and a
number that has no calendar date is written as the epoch.

`window_exact_iff` says which windows mean what was asked: those that begin and end on a calendar
date (`QueryWindow.Dated`). Within these a wider window selects whatever a narrower one does.
-/

namespace Skaldberg.Prometheus

variable {F : Type}

/-! ### Times -/

/-- A number that an `i64` represents. -/
def IsI64 (n : ℤ) : Prop := -9223372036854775808 ≤ n ∧ n ≤ 9223372036854775807

instance (n : ℤ) : Decidable (IsI64 n) := inferInstanceAs (Decidable (_ ∧ _))

/-- The numbers that an `i64` represents. -/
abbrev I64 := {n : ℤ // IsI64 n}

theorem isI64_saturate (n : ℤ) : IsI64 (saturate n) := by
  unfold IsI64 saturate
  omega

section Times

variable [F64 F] (castI64 : F → I64)
  (parseFromRfc3339 : String → Option {dt : DateTime // IsI64 dt.micros})

/-- `parse_timestamp`: seconds, as a number, or a date and a time. The cast is the saturating `as
i64` of a double. -/
def parseTimestamp (s : String) : Except PromError I64 :=
  match F64.parse s with
  | some secs => .ok (castI64 (F64.mul secs (F64.ofInt 1000000)))
  | none =>
    match parseFromRfc3339 s with
    | some dt => .ok ⟨dt.1.micros, dt.2⟩
    | none => .error (.badData ("invalid timestamp: " ++ s))

end Times

/-! ### Windows -/

/-- The window of a query. -/
inductive QueryWindow
  /-- The latest samples of an instant query. -/
  | lookback (timeUs : I64)
  /-- A function of a range, given in microseconds, of an instant query. -/
  | range (timeUs : I64) (range : ℕ)
  /-- The samples of a matrix query. -/
  | span (startUs endUs : I64)
  /-- All the ranges of a matrix query, which it looks at if it has an evaluation timestamp. -/
  | ranges (startUs endUs : I64) (range : ℕ) (h : startUs.1 ≤ endUs.1)

namespace QueryWindow

/-- The instants a window lies between. -/
def asked : QueryWindow → ℤ × ℤ
  | lookback timeUs => (timeUs - lookbackUs, timeUs)
  | range timeUs r => (timeUs - r, timeUs)
  | span startUs endUs => (startUs, endUs)
  | ranges startUs endUs r _ => (startUs - r, endUs)

/-- The numbers of microseconds that the literals are made of. -/
def bounds : QueryWindow → ℤ × ℤ
  | lookback timeUs => (asI64 (timeUs - lookbackUs), timeUs)
  | range timeUs r => (asI64 (timeUs - asI64 r), timeUs)
  | span startUs endUs => (startUs, endUs)
  | ranges startUs endUs r _ => (saturatingSub startUs (asI64 r), endUs)

/-- Whether the literals of a window select a timestamp. -/
def Selects (w : QueryWindow) (ts : ℤ) : Prop :=
  (usToTsLit w.bounds.1).micros ≤ ts ∧ ts ≤ (usToTsLit w.bounds.2).micros

/-- Whether a timestamp is asked for. -/
def Asks (w : QueryWindow) (ts : ℤ) : Prop := w.asked.1 ≤ ts ∧ ts ≤ w.asked.2

/-- A window that begins and ends on a calendar date. A window that ends before it begins has its
literals in that order too; and the range of a matrix query is one that an `i64` represents. -/
def Dated : QueryWindow → Prop
  | lookback timeUs => InRangeMicros (timeUs - lookbackUs) ∧ InRangeMicros timeUs
  | range timeUs r => InRangeMicros (timeUs - r) ∧ InRangeMicros timeUs
  | span startUs endUs =>
    (startUs.1 ≤ endUs.1 → InRangeMicros startUs ∧ InRangeMicros endUs) ∧
      (endUs.1 < startUs.1 → (usToTsLit endUs).micros < (usToTsLit startUs).micros)
  | ranges startUs endUs r _ =>
    (InRangeMicros (startUs - r) ∧ IsI64 r) ∧ InRangeMicros endUs

instance (w : QueryWindow) (ts : ℤ) : Decidable (w.Selects ts) :=
  inferInstanceAs (Decidable (_ ∧ _))

instance (w : QueryWindow) (ts : ℤ) : Decidable (w.Asks ts) :=
  inferInstanceAs (Decidable (_ ∧ _))

/-! ### The windows of the evaluators -/

theorem timestampBetween_holds {w : QueryWindow} {sa : SampleRow F} :
    (timestampBetween w.bounds.1 w.bounds.2 sa).holds = true ↔ w.Selects sa.timestamp := by
  rw [timestampBetween, Sql.Truth.holds_some, decide_eq_true_eq, Selects]

/-- The rows of a window are samples that its literals select. -/
theorem mem_baseRows_bounds {t : Tables F} {sel : VectorSelector} {w : QueryWindow}
    {r : SampleRow F × Skaldberg.SeriesRow} :
    r ∈ baseRows t sel w.bounds.1 w.bounds.2 ↔
      (r.1 ∈ t.samples ∧ r.2 ∈ t.series ∧ r.1.seriesId = r.2.seriesId) ∧
        sel.pushed r.2 = true ∧ w.Selects r.1.timestamp := by
  rw [mem_baseRows, timestampBetween_holds]

theorem instantSelector_bounds (E : Sql.Engine) (t : Tables F) (sel : VectorSelector)
    (timeUs : I64) :
    instantSelector E t sel timeUs =
      ((runSelectorQuery E t sel (lookback timeUs).bounds.1 (lookback timeUs).bounds.2).foldl
        keepLatest .empty).values.map fun r => ⟨r.metricName, r.labels, r.tsUs, r.value⟩ := rfl

theorem rangeSelector_bounds (E : Sql.Engine) (t : Tables F) (sel : VectorSelector)
    (startUs endUs : I64) :
    rangeSelector E t sel startUs endUs =
      (groupRowsBySeries (runSelectorQuery E t sel (span startUs endUs).bounds.1
        (span startUs endUs).bounds.2)).values := rfl

theorem instantBase_bounds [F64 F] (t : Tables F) (sel : VectorSelector) (timeUs : I64)
    (r : ℕ) :
    instantBase t sel (asI64 r) timeUs =
      (baseRows t sel (range timeUs r).bounds.1 (range timeUs r).bounds.2).map fun r =>
        ⟨(), r.1.seriesId, r.1.timestamp, plusZero r.1.value⟩ := rfl

/-! ### Literals -/

theorem inRangeMicros_usToTsLit (us : ℤ) : InRangeMicros (usToTsLit us).micros := by
  rw [usToTsLit_micros]
  split_ifs with h
  · exact h
  · decide

theorem isI64_of_inRangeMicros {us : ℤ} (h : InRangeMicros us) : IsI64 us := by
  simp only [InRangeMicros, minSecs, maxSecs, IsI64] at h ⊢
  omega

theorem asI64_of_isI64 {n : ℤ} (h : IsI64 n) : asI64 n = n := by
  unfold IsI64 at h
  exact Int.bmod_eq_of_le (by omega) (by omega)

/-- **A literal denotes the number it is made of** exactly when that one has a date. -/
theorem usToTsLit_eq_iff {us : ℤ} : (usToTsLit us).micros = us ↔ InRangeMicros us := by
  constructor
  · intro h
    exact h ▸ inRangeMicros_usToTsLit us
  · intro h
    rw [usToTsLit_micros, if_pos h]

/-- **A difference that wraps** is denoted exactly when it has a date. -/
theorem usToTsLit_asI64_eq_iff {us : ℤ} :
    (usToTsLit (asI64 us)).micros = us ↔ InRangeMicros us := by
  constructor
  · intro h
    exact h ▸ inRangeMicros_usToTsLit (asI64 us)
  · intro h
    rw [asI64_of_isI64 (isI64_of_inRangeMicros h), usToTsLit_eq_iff]
    exact h

/-- A duration that is cast first makes no difference where the difference wraps. -/
theorem asI64_sub_asI64 (us r : ℤ) : asI64 (us - asI64 r) = asI64 (us - r) := by
  rw [asI64, asI64, asI64, Int.sub_bmod_bmod]

/-- **A difference that saturates**, with a duration that is cast first, is denoted exactly when it
has a date and the duration is none that the cast changes. -/
theorem usToTsLit_saturatingSub_eq_iff {us : ℤ} (hus : IsI64 us) (r : ℕ) :
    (usToTsLit (saturatingSub us (asI64 r))).micros = us - r ↔
      InRangeMicros (us - r) ∧ IsI64 r := by
  constructor
  · intro h
    have hrange := h ▸ inRangeMicros_usToTsLit (saturatingSub us (asI64 r))
    refine ⟨hrange, ?_⟩
    by_contra hr
    simp only [InRangeMicros, minSecs, maxSecs] at hrange
    unfold IsI64 at hus hr
    -- the cast makes the duration negative, and the difference saturates
    have hcast : asI64 r = r - 18446744073709551616 := by
      rw [asI64, Int.bmod_def]
      split_ifs <;> omega
    have hsat : saturatingSub us (asI64 r) = 9223372036854775807 := by
      rw [hcast, saturatingSub, saturate]
      omega
    have hepoch : ¬InRangeMicros 9223372036854775807 := by decide
    rw [hsat, usToTsLit_micros, if_neg hepoch] at h
    omega
  · rintro ⟨hrange, hr⟩
    have hdiff := isI64_of_inRangeMicros hrange
    have hsat : saturatingSub us (asI64 r) = us - r := by
      rw [asI64_of_isI64 hr, saturatingSub, saturate]
      unfold IsI64 at hdiff
      omega
    rw [hsat, usToTsLit_eq_iff]
    exact hrange

/-! ### Windows that mean what was asked -/

/-- **Two literals select what lies between two instants**, the first no later than the second,
exactly when they denote these. -/
theorem forall_selects_iff {lo hi since until_ : ℤ} (huntil : IsI64 until_)
    (hle : since ≤ until_) :
    (∀ ts, IsI64 ts → (((usToTsLit lo).micros ≤ ts ∧ ts ≤ (usToTsLit hi).micros) ↔
      since ≤ ts ∧ ts ≤ until_)) ↔
        (usToTsLit lo).micros = since ∧ (usToTsLit hi).micros = until_ := by
  have hlo := inRangeMicros_usToTsLit lo
  have hhi := isI64_of_inRangeMicros (inRangeMicros_usToTsLit hi)
  constructor
  · intro h
    obtain ⟨hlast, -⟩ := (h until_ huntil).mpr ⟨hle, le_refl _⟩
    have hends := (h until_ huntil).mpr ⟨hle, le_refl _⟩
    have hend : (usToTsLit hi).micros ≤ until_ :=
      ((h _ hhi).mp ⟨hlast.trans hends.2, le_refl _⟩).2
    obtain ⟨hsince, -⟩ := (h _ (isI64_of_inRangeMicros hlo)).mp ⟨le_refl _, hlast.trans hends.2⟩
    refine ⟨le_antisymm ?_ hsince, le_antisymm hend hends.2⟩
    -- an instant before all that an `i64` represents has no literal
    by_cases hmin : -9223372036854775808 ≤ since
    · have hrep : IsI64 since := ⟨hmin, hle.trans huntil.2⟩
      exact ((h since hrep).mpr ⟨le_refl _, hle⟩).1
    · have hfirst := (h (-9223372036854775808) (by decide)).mpr ⟨by omega, huntil.1⟩
      simp only [InRangeMicros, minSecs, maxSecs] at hlo
      omega
  · rintro ⟨rfl, rfl⟩ ts -
    exact Iff.rfl

/-- **Which windows mean what was asked**: those that are dated. -/
theorem forall_selects_iff_dated (w : QueryWindow) :
    (∀ ts, IsI64 ts → (w.Selects ts ↔ w.Asks ts)) ↔ w.Dated := by
  cases w with
  | lookback timeUs =>
    have hle : timeUs.1 - lookbackUs ≤ timeUs.1 := by
      unfold lookbackUs
      omega
    refine (forall_selects_iff timeUs.2 hle).trans ?_
    exact and_congr usToTsLit_asI64_eq_iff usToTsLit_eq_iff
  | range timeUs r =>
    have hle : timeUs.1 - (r : ℤ) ≤ timeUs.1 := by omega
    refine (forall_selects_iff timeUs.2 hle).trans ?_
    rw [bounds, asI64_sub_asI64]
    exact and_congr usToTsLit_asI64_eq_iff usToTsLit_eq_iff
  | span startUs endUs =>
    by_cases hle : startUs.1 ≤ endUs.1
    · refine (forall_selects_iff endUs.2 hle).trans ?_
      rw [Dated, and_iff_left fun h => absurd hle (not_le.mpr h), forall_prop_of_true hle]
      exact and_congr usToTsLit_eq_iff usToTsLit_eq_iff
    · -- nothing is asked for, and the literals must select nothing
      have hlt := not_le.mp hle
      rw [Dated, forall_prop_of_false hle, true_and, forall_prop_of_true hlt]
      constructor
      · intro h
        by_contra hge
        have hstart := isI64_of_inRangeMicros (inRangeMicros_usToTsLit startUs)
        have hasks := (h _ hstart).mp ⟨le_refl _, not_lt.mp hge⟩
        exact hle (hasks.1.trans hasks.2)
      · rintro h ts -
        refine ⟨fun hs => ?_, fun ha => absurd (ha.1.trans ha.2) hle⟩
        exact absurd (hs.1.trans hs.2) (not_le.mpr h)
  | ranges startUs endUs r h =>
    have hle : startUs.1 - (r : ℤ) ≤ endUs.1 := by omega
    refine (forall_selects_iff endUs.2 hle).trans ?_
    exact and_congr (usToTsLit_saturatingSub_eq_iff startUs.2 r) usToTsLit_eq_iff

end QueryWindow

/-! ### The windows of requests -/

/-- The times of a request, as texts, and the duration of the range it is about. -/
inductive WindowRequest
  /-- An instant query of a selector. -/
  | instant (time : String)
  /-- An instant query of a range function. -/
  | instantRange (time : String) (range : ℕ)
  /-- A matrix query of a selector. -/
  | matrix (start end_ : String)
  /-- A matrix query of a range function. -/
  | matrixRange (start end_ : String) (range : ℕ)

section Request

variable [F64 F] (castI64 : F → I64)
  (parseFromRfc3339 : String → Option {dt : DateTime // IsI64 dt.micros})

/-- The window of a request, if it looks at one. -/
def WindowRequest.window : WindowRequest → Except PromError (Option QueryWindow)
  | .instant time => do
    let timeUs ← parseTimestamp castI64 parseFromRfc3339 time
    return some (.lookback timeUs)
  | .instantRange time r => do
    let timeUs ← parseTimestamp castI64 parseFromRfc3339 time
    return some (.range timeUs r)
  | .matrix start end_ => do
    let startUs ← parseTimestamp castI64 parseFromRfc3339 start
    let endUs ← parseTimestamp castI64 parseFromRfc3339 end_
    return some (.span startUs endUs)
  | .matrixRange start end_ r => do
    let startUs ← parseTimestamp castI64 parseFromRfc3339 start
    let endUs ← parseTimestamp castI64 parseFromRfc3339 end_
    return if h : startUs.1 ≤ endUs.1 then some (.ranges startUs endUs r h) else none

/-- **When a window means what was asked**: for every request, the literals of its window select
the timestamps between the two instants asked for, and no others, exactly when the window is dated;
and of two dated windows the wider one selects what the narrower one does. -/
theorem window_exact_iff (q q' : WindowRequest) :
    ∀ w, q.window castI64 parseFromRfc3339 = .ok (some w) →
      ((∀ ts, IsI64 ts → (w.Selects ts ↔ w.Asks ts)) ↔ w.Dated) ∧
        ∀ w', q'.window castI64 parseFromRfc3339 = .ok (some w') → w.Dated → w'.Dated →
          (∀ ts, IsI64 ts → w.Asks ts → w'.Asks ts) →
            ∀ ts, IsI64 ts → w.Selects ts → w'.Selects ts := by
  intro w _
  refine ⟨w.forall_selects_iff_dated, fun w' _ hw hw' hwider ts hts hselects => ?_⟩
  have hasks := (w.forall_selects_iff_dated.mpr hw ts hts).mp hselects
  exact (w'.forall_selects_iff_dated.mpr hw' ts hts).mpr (hwider ts hts hasks)

end Request

section Instances

/-- The saturating cast of a whole double. -/
def Whole.castI64 : Whole → I64
  | .num n => ⟨saturate n, isI64_saturate n⟩
  | .inf => ⟨9223372036854775807, by decide⟩
  | .negInf => ⟨-9223372036854775808, by decide⟩
  | .nan => ⟨0, by decide⟩

/-- The window of a matrix query between two numbers of seconds. -/
def spanOf (m n : ℤ) : QueryWindow :=
  .span ⟨saturate (m * 1000000), isI64_saturate _⟩ ⟨saturate (n * 1000000), isI64_saturate _⟩

theorem window_matrix {start end_ : String} (m n : ℤ) (hm : Whole.parse start = some (.num m))
    (hn : Whole.parse end_ = some (.num n)) :
    (WindowRequest.matrix start end_).window Whole.castI64 (fun _ => none) =
      .ok (some (spanOf m n)) := by
  have hparse : ∀ {s : String} {k : ℤ}, Whole.parse s = some (.num k) →
      parseTimestamp Whole.castI64 (fun _ => none) s =
        .ok ⟨saturate (k * 1000000), isI64_saturate _⟩ := by
    intro s k hk
    have hf : (F64.parse s : Option Whole) = some (.num k) := hk
    rw [parseTimestamp, hf]
    rfl
  rw [WindowRequest.window, hparse hm, hparse hn]
  rfl

/-- A sample of a minute of 2023. -/
theorem window_exact_iff_minute :
    (spanOf 1700000000 1700000060).Selects 1700000030000000 ↔
      (spanOf 1700000000 1700000060).Asks 1700000030000000 := by
  have hwindow : (WindowRequest.matrix "1700000000" "1700000060").window Whole.castI64
      (fun _ => none) = .ok (some (spanOf 1700000000 1700000060)) :=
    window_matrix 1700000000 1700000060 (by decide +kernel) (by decide +kernel)
  have hdated : (spanOf 1700000000 1700000060).Dated := by
    simp only [spanOf, QueryWindow.Dated]
    decide +kernel
  exact (window_exact_iff Whole.castI64 (fun _ => none) _ (.matrix "0" "0") _ hwindow).1.mpr hdated
    1700000030000000 (by decide)

/-- **A window up to a time past the calendar** ends at the epoch: a sample of 2023 is selected
between 0 and 2000000000 seconds, and not between 0 and 9223372036855. -/
theorem wider_window_selects_less :
    (WindowRequest.matrix "0" "2000000000").window Whole.castI64 (fun _ => none) =
        .ok (some (spanOf 0 2000000000)) ∧
      (WindowRequest.matrix "0" "9223372036855").window Whole.castI64 (fun _ => none) =
        .ok (some (spanOf 0 9223372036855)) ∧
      (spanOf 0 2000000000).Selects 1700000000000000 ∧
      (spanOf 0 9223372036855).Asks 1700000000000000 ∧
      ¬(spanOf 0 9223372036855).Selects 1700000000000000 :=
  ⟨window_matrix 0 2000000000 (by decide +kernel) (by decide +kernel),
    window_matrix 0 9223372036855 (by decide +kernel) (by decide +kernel), by decide +kernel,
    by decide +kernel, by decide +kernel⟩

end Instances

end Skaldberg.Prometheus
