import Skaldberg.Lib.TimeSeries
import Skaldberg.Prometheus.Redelivery

/-!
# The value of a range

What a range function makes of readings at increasing times (`Skaldberg.Prometheus.rangeValue`), and
that the query computes it in every window of them (`Readings.windowValue_eq_rangeValue`): the
growth of a counter for `increase`, per second for `rate`, over the last two readings alone for
`irate`, and the last reading less the first for `delta`; of a single reading nothing.

A window that is closed on the left has, at most, one reading more than the window that is open
there. Whether this one makes a difference is said of the readings, operator by operator
(`Harmless`, `rangeValue_cons_eq_iff`).
-/

namespace Skaldberg.Prometheus

/-- What a range function is of two readings or more, in the order of their times, which are
microseconds. -/
def rangeFn (op : RangeFnOp) (samples : List (ℤ × ℚ)) : ℚ :=
  match op with
  | .rate => TimeSeries.meanRate samples * 1000000
  | .irate => TimeSeries.lastRate samples * 1000000
  | .increase => TimeSeries.growth samples
  | .delta => TimeSeries.spread samples

/-- The value of a range function, if there are two readings. -/
def rangeValue (op : RangeFnOp) (samples : List (ℤ × ℚ)) : Option ℚ :=
  if 2 ≤ samples.length then some (rangeFn op samples) else none

theorem isSome_rangeValue (op : RangeFnOp) (samples : List (ℤ × ℚ)) :
    (rangeValue op samples).isSome = true ↔ 2 ≤ samples.length := by
  rw [rangeValue]
  split_ifs with h <;> simp [h]

/-! ### One reading more in front -/

/-- A reading in front of others that makes no difference to a range function: the others are none,
or two at least that the first one adds nothing to. -/
def Harmless (op : RangeFnOp) (e : ℤ × ℚ) : List (ℤ × ℚ) → Prop
  | [] => True
  | [_] => False
  | a :: b :: l =>
    match op with
    | .rate =>
      -- the counter has moved to the second reading at the mean rate of the others
      Counter.step e.2 a.2 * (TimeSeries.extent (a :: b :: l) : ℚ) =
        TimeSeries.growth (a :: b :: l) * ((a.1 - e.1 : ℤ) : ℚ)
    | .irate => True
    | .increase => Counter.step e.2 a.2 = 0
    | .delta => e.2 = a.2

instance (op : RangeFnOp) (e : ℤ × ℚ) (l : List (ℤ × ℚ)) : Decidable (Harmless op e l) :=
  match l, op with
  | [], _ => inferInstanceAs (Decidable True)
  | [_], _ => inferInstanceAs (Decidable False)
  | _ :: _ :: _, .rate => inferInstanceAs (Decidable (_ = _))
  | _ :: _ :: _, .irate => inferInstanceAs (Decidable True)
  | _ :: _ :: _, .increase => inferInstanceAs (Decidable (_ = _))
  | _ :: _ :: _, .delta => inferInstanceAs (Decidable (_ = _))

/-- **When a reading in front makes no difference.** -/
theorem rangeValue_cons_eq_iff {op : RangeFnOp} {e : ℤ × ℚ} {rest : List (ℤ × ℚ)}
    (h : ((e :: rest).map Prod.fst).Pairwise (· < ·)) :
    rangeValue op (e :: rest) = rangeValue op rest ↔ Harmless op e rest := by
  match rest with
  | [] => exact iff_of_true rfl trivial
  | [a] =>
    refine iff_of_false (fun heq => ?_) id
    have hsome := isSome_rangeValue op [e, a]
    rw [heq] at hsome
    exact absurd ((isSome_rangeValue op [a]).mp (hsome.mpr le_rfl)) (by simp)
  | a :: b :: l =>
    have hfirst : e.1 < a.1 := (List.pairwise_cons.mp h).1 _ (List.mem_cons_self ..)
    have hext := TimeSeries.extent_pos (List.pairwise_cons.mp h).2
    have hlen : 2 ≤ (a :: b :: l).length := by simp
    have hlen' : 2 ≤ (e :: a :: b :: l).length := by simp
    rw [rangeValue, rangeValue, if_pos hlen, if_pos hlen', Option.some_inj]
    cases op with
    | rate =>
      rw [rangeFn, rangeFn, mul_left_inj' (by norm_num)]
      exact TimeSeries.meanRate_cons_eq_iff hfirst hext
    | irate =>
      refine iff_of_true ?_ trivial
      rw [rangeFn, rangeFn, TimeSeries.lastRate_cons]
    | increase => exact TimeSeries.growth_cons_eq_iff e a (b :: l)
    | delta => exact TimeSeries.spread_cons_eq_iff e a (b :: l)

/-! ### The query -/

variable {τ : Type} {k : τ × ℤ} {samples : List (ℤ × ℚ)} {rows : List (BaseRow τ Exact)}

theorem Readings.windowValue_delta {first : ℤ × ℚ} {rest : List (ℤ × ℚ)}
    (h : Readings k (first :: rest) rows) (hrest : rest ≠ []) (E : Sql.Engine) :
    windowValue E .delta k rows = some (.num ((rest.getLastD first).2 - first.2)) := by
  have hlen : 2 ≤ rows.length := by
    have := List.length_pos_of_ne_nil hrest
    rw [h.perm.length_eq, List.length_map, List.length_cons]
    omega
  -- a row at the timestamp of a reading is that reading
  have hrow : ∀ b ∈ rows, ∀ s ∈ first :: rest, b.tsUs = s.1 → b = sampleRow k s := by
    intro b hb s hs hts
    obtain ⟨s', hs', rfl⟩ := List.mem_map.mp (h.perm.mem_iff.mp hb)
    rw [List.inj_on_of_nodup_map (h.sorted.imp ne_of_lt) hs' hs hts]
  obtain ⟨e, he, l, hl, hets, hlts, hvalue⟩ := exists_windowValue_delta E k hlen
  obtain ⟨hfirst, hlast⟩ := h.ends_eq
  rw [hvalue, hrow e he first (List.mem_cons_self ..) (hets.trans hfirst),
    hrow l hl _ List.getLastD_mem_cons (hlts.trans hlast)]
  exact congrArg some (Exact.sub_num _ _)

theorem perSecond_num (q : ℚ) {us : ℤ} (hpos : 0 < us) (hlt : us < 2 ^ 63) :
    perSecond (Exact.num q) us = .num (q / us * 1000000) := by
  have hcast : asI64 us = us := QueryWindow.asI64_of_isI64 (by
    norm_num at hlt
    unfold IsI64
    omega)
  have hne : ((us : ℤ) : ℚ) ≠ 0 := by exact_mod_cast hpos.ne'
  rw [perSecond, hcast, Exact.ofInt_eq, Exact.ofInt_eq, Exact.mul_num, Exact.div_num _ hne,
    div_mul_eq_mul_div]
  rfl

/-- **The query computes the value of the range**, for readings that are less than the range of an
`i64` apart. -/
theorem Readings.windowValue_eq_rangeValue (h : Readings k samples rows)
    (hshort : ∀ s ∈ samples, ∀ s' ∈ samples, s.1 - s'.1 < 2 ^ 63) (op : RangeFnOp)
    (E : Sql.Engine) : windowValue E op k rows = (rangeValue op samples).map .num := by
  match samples with
  | [] =>
    obtain rfl : rows = [] := h.perm.eq_nil
    exact windowValue_nil E op k
  | [a] =>
    obtain ⟨hrate, hincrease⟩ := h.windowValue_eq E
    have hone : rows.length = 1 := h.perm.length_eq
    have hspan : ¬HasSpan rows := fun hspan => by
      have := (hasSpan_iff.mp hspan).1
      omega
    cases op with
    | rate => exact hrate
    | irate => exact windowValue_irate_of_not_hasSpan E hspan
    | increase => exact hincrease
    | delta => exact if_neg (by omega)
  | a :: b :: l =>
    obtain ⟨hrate, hincrease⟩ := h.windowValue_eq E
    have hpos := TimeSeries.extent_pos h.sorted
    have hlt : TimeSeries.extent (a :: b :: l) < 2 ^ 63 :=
      hshort _ List.getLastD_mem_cons a (List.mem_cons_self ..)
    have hspan : 2 ≤ (a :: b :: l).length ∧ a.1 < ((b :: l).getLastD a).1 :=
      ⟨by simp, sub_pos.mp hpos⟩
    rw [rangeValue, if_pos hspan.1, Option.map_some]
    cases op with
    | rate =>
      rw [hrate, if_pos hspan]
      exact congrArg some (perSecond_num _ hpos hlt)
    | irate =>
      obtain ⟨x, y, hlast⟩ := List.length_eq_two.mp
        (show ((a :: b :: l).drop l.length).length = 2 by
          rw [List.length_drop, List.length_cons, List.length_cons]
          omega)
      have hsplit : a :: b :: l = (a :: b :: l).take l.length ++ [x, y] := by
        rw [← hlast, List.take_append_drop]
      rw [hsplit] at h hshort ⊢
      have hxy : x.1 < y.1 := by
        have hsorted := List.pairwise_map.mp h.sorted
        exact (List.pairwise_cons.mp (List.pairwise_append.mp hsorted).2.1).1 y (by simp)
      rw [h.windowValue_irate E, rangeFn, TimeSeries.lastRate_append]
      exact congrArg some (perSecond_num _ (sub_pos.mpr hxy) (hshort y (by simp) x (by simp)))
    | increase => rw [hincrease, if_pos hspan]; rfl
    | delta => exact h.windowValue_delta (List.cons_ne_nil b l) E

end Skaldberg.Prometheus
