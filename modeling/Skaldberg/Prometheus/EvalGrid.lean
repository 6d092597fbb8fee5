import Mathlib.Algebra.Order.Ring.Int
import Mathlib.Data.Nat.Cast.Basic
import Skaldberg.Prometheus.QueryWindow

/-!
# The evaluation grid

A matrix query over a range function is evaluated at the timestamps of a loop: it pushes a
timestamp, gives up when there are too many, and goes on one step later, with an addition that
saturates. The loop always ends, and what it ends with is `evalGrid` (`loopReturns_iff`). Up to an
end before the last `i64` it lists the grid of the request, or refuses a grid that is too long
(`evalsFrom_eq`); with that end it never steps past it, and every request is refused
(`evalsFrom_of_end_max`). So the grid is the one asked for exactly if the end is another one, or
the grid is too long anyway (`grid_exact_iff`).
-/

namespace Skaldberg.Prometheus

/-! ### The loop -/

/-- The refusal of a grid that is too long. -/
def tooManyEvals : PromError :=
  .badData "range query produces > 11000 eval points; pick a larger step"

/-- The loop from the timestamps pushed so far and the next one: what it returns, if it ends. -/
inductive LoopReturns (endUs stepUs : ℤ) : List ℤ → ℤ → Except PromError (List ℤ) → Prop
  /-- The condition of the loop fails. -/
  | exit {evals : List ℤ} {t : ℤ} : ¬t ≤ endUs → LoopReturns endUs stepUs evals t (.ok evals)
  /-- One timestamp too many is pushed. -/
  | refuse {evals : List ℤ} {t : ℤ} : t ≤ endUs → maxRangeEvals < (evals ++ [t]).length →
      LoopReturns endUs stepUs evals t (.error tooManyEvals)
  /-- A timestamp is pushed, and the loop goes on. -/
  | next {evals : List ℤ} {t : ℤ} {r : Except PromError (List ℤ)} : t ≤ endUs →
      ¬maxRangeEvals < (evals ++ [t]).length →
      LoopReturns endUs stepUs (evals ++ [t]) (saturatingAdd t stepUs) r →
      LoopReturns endUs stepUs evals t r

/-- What the loop returns when it has room for some more timestamps. -/
def resultOf (evals : List ℤ) (more : Option (List ℤ)) : Except PromError (List ℤ) :=
  (more.map (evals ++ ·)).elim (.error tooManyEvals) .ok

variable {endUs stepUs : ℤ}

/-- **The loop ends**, from anywhere, with what is listed of the room it has left. -/
theorem loopReturns_evalsFrom (room : ℕ) (evals : List ℤ) (t : ℤ)
    (hroom : evals.length + room = maxRangeEvals) :
    LoopReturns endUs stepUs evals t (resultOf evals (evalsFrom endUs stepUs room t)) := by
  induction room generalizing evals t with
  | zero =>
    rw [evalsFrom]
    split_ifs with ht
    · exact .refuse ht (by rw [List.length_append, List.length_singleton]; omega)
    · have hexit : LoopReturns endUs stepUs evals t (.ok evals) := .exit ht
      simpa [resultOf] using hexit
  | succ room ih =>
    rw [evalsFrom]
    split_ifs with ht
    · have hlen : (evals ++ [t]).length + room = maxRangeEvals := by
        rw [List.length_append, List.length_singleton]
        omega
      have hnext := ih (evals ++ [t]) (saturatingAdd t stepUs) hlen
      have hresult : resultOf evals ((evalsFrom endUs stepUs room
          (saturatingAdd t stepUs)).map (t :: ·)) =
            resultOf (evals ++ [t]) (evalsFrom endUs stepUs room (saturatingAdd t stepUs)) := by
        cases evalsFrom endUs stepUs room (saturatingAdd t stepUs) <;> simp [resultOf]
      rw [hresult]
      exact .next ht (by omega) hnext
    · have hexit : LoopReturns endUs stepUs evals t (.ok evals) := .exit ht
      simpa [resultOf] using hexit

/-- The loop returns one thing. -/
theorem LoopReturns.unique {evals : List ℤ} {t : ℤ} {r r' : Except PromError (List ℤ)}
    (h : LoopReturns endUs stepUs evals t r) (h' : LoopReturns endUs stepUs evals t r') :
    r = r' := by
  induction h with
  | exit ht =>
    cases h' with
    | exit => rfl
    | refuse ht' => exact absurd ht' ht
    | next ht' => exact absurd ht' ht
  | refuse ht hlen =>
    cases h' with
    | exit ht' => exact absurd ht ht'
    | refuse => rfl
    | next _ hlen' => exact absurd hlen hlen'
  | next ht hlen _ ih =>
    cases h' with
    | exit ht' => exact absurd ht ht'
    | refuse _ hlen' => exact absurd hlen' hlen
    | next _ _ hnext => exact ih hnext

/-- **What the loop returns** is the evaluation grid. -/
theorem loopReturns_iff {startUs : ℤ} {r : Except PromError (List ℤ)} :
    LoopReturns endUs stepUs [] startUs r ↔ r = evalGrid startUs endUs stepUs := by
  have hgrid : resultOf [] (evalsFrom endUs stepUs maxRangeEvals startUs) =
      evalGrid startUs endUs stepUs := by
    rw [evalGrid]
    cases evalsFrom endUs stepUs maxRangeEvals startUs <;> rfl
  have hends : LoopReturns endUs stepUs [] startUs
      (resultOf [] (evalsFrom endUs stepUs maxRangeEvals startUs)) :=
    loopReturns_evalsFrom maxRangeEvals [] startUs (Nat.zero_add _)
  rw [hgrid] at hends
  constructor
  · exact fun h => h.unique hends
  · rintro rfl
    exact hends

/-! ### The grid asked for -/

/-- The timestamps from a start to an end, a step apart. -/
def gridPoints (startUs endUs stepUs : ℤ) : List ℤ :=
  (List.range ((endUs - startUs) / stepUs + 1).toNat).map fun k : ℕ => startUs + k * stepUs

theorem length_gridPoints (startUs endUs stepUs : ℤ) :
    (gridPoints startUs endUs stepUs).length = ((endUs - startUs) / stepUs + 1).toNat := by
  rw [gridPoints, List.length_map, List.length_range]

/-- A list has the timestamps of the grid, and in increasing order. -/
structure IsGrid (startUs endUs stepUs : ℤ) (l : List ℤ) : Prop where
  /-- They increase. -/
  increasing : l.Pairwise (· < ·)
  /-- They are the multiples of the step after the start, up to the end. -/
  mem : ∀ x, x ∈ l ↔ (∃ k : ℕ, x = startUs + k * stepUs) ∧ x ≤ endUs

theorem isGrid_gridPoints (startUs endUs : ℤ) (hstep : 0 < stepUs) :
    IsGrid startUs endUs stepUs (gridPoints startUs endUs stepUs) := by
  refine ⟨?_, fun x => ?_⟩
  · rw [gridPoints, List.pairwise_map]
    refine List.pairwise_lt_range.imp fun {j k} hjk => ?_
    have hmul : (j : ℤ) * stepUs < k * stepUs :=
      mul_lt_mul_of_pos_right (by exact_mod_cast hjk) hstep
    omega
  · have hle : ∀ k : ℕ, k < ((endUs - startUs) / stepUs + 1).toNat ↔
        startUs + k * stepUs ≤ endUs := by
      intro k
      have hdiv : (k : ℤ) ≤ (endUs - startUs) / stepUs ↔ k * stepUs ≤ endUs - startUs :=
        Int.le_ediv_iff_mul_le hstep
      omega
    rw [gridPoints, List.mem_map]
    constructor
    · rintro ⟨k, hk, rfl⟩
      exact ⟨⟨k, rfl⟩, (hle k).mp (List.mem_range.mp hk)⟩
    · rintro ⟨⟨k, rfl⟩, hx⟩
      exact ⟨k, List.mem_range.mpr ((hle k).mpr hx), rfl⟩

/-- There is one grid. -/
theorem IsGrid.eq {startUs : ℤ} {l l' : List ℤ} (h : IsGrid startUs endUs stepUs l)
    (h' : IsGrid startUs endUs stepUs l') : l = l' := by
  have hperm : l.Perm l' := by
    refine (List.perm_ext_iff_of_nodup (h.increasing.imp ne_of_lt) (h'.increasing.imp ne_of_lt)).mpr
      fun x => ?_
    rw [h.mem, h'.mem]
  exact hperm.eq_of_pairwise (fun x y _ _ hxy hyx => absurd hyx (not_lt_of_gt hxy)) h.increasing
    h'.increasing

theorem gridPoints_of_lt {startUs : ℤ} (hstep : 0 < stepUs) (h : endUs < startUs) :
    gridPoints startUs endUs stepUs = [] := by
  have hneg : (endUs - startUs) / stepUs < 0 := Int.ediv_neg_of_neg_of_pos (by omega) hstep
  rw [gridPoints, Int.toNat_of_nonpos (by omega)]
  rfl

theorem gridPoints_of_le {startUs : ℤ} (hstep : 0 < stepUs) (h : startUs ≤ endUs) :
    gridPoints startUs endUs stepUs =
      startUs :: gridPoints (startUs + stepUs) endUs stepUs := by
  have hdiv : (endUs - startUs) / stepUs = (endUs - (startUs + stepUs)) / stepUs + 1 := by
    rw [← Int.add_mul_ediv_right _ 1 hstep.ne']
    congr 1
    omega
  have hnonneg : 0 ≤ (endUs - startUs) / stepUs := Int.ediv_nonneg (by omega) hstep.le
  have hlen : ((endUs - startUs) / stepUs + 1).toNat =
      ((endUs - (startUs + stepUs)) / stepUs + 1).toNat + 1 := by
    omega
  rw [gridPoints, hlen, List.range_succ_eq_map, List.map_cons, List.map_map, gridPoints]
  congr 1
  · rw [Nat.cast_zero, zero_mul, add_zero]
  · refine List.map_congr_left fun k _ => ?_
    rw [Function.comp_apply, Nat.succ_eq_add_one, Nat.cast_add, Nat.cast_one, add_mul, one_mul]
    omega

/-! ### The grid listed -/

/-- **The loop lists the grid**, or runs out of room for it, if it can step past the end. -/
theorem evalsFrom_eq (hend : endUs < 9223372036854775807) (hstep : 0 < stepUs) (room : ℕ) (t : ℤ)
    (ht : -9223372036854775808 ≤ t) :
    evalsFrom endUs stepUs room t =
      if (gridPoints t endUs stepUs).length ≤ room then some (gridPoints t endUs stepUs)
      else none := by
  induction room generalizing t with
  | zero =>
    rw [evalsFrom]
    split_ifs with hle hlen hlen
    · rw [gridPoints_of_le hstep hle] at hlen
      simp at hlen
    · rfl
    · rw [gridPoints_of_lt hstep (not_le.mp hle)]
    · rw [gridPoints_of_lt hstep (not_le.mp hle)] at hlen
      simp at hlen
  | succ room ih =>
    rw [evalsFrom]
    by_cases hle : t ≤ endUs
    · have hsat : gridPoints (saturatingAdd t stepUs) endUs stepUs =
          gridPoints (t + stepUs) endUs stepUs := by
        by_cases hmax : t + stepUs ≤ 9223372036854775807
        · have hadd : saturatingAdd t stepUs = t + stepUs := by
            rw [saturatingAdd, saturate]
            omega
          rw [hadd]
        · have hadd : saturatingAdd t stepUs = 9223372036854775807 := by
            rw [saturatingAdd, saturate]
            omega
          rw [hadd, gridPoints_of_lt hstep hend, gridPoints_of_lt hstep (by omega)]
      have hmin : -9223372036854775808 ≤ saturatingAdd t stepUs := by
        rw [saturatingAdd, saturate]
        omega
      rw [if_pos hle, ih _ hmin, hsat, gridPoints_of_le hstep hle, List.length_cons]
      split_ifs with hlen hlen' hlen'
      · rfl
      · omega
      · omega
      · rfl
    · rw [if_neg hle, gridPoints_of_lt hstep (not_le.mp hle)]
      rfl

/-- **The loop never steps past the last `i64`.** -/
theorem evalsFrom_of_end_max (room : ℕ) (t : ℤ)
    (ht : t ≤ 9223372036854775807) : evalsFrom 9223372036854775807 stepUs room t = none := by
  induction room generalizing t with
  | zero => rw [evalsFrom, if_pos ht]
  | succ room ih =>
    have hmax : saturatingAdd t stepUs ≤ 9223372036854775807 := by
      rw [saturatingAdd, saturate]
      omega
    rw [evalsFrom, if_pos ht, ih _ hmax, Option.map_none]

/-! ### When the grid is the one asked for -/

/-- The loop returns the grid or refuses it, and refuses it exactly if it is too long. -/
def GridExact (startUs endUs stepUs : ℤ) : Prop :=
  ∃ r l, LoopReturns endUs stepUs [] startUs r ∧ IsGrid startUs endUs stepUs l ∧
    (r = .ok l ∨ ∃ e, r = .error e) ∧ ((∃ e, r = .error e) ↔ maxRangeEvals < l.length)

theorem evalGrid_of_end_max {startUs : ℤ} (hstart : IsI64 startUs) :
    evalGrid startUs 9223372036854775807 stepUs = .error tooManyEvals := by
  have hle : startUs ≤ 9223372036854775807 := by
    simp only [IsI64] at hstart
    omega
  rw [evalGrid, evalsFrom_of_end_max _ _ hle]
  rfl

theorem evalGrid_eq {startUs : ℤ} (hstart : IsI64 startUs) (hend : IsI64 endUs) (hstep : 0 < stepUs)
    (h : endUs ≠ 9223372036854775807 ∨
      maxRangeEvals < (gridPoints startUs endUs stepUs).length) :
    evalGrid startUs endUs stepUs =
      if (gridPoints startUs endUs stepUs).length ≤ maxRangeEvals then
        .ok (gridPoints startUs endUs stepUs)
      else .error tooManyEvals := by
  by_cases hmax : endUs = 9223372036854775807
  · subst hmax
    have hlong := h.resolve_left fun hne => hne rfl
    rw [evalGrid_of_end_max hstart, if_neg (not_le.mpr hlong)]
  · simp only [IsI64] at hstart hend
    rw [evalGrid, evalsFrom_eq (by omega) hstep _ _ (by omega)]
    split_ifs <;> rfl

/-- A grid that ends with the last `i64` is refused, however short. -/
theorem lt_length_of_gridExact {startUs : ℤ} (hstart : IsI64 startUs) (hstep : 0 < stepUs)
    (h : GridExact startUs 9223372036854775807 stepUs) :
    maxRangeEvals < (gridPoints startUs 9223372036854775807 stepUs).length := by
  obtain ⟨r, l, hr, hl, -, hrefused⟩ := h
  rw [hl.eq (isGrid_gridPoints _ _ hstep)] at hrefused
  refine hrefused.mp ⟨tooManyEvals, ?_⟩
  rw [loopReturns_iff.mp hr, evalGrid_of_end_max hstart]

/-- **The grid is the one asked for** exactly if the end is not the last `i64`, or there are too
many timestamps up to it. The loop ends in either case. -/
theorem grid_exact_iff (startUs endUs stepUs : ℤ) (hstart : IsI64 startUs) (hend : IsI64 endUs)
    (hstep : 0 < stepUs) :
    (∃ r, LoopReturns endUs stepUs [] startUs r) ∧
      (GridExact startUs endUs stepUs ↔
        endUs ≠ 9223372036854775807 ∨ maxRangeEvals ≤ (endUs - startUs) / stepUs) := by
  refine ⟨⟨_, loopReturns_iff.mpr rfl⟩, ?_⟩
  have hgrid := isGrid_gridPoints startUs endUs hstep
  have hlong : (maxRangeEvals : ℤ) ≤ (endUs - startUs) / stepUs ↔
      maxRangeEvals < (gridPoints startUs endUs stepUs).length := by
    rw [length_gridPoints]
    omega
  rw [hlong]
  constructor
  · refine fun h => or_iff_not_imp_left.mpr fun hmax => ?_
    cases not_not.mp hmax
    exact lt_length_of_gridExact hstart hstep h
  · intro h
    refine ⟨_, _, loopReturns_iff.mpr rfl, hgrid, ?_⟩
    rw [evalGrid_eq hstart hend hstep h]
    split_ifs with hlen
    · exact ⟨.inl rfl, iff_of_false (by rintro ⟨e, he⟩; cases he) (not_lt.mpr hlen)⟩
    · exact ⟨.inr ⟨_, rfl⟩, iff_of_true ⟨_, rfl⟩ (not_le.mp hlen)⟩

/-- A minute of 2023, a second apart. -/
theorem grid_exact_iff_minute :
    (∃ r, LoopReturns 1700000060000000 1000000 [] 1700000000000000 r) ∧
      (GridExact 1700000000000000 1700000060000000 1000000 ↔
        (1700000060000000 : ℤ) ≠ 9223372036854775807 ∨
          maxRangeEvals ≤ (1700000060000000 - 1700000000000000 : ℤ) / 1000000) :=
  grid_exact_iff 1700000000000000 1700000060000000 1000000 (by decide) (by decide) (by decide)

/-- **A grid of one timestamp is refused** when it ends with the last `i64`. -/
theorem not_gridExact_end_max :
    ¬GridExact 9223372036854000000 9223372036854775807 1000000 ∧
      IsGrid 9223372036854000000 9223372036854775807 1000000 [9223372036854000000] := by
  constructor
  · intro h
    have hlong := lt_length_of_gridExact (by decide) (by decide) h
    rw [length_gridPoints] at hlong
    exact absurd hlong (by decide)
  · have hstep : (0 : ℤ) < 1000000 := by decide
    exact isGrid_gridPoints 9223372036854000000 9223372036854775807 hstep

end Skaldberg.Prometheus
