import Mathlib.Algebra.BigOperators.Group.List.Basic
import Mathlib.Algebra.Order.Group.Defs
import Mathlib.Data.List.Sort
import Mathlib.Tactic.Abel

/-!
# Counters that restart

A counter grows, and now and then restarts from zero. Of a list of its readings, a reading below
the one before is a restart, and what was read then has been counted since
(`Counter.step`); the increase over the readings is the sum of these steps (`Counter.increase`).

The increase is the last reading less the first, and the readings before the restarts
(`Counter.increase_cons`); it is additive where two lists share a reading
(`Counter.increase_append`) and, for a counter that is not negative, not negative
(`Counter.increase_nonneg`).
-/

namespace Counter

variable {α : Type} [AddCommGroup α] [LinearOrder α]

/-- The increase from one reading to the next. -/
def step (prev cur : α) : α := if prev ≤ cur then cur - prev else cur

/-- The increase over a list of readings. -/
def increase : List α → α
  | [] => 0
  | [_] => 0
  | x :: y :: l => step x y + increase (y :: l)

/-- The readings before the restarts. -/
def drops : List α → List α
  | [] => []
  | [_] => []
  | x :: y :: l => if y < x then x :: drops (y :: l) else drops (y :: l)

@[simp] theorem increase_nil : increase ([] : List α) = 0 := rfl

@[simp] theorem increase_singleton (x : α) : increase [x] = 0 := rfl

theorem increase_cons_cons (x y : α) (l : List α) :
    increase (x :: y :: l) = step x y + increase (y :: l) := rfl

theorem step_of_le {x y : α} (h : x ≤ y) : step x y = y - x := if_pos h

theorem step_of_lt {x y : α} (h : y < x) : step x y = y := if_neg (not_le.mpr h)

@[simp] theorem step_self (x : α) : step x x = 0 := by rw [step_of_le le_rfl, sub_self]

/-- **The increase in closed form**: the last reading less the first, and the readings before the
restarts. -/
theorem increase_cons (x : α) (l : List α) :
    increase (x :: l) = l.getLastD x - x + (drops (x :: l)).sum := by
  induction l generalizing x with
  | nil => simp [drops]
  | cons y l ih =>
    rw [increase_cons_cons, ih, drops]
    have hlast : (y :: l).getLastD x = l.getLastD y := List.getLastD_cons
    rw [hlast]
    split_ifs with hlt
    · rw [step_of_lt hlt, List.sum_cons]
      abel
    · rw [step_of_le (not_lt.mp hlt)]
      abel

/-- **The increase is additive** over lists that share a reading. -/
theorem increase_append (l r : List α) (x : α) :
    increase (l ++ x :: r) = increase (l ++ [x]) + increase (x :: r) := by
  induction l with
  | nil => simp
  | cons y l ih =>
    cases l with
    | nil =>
      simp only [List.cons_append, List.nil_append] at ih ⊢
      rw [increase_cons_cons, increase_cons_cons, increase_singleton, add_zero]
    | cons z l =>
      simp only [List.cons_append] at ih ⊢
      rw [increase_cons_cons, ih, increase_cons_cons, add_assoc]

/-- **A counter that is not negative does not decrease.** -/
theorem increase_nonneg [IsOrderedAddMonoid α] {l : List α} (h : ∀ x ∈ l, 0 ≤ x) :
    0 ≤ increase l := by
  induction l with
  | nil => exact le_rfl
  | cons x l ih =>
    cases l with
    | nil => exact le_rfl
    | cons y l =>
      have hstep : 0 ≤ step x y := by
        rw [step]
        split_ifs with hle
        · exact sub_nonneg.mpr hle
        · exact h y (by simp)
      rw [increase_cons_cons]
      exact add_nonneg hstep (ih fun z hz => h z (List.mem_cons_of_mem _ hz))

/-! ### Several readings of one moment

Readings of one moment are listed in any order. They make no difference when all are the same, and
there is one other case: a moment whose readings are zero and a negative one, which stands for
both, if the counter does not come from between them nor go on below (`step_dip`). -/

/-- **A telescoping correction**: where each step over some readings is the one over others, but
for what the two differ by, so is the increase. -/
theorem increase_map_eq {ι : Type} {u m : ι → α} (x : ι) (l : List ι)
    (h : (x :: l).IsChain fun y z =>
      step (u y) (u z) = step (m y) (m z) + ((u z - m z) - (u y - m y))) :
    increase ((x :: l).map u) = increase ((x :: l).map m) +
      ((u (l.getLastD x) - m (l.getLastD x)) - (u x - m x)) := by
  induction l generalizing x with
  | nil => simp
  | cons y l ih =>
    obtain ⟨hstep, hrest⟩ := List.isChain_cons_cons.mp h
    have hlast : (y :: l).getLastD x = l.getLastD y := List.getLastD_cons
    have htail := ih y hrest
    simp only [List.map_cons] at htail ⊢
    rw [increase_cons_cons, htail, hstep, increase_cons_cons, hlast]
    abel

/-- Repeated readings make no difference. -/
theorem exists_increase_eq {ι : Type} [LinearOrder ι] (f : ι → α) {l : List ι}
    (h : l.Pairwise (· ≤ ·)) :
    ∃ s : List ι, s.Pairwise (· < ·) ∧ (∀ x, x ∈ s ↔ x ∈ l) ∧
      increase (s.map f) = increase (l.map f) := by
  induction l with
  | nil => exact ⟨[], List.Pairwise.nil, fun _ => Iff.rfl, rfl⟩
  | cons x l ih =>
    obtain ⟨hx, hl⟩ := List.pairwise_cons.mp h
    obtain ⟨s, hs, hmem, hinc⟩ := ih hl
    cases l with
    | nil =>
      exact ⟨[x], List.pairwise_singleton _ _, fun _ => Iff.rfl, rfl⟩
    | cons y l =>
      rcases (hx y (List.mem_cons_self ..)).eq_or_lt with rfl | hlt
      · refine ⟨s, hs, fun z => (hmem z).trans (by simp), ?_⟩
        rw [hinc]
        simp only [List.map_cons, increase_cons_cons, step_self, zero_add]
      · -- the other readings begin with the next one
        have hbelow : ∀ z ∈ s, y ≤ z := fun z hz => by
          rcases List.mem_cons.mp ((hmem z).mp hz) with rfl | hz
          · exact le_rfl
          · exact (List.pairwise_cons.mp hl).1 z hz
        cases s with
        | nil => exact absurd ((hmem y).mpr (List.mem_cons_self ..)) List.not_mem_nil
        | cons z s =>
          have hyz : z = y := by
            rcases List.mem_cons.mp ((hmem y).mpr (List.mem_cons_self ..)) with rfl | hy
            · rfl
            · exact absurd ((List.pairwise_cons.mp hs).1 y hy)
                (not_lt.mpr (hbelow z (List.mem_cons_self ..)))
          subst hyz
          refine ⟨x :: z :: s, List.pairwise_cons.mpr ⟨fun w hw => ?_, hs⟩, fun w => ?_, ?_⟩
          · exact hlt.trans_le (hbelow w hw)
          · rw [List.mem_cons, hmem, ← List.mem_cons]
          · simp only [List.map_cons] at hinc ⊢
            rw [increase_cons_cons, hinc, increase_cons_cons]

/-- **The increase over the moments of some readings** is a matter of which moments they are. -/
theorem increase_map_congr {ι : Type} [LinearOrder ι] (f : ι → α) {l l' : List ι}
    (h : l.Pairwise (· ≤ ·)) (h' : l'.Pairwise (· ≤ ·)) (hmem : ∀ x, x ∈ l ↔ x ∈ l') :
    increase (l.map f) = increase (l'.map f) := by
  obtain ⟨s, hs, hsl, hinc⟩ := exists_increase_eq f h
  obtain ⟨s', hs', hsl', hinc'⟩ := exists_increase_eq f h'
  have heq : s = s' := hs.eq_of_mem_iff hs' fun x => (hsl x).trans ((hmem x).trans (hsl' x).symm)
  rw [← hinc, heq, hinc']

section

variable [IsOrderedAddMonoid α] {a b : α} {l r : List α}

/-- **One reading for a moment**: from `u` to `w` as from `m` to `m'`, where zero may have been read
instead of a negative reading. -/
theorem step_dip {m m' u w : α} (hu : u = m ∨ u = 0 ∧ m < 0 ∧ m ≤ m')
    (hw : w = m' ∨ w = 0 ∧ m' < 0 ∧ ¬(m' < m ∧ m < 0)) :
    step u w = step m m' + ((w - m') - (u - m)) := by
  rcases hu with rfl | ⟨rfl, hm, hle⟩ <;> rcases hw with rfl | ⟨rfl, hm', hbetween⟩ <;>
    simp only [step] <;> grind

/-- Two readings of one moment that may be swapped before others: the greater one is zero, and
what follows is not below the lesser one. -/
theorem swap_after (hab : a < b)
    (hlow : increase (l ++ a :: a :: b :: r) = increase (l ++ a :: b :: a :: r))
    (hhigh : increase (l ++ b :: a :: b :: r) = increase (l ++ b :: b :: a :: r)) :
    b = 0 ∧ ∃ q ∈ r.head?, a ≤ q := by
  rw [increase_append l (a :: b :: r), increase_append l (b :: a :: r)] at hlow
  rw [increase_append l (a :: b :: r), increase_append l (b :: a :: r)] at hhigh
  have hlow := add_left_cancel hlow
  have hhigh := add_left_cancel hhigh
  simp only [increase_cons_cons, step_self, step_of_le hab.le, step_of_lt hab, zero_add]
    at hlow hhigh
  have hstep : increase (b :: r) = a + increase (a :: r) := by
    exact add_left_cancel hlow
  have hb : b = 0 := by
    rw [← hstep, ← add_assoc, add_sub_cancel] at hhigh
    exact add_eq_right.mp hhigh
  subst hb
  refine ⟨rfl, ?_⟩
  cases r with
  | nil => exact absurd (by simpa using hstep) hab.ne'
  | cons q r =>
    refine ⟨q, rfl, not_lt.mp fun hq => ?_⟩
    rw [increase_cons_cons, increase_cons_cons, step_of_lt hq, step_of_lt (hq.trans hab)] at hstep
    exact hab.ne (add_eq_right.mp hstep.symm)

/-- A negative reading that may be swapped with a zero behind others: what comes before is not
between them. -/
theorem swap_before (hneg : a < 0)
    (h : increase (l ++ a :: 0 :: a :: r) = increase (l ++ 0 :: a :: a :: r)) :
    ∃ p ∈ l.getLast?, ¬(a < p ∧ p < 0) := by
  rw [increase_append l (0 :: a :: r), increase_append l (a :: a :: r)] at h
  simp only [increase_cons_cons, step_self, step_of_le hneg.le, step_of_lt hneg, zero_add] at h
  rw [zero_sub, neg_add_cancel_left, ← add_assoc] at h
  have hstep : increase (l ++ [a]) = increase (l ++ [0]) + a := add_right_cancel h
  rcases List.eq_nil_or_concat' l with rfl | ⟨l, p, rfl⟩
  · exact absurd (by simpa using hstep) hneg.ne'
  · refine ⟨p, by simp, fun hp => ?_⟩
    rw [List.append_assoc, List.append_assoc, List.singleton_append, List.singleton_append,
      increase_append, increase_append l [0] p, add_assoc] at hstep
    have hstep := add_left_cancel hstep
    simp only [increase_cons_cons, increase_singleton, step_of_lt hp.1, step_of_le hp.2.le,
      add_zero, zero_sub] at hstep
    exact hp.2.ne (neg_eq_zero.mp (add_eq_right.mp hstep.symm))

end

end Counter
