import Mathlib.Algebra.Order.Field.Basic
import Mathlib.Data.Int.Cast.Lemmas
import Skaldberg.Lib.Counter

/-!
# Readings over time

A list of readings, each with the time it was taken at, in the order of these times. What a function
of a time series makes of them comes down to a few quantities: the time they cover (`extent`), the
last reading less the first (`spread`), the increase of a counter that may have restarted
(`growth`), the increase per unit of time (`meanRate`), and the same over the last two readings
alone (`lastRate`).

Whether a reading that comes before all others makes a difference to such a quantity is said here
for each of them: to the growth, when the counter has moved to the second reading
(`growth_cons_eq_iff`); to the mean rate, when it has moved at another rate than afterwards
(`meanRate_cons_eq_iff`); to the last two readings never (`lastRate_cons`).
-/

namespace TimeSeries

variable {K : Type} [Field K] [LinearOrder K]

/-- The time from the first reading to the last. -/
def extent : List (ℤ × K) → ℤ
  | [] => 0
  | first :: rest => (rest.getLastD first).1 - first.1

/-- The last reading less the first. -/
def spread : List (ℤ × K) → K
  | [] => 0
  | first :: rest => (rest.getLastD first).2 - first.2

/-- The increase of a counter over its readings. -/
def growth (l : List (ℤ × K)) : K := Counter.increase (l.map Prod.snd)

/-- The increase per unit of time. -/
def meanRate (l : List (ℤ × K)) : K := growth l / (extent l : K)

/-- The increase per unit of time over the last two readings. -/
def lastRate : List (ℤ × K) → K
  | [] => 0
  | [_] => 0
  | [a, b] => Counter.step a.2 b.2 / ((b.1 - a.1 : ℤ) : K)
  | _ :: b :: c :: l => lastRate (b :: c :: l)

theorem growth_cons_cons (e a : ℤ × K) (l : List (ℤ × K)) :
    growth (e :: a :: l) = Counter.step e.2 a.2 + growth (a :: l) := rfl

omit [Field K] [LinearOrder K] in
theorem extent_cons_cons (e a : ℤ × K) (l : List (ℤ × K)) :
    extent (e :: a :: l) = (a.1 - e.1) + extent (a :: l) := by
  have hlast : (a :: l).getLastD e = l.getLastD a := List.getLastD_cons
  rw [extent, extent, hlast]
  omega

theorem lastRate_append (l : List (ℤ × K)) (a b : ℤ × K) :
    lastRate (l ++ [a, b]) = Counter.step a.2 b.2 / ((b.1 - a.1 : ℤ) : K) := by
  induction l with
  | nil => rfl
  | cons c l ih =>
    obtain ⟨x, y, rest, hrest⟩ : ∃ x y rest, l ++ [a, b] = x :: y :: rest := by
      cases l with
      | nil => exact ⟨a, b, [], rfl⟩
      | cons x l =>
        obtain ⟨y, rest, hy⟩ := List.exists_cons_of_ne_nil (l := l ++ [a, b]) (by simp)
        exact ⟨x, y, rest, congrArg (x :: ·) hy⟩
    rw [List.cons_append, ← ih, hrest, lastRate]

omit [Field K] [LinearOrder K] in
/-- Readings at increasing times cover some time, if there are two. -/
theorem extent_pos {a b : ℤ × K} {l : List (ℤ × K)}
    (h : ((a :: b :: l).map Prod.fst).Pairwise (· < ·)) : 0 < extent (a :: b :: l) := by
  have hlast : (b :: l).getLastD a ∈ b :: l := by
    rw [List.getLastD_cons]
    exact List.getLastD_mem_cons
  have hlt := (List.pairwise_cons.mp h).1 _ (List.mem_map_of_mem (f := Prod.fst) hlast)
  exact sub_pos.mpr hlt

/-! ### A reading before all others -/

/-- **The growth is the same without the first reading** if the counter has not moved from it. -/
theorem growth_cons_eq_iff (e a : ℤ × K) (l : List (ℤ × K)) :
    growth (e :: a :: l) = growth (a :: l) ↔ Counter.step e.2 a.2 = 0 := by
  rw [growth_cons_cons, add_eq_right]

omit [LinearOrder K] in
/-- The spread is, if the second reading is the first one again. -/
theorem spread_cons_eq_iff (e a : ℤ × K) (l : List (ℤ × K)) :
    spread (e :: a :: l) = spread (a :: l) ↔ e.2 = a.2 := by
  have hlast : (a :: l).getLastD e = l.getLastD a := List.getLastD_cons
  rw [spread, spread, hlast, sub_right_inj]

/-- The last rate always is. -/
theorem lastRate_cons (e a b : ℤ × K) (l : List (ℤ × K)) :
    lastRate (e :: a :: b :: l) = lastRate (a :: b :: l) := rfl

/-- **The mean rate is**, if the counter has moved from the first reading at the mean rate of the
others. -/
theorem meanRate_cons_eq_iff [IsStrictOrderedRing K] {e a : ℤ × K} {l : List (ℤ × K)}
    (hfirst : e.1 < a.1) (hext : 0 < extent (a :: l)) :
    meanRate (e :: a :: l) = meanRate (a :: l) ↔
      Counter.step e.2 a.2 * (extent (a :: l) : K) =
        growth (a :: l) * ((a.1 - e.1 : ℤ) : K) := by
  have hd : ((extent (a :: l) : ℤ) : K) ≠ 0 := by exact_mod_cast hext.ne'
  have hsum : ((extent (e :: a :: l) : ℤ) : K) ≠ 0 := by
    rw [extent_cons_cons]
    exact_mod_cast (by omega : a.1 - e.1 + extent (a :: l) ≠ 0)
  rw [meanRate, meanRate, div_eq_div_iff hsum hd, growth_cons_cons, extent_cons_cons, Int.cast_add,
    add_mul, mul_add]
  constructor
  · intro h
    exact add_right_cancel h
  · intro h
    rw [h]

/-! ### The left edge of a window -/

omit [Field K] [LinearOrder K] in
/-- **A window that also has its left edge** has the reading there in front of the others. -/
theorem filter_eq_cons {l : List (ℤ × K)} {e : ℤ × K} {p q : ℤ → Bool}
    (hsorted : (l.map Prod.fst).Pairwise (· < ·)) (he : e ∈ l)
    (hp : ∀ ts, p ts = true ↔ ts = e.1 ∨ q ts = true) (hq : ∀ ts, q ts = true → e.1 < ts) :
    (l.filter fun s => p s.1) = e :: l.filter fun s => q s.1 := by
  induction l with
  | nil => exact absurd he List.not_mem_nil
  | cons a l ih =>
    obtain ⟨hfirst, hrest⟩ := List.pairwise_cons.mp hsorted
    rcases List.mem_cons.mp he with rfl | he
    · have hkeep : ∀ s ∈ l, p s.1 = q s.1 := fun s hs => by
        have hlt := hfirst _ (List.mem_map_of_mem (f := Prod.fst) hs)
        rw [Bool.eq_iff_iff, hp, or_iff_right hlt.ne']
      have hin : p e.1 = true := (hp e.1).mpr (.inl rfl)
      have hout : ¬q e.1 = true := fun hin => lt_irrefl _ (hq _ hin)
      rw [List.filter_cons_of_pos (by exact hin), List.filter_cons_of_neg (by exact hout),
        List.filter_congr hkeep]
    · -- the reading in front is before the edge, and in neither window
      have hlt := hfirst _ (List.mem_map_of_mem (f := Prod.fst) he)
      have hout : ¬q a.1 = true := fun hin => (hq _ hin).not_gt hlt
      have hout' : ¬p a.1 = true := fun hin => ((hp a.1).mp hin).elim hlt.ne hout
      rw [List.filter_cons_of_neg (by exact hout'), List.filter_cons_of_neg (by exact hout),
        ih hrest he]

end TimeSeries
