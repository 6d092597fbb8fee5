import Mathlib.Data.List.Dedup
import Mathlib.Data.List.Rotate
import Mathlib.Data.List.Sort
import Mathlib.Data.List.TakeWhile
import Mathlib.Data.Option.NAry

/-!
# Queries over tables of rows

The fragment of SQL that a reporting query is made of, as functions on lists of rows: a
table is the list of its rows in the order a scan yields them, and a query computes a list
of rows from lists of rows.

Two things SQL leaves open are kept open here. A comparison with a missing value is
*unknown* (`Sql.Truth`), and a row is selected only where its condition is true. And rows
that the `ORDER BY` of a window does not tell apart may be numbered in any order: sorting
is a field of an `Sql.Engine`, about which only the two laws of a sort are known. A result
about every engine is a result about every way to break the ties.

What the results about programs need is mostly *where rows come from*: a row of a join, of
a group, of a window is made of rows of the operands (`mem_join`, `mem_groupBy`,
`mem_window`), so that what a query says about a few rows does not depend on
the others.
-/

namespace Sql

variable {α β κ : Type}

/-! ### Three-valued conditions -/

/-- The value of a condition: true, false, or unknown. -/
abbrev Truth := Option Bool

/-- Whether a condition selects its row: it is true, neither false nor unknown. -/
def Truth.holds (t : Truth) : Bool := t == some true

/-- Conjunction: false as soon as one side is, unknown when it could still be either. -/
def Truth.and : Truth → Truth → Truth
  | some false, _ => some false
  | _, some false => some false
  | some true, some true => some true
  | _, _ => none

@[simp] theorem Truth.holds_some (b : Bool) : Truth.holds (some b) = b := by
  cases b <;> rfl

@[simp] theorem Truth.holds_none : Truth.holds none = false := rfl

@[simp] theorem Truth.holds_and (s t : Truth) : (s.and t).holds = (s.holds && t.holds) := by
  rcases s with _ | _ | _ <;> rcases t with _ | _ | _ <;> rfl

/-- The conjunction of a list of conditions. -/
def conj (ts : List Truth) : Truth := ts.foldr Truth.and (some true)

/-- **A conjunction selects what each of its conditions selects.** -/
@[simp] theorem holds_conj (ts : List Truth) : (conj ts).holds = ts.all Truth.holds := by
  induction ts with
  | nil => rfl
  | cons t ts ih => rw [List.all_cons, ← ih, ← Truth.holds_and]; rfl

/-- A comparison of two values, unknown when either is missing. -/
def compare (p : α → β → Bool) (x : Option α) (y : Option β) : Truth := Option.map₂ p x y

@[simp] theorem compare_none_left (p : α → β → Bool) (y : Option β) :
    compare p none y = none := rfl

@[simp] theorem compare_some (p : α → β → Bool) (x : α) (y : β) :
    compare p (some x) (some y) = some (p x y) := rfl

/-! ### Selecting, joining, grouping -/

/-- `SELECT … WHERE`: the rows whose condition is true. -/
def select (cond : α → Truth) (rows : List α) : List α := rows.filter fun r => (cond r).holds

@[simp] theorem mem_select {cond : α → Truth} {rows : List α} {r : α} :
    r ∈ select cond rows ↔ r ∈ rows ∧ (cond r).holds = true := List.mem_filter

/-- `JOIN … ON`: the pairs of rows that match. -/
def join (on : α → β → Bool) (xs : List α) (ys : List β) : List (α × β) :=
  xs.flatMap fun x => (ys.filter (on x)).map fun y => (x, y)

@[simp] theorem mem_join {on : α → β → Bool} {xs : List α} {ys : List β} {r : α × β} :
    r ∈ join on xs ys ↔ r.1 ∈ xs ∧ r.2 ∈ ys ∧ on r.1 r.2 = true := by
  obtain ⟨x, y⟩ := r
  simp only [join, List.mem_flatMap, List.mem_map, List.mem_filter, Prod.mk.injEq]
  constructor
  · rintro ⟨x', hx, y', ⟨hy, hon⟩, rfl, rfl⟩
    exact ⟨hx, hy, hon⟩
  · rintro ⟨hx, hy, hon⟩
    exact ⟨x, hx, y, ⟨hy, hon⟩, rfl, rfl⟩

/-- **A join looks no further than the rows that match**: the right side may be replaced by
any table with the same matches. -/
theorem join_congr {on : α → β → Bool} {xs : List α} {ys ys' : List β}
    (h : ∀ x ∈ xs, ys.filter (on x) = ys'.filter (on x)) : join on xs ys = join on xs ys' := by
  refine List.flatMap_congr fun x hx => ?_
  rw [h x hx]

theorem join_filter_right {on : α → β → Bool} {xs : List α} {ys : List β} {q : β → Bool} :
    join on xs (ys.filter q) = (join on xs ys).filter fun r => q r.2 := by
  rw [join, join, List.filter_flatMap]
  refine List.flatMap_congr fun x _ => ?_
  rw [List.filter_map, List.filter_filter, List.filter_filter]
  exact congrArg _ (List.filter_congr fun y _ => Bool.and_comm _ _)

/-- A join whose matches pass the test of one side when they pass that of the other may be
filtered on both sides. -/
theorem join_filter_both (on : α → β → Bool) (p : α → Bool) (q : β → Bool) {xs : List α}
    {ys : List β} (h : ∀ x ∈ xs, ∀ y ∈ ys, on x y = true → p x = q y) :
    join on (xs.filter p) (ys.filter q) = (join on xs ys).filter fun r => p r.1 := by
  induction xs with
  | nil => rfl
  | cons x xs ih =>
    have ih := ih fun x' hx' => h x' (List.mem_cons_of_mem _ hx')
    have hx := h x (List.mem_cons_self ..)
    simp only [join] at ih ⊢
    rw [List.flatMap_cons, List.filter_append, ← ih, List.filter_map]
    change _ = List.map _ ((ys.filter (on x)).filter fun _ => p x) ++ _
    by_cases hp : p x = true
    · have hkeep : (ys.filter q).filter (on x) = ys.filter (on x) := by
        rw [List.filter_filter]
        refine List.filter_congr fun y hy => ?_
        by_cases hon : on x y = true
        · rw [← hx y hy hon, hp, Bool.and_true]
        · simp [hon]
      rw [List.filter_cons_of_pos hp, List.flatMap_cons, hkeep,
        List.filter_eq_self.mpr fun _ _ => hp]
    · have hnone : (ys.filter (on x)).filter (fun _ => p x) = [] :=
        List.filter_eq_nil_iff.mpr fun _ _ => hp
      rw [List.filter_cons_of_neg hp, hnone, List.map_nil, List.nil_append]

/-- `LEFT JOIN … ON`: the pairs of rows that match, and the left rows that match none. -/
def leftJoin (on : α → β → Bool) (xs : List α) (ys : List β) : List (α × Option β) :=
  xs.flatMap fun x =>
    match ys.filter (on x) with
    | [] => [(x, none)]
    | y :: ys => (y :: ys).map fun y => (x, some y)

theorem mem_of_mem_leftJoin {on : α → β → Bool} {xs : List α} {ys : List β} {r : α × Option β}
    (h : r ∈ leftJoin on xs ys) : r.1 ∈ xs := by
  obtain ⟨x, hx, hr⟩ := List.mem_flatMap.mp h
  split at hr
  · rw [List.mem_singleton.mp hr]
    exact hx
  · obtain ⟨y, -, rfl⟩ := List.mem_map.mp hr
    exact hx

/-- `GROUP BY`: the rows under each value of the key. -/
def groupBy [DecidableEq κ] (key : α → κ) (rows : List α) : List (κ × List α) :=
  (rows.map key).dedup.map fun k => (k, rows.filter fun r => decide (key r = k))

/-- **A group is what its key says**: the rows with that key, of which there is one. -/
theorem mem_groupBy [DecidableEq κ] {key : α → κ} {rows : List α} {g : κ × List α} :
    g ∈ groupBy key rows ↔
      (∃ r ∈ rows, key r = g.1) ∧ g.2 = rows.filter fun r => decide (key r = g.1) := by
  obtain ⟨k, rs⟩ := g
  simp only [groupBy, List.mem_map, List.mem_dedup, Prod.mk.injEq]
  constructor
  · rintro ⟨k', hk, rfl, rfl⟩
    exact ⟨hk, rfl⟩
  · rintro ⟨hk, hrs⟩
    exact ⟨k, hk, rfl, hrs.symm⟩

theorem mem_of_mem_groupBy [DecidableEq κ] {key : α → κ} {rows : List α} {g : κ × List α} {r : α}
    (hg : g ∈ groupBy key rows) (hr : r ∈ g.2) : r ∈ rows ∧ key r = g.1 := by
  rw [(mem_groupBy.mp hg).2] at hr
  simpa using hr

theorem ne_nil_of_mem_groupBy [DecidableEq κ] {key : α → κ} {rows : List α} {g : κ × List α}
    (hg : g ∈ groupBy key rows) : g.2 ≠ [] := by
  obtain ⟨⟨r, hr, hkey⟩, hrows⟩ := mem_groupBy.mp hg
  rw [hrows]
  exact List.ne_nil_of_mem (List.mem_filter.mpr ⟨hr, by simpa using hkey⟩)

/-! ### Windows -/

/-- What is known of a sort of an engine: it returns the rows it was given, in an order that
respects the comparison whenever some order does. -/
structure Engine where
  /-- Sort rows by a comparison. -/
  sort : {α : Type} → (α → α → Bool) → List α → List α
  /-- No row is lost and none appears. -/
  sort_perm : ∀ {α : Type} (le : α → α → Bool) (rows : List α), (sort le rows).Perm rows
  /-- The rows come out in order. -/
  sort_pairwise : ∀ {α : Type} (le : α → α → Bool) (rows : List α),
    (∀ a b, le a b = true ∨ le b a = true) → (∀ a b c, le a b = true → le b c = true →
      le a c = true) → (sort le rows).Pairwise fun a b => le a b = true

/-- The engine that leaves rows it cannot tell apart in the order of the scan. -/
def Engine.stable : Engine where
  sort le rows := rows.insertionSort fun a b => le a b = true
  sort_perm _ rows := List.perm_insertionSort _ rows
  sort_pairwise le rows htotal htrans :=
    haveI : Std.Total fun a b => le a b = true := ⟨htotal⟩
    haveI : IsTrans _ fun a b => le a b = true := ⟨htrans⟩
    List.pairwise_insertionSort _ rows

namespace Engine

/-- The engine that starts its scan at a row of its own choice. -/
def rotated (n : ℕ) : Engine where
  sort le rows := (rows.rotate n).insertionSort fun a b => le a b = true
  sort_perm _ rows := (List.perm_insertionSort _ _).trans (List.rotate_perm rows n)
  sort_pairwise le rows htotal htrans :=
    haveI : Std.Total fun a b => le a b = true := ⟨htotal⟩
    haveI : IsTrans _ fun a b => le a b = true := ⟨htrans⟩
    List.pairwise_insertionSort _ (rows.rotate n)

/-- **Any row may come out before those that the order does not tell from it.** -/
theorem exists_sort_eq (le : α → α → Bool) {rows : List α} {a : α} (h : a ∈ rows) :
    ∃ (E : Engine) (l₁ l₂ : List α), E.sort le rows = l₁ ++ a :: l₂ ∧ ∀ b ∈ l₁, ¬le a b = true := by
  obtain ⟨s, t, rfl⟩ := List.append_of_mem h
  let sorted := (t ++ s).insertionSort fun a b => le a b = true
  refine ⟨rotated s.length, sorted.takeWhile fun b => decide ¬le a b = true,
    sorted.dropWhile fun b => decide ¬le a b = true, ?_, fun b hb => ?_⟩
  · -- the row is the last one to be inserted
    change ((s ++ a :: t).rotate s.length).insertionSort _ = _
    rw [List.rotate_append_length_eq, List.cons_append, List.insertionSort_cons,
      List.orderedInsert_eq_take_drop]
  · have hnot := List.mem_takeWhile_imp hb
    exact of_decide_eq_true hnot

variable (E : Engine)

@[simp] theorem mem_sort {le : α → α → Bool} {rows : List α} {r : α} :
    r ∈ E.sort le rows ↔ r ∈ rows := (E.sort_perm le rows).mem_iff

@[simp] theorem sort_nil (le : α → α → Bool) : E.sort le [] = [] :=
  (E.sort_perm le []).eq_nil

@[simp] theorem sort_singleton (le : α → α → Bool) (r : α) : E.sort le [r] = [r] :=
  List.perm_singleton.mp (E.sort_perm le [r])

/-- `SELECT DISTINCT … ORDER BY`: the values in order, each once. -/
def distinct [LinearOrder α] (values : List α) : List α :=
  E.sort (fun a b => decide (a ≤ b)) values.dedup

@[simp] theorem mem_distinct [LinearOrder α] {values : List α} {a : α} :
    a ∈ E.distinct values ↔ a ∈ values := by
  rw [distinct, mem_sort, List.mem_dedup]

/-- **Distinct values come in strict order.** -/
theorem pairwise_distinct [LinearOrder α] (values : List α) :
    (E.distinct values).Pairwise (· < ·) := by
  have hle := E.sort_pairwise (fun a b : α => decide (a ≤ b)) values.dedup
    (fun a b => by simpa using le_total a b) fun a b c hab hbc => by
      simp only [decide_eq_true_eq] at hab hbc ⊢
      exact hab.trans hbc
  have hne : (E.distinct values).Pairwise (· ≠ ·) :=
    (E.sort_perm _ values.dedup).nodup_iff.mpr (List.nodup_dedup values)
  exact (hle.and hne).imp fun h => lt_of_le_of_ne (of_decide_eq_true h.1) h.2

/-- A row in a window: with the one before it in its partition, and its number there. -/
structure WindowRow (α : Type) where
  /-- The row. -/
  row : α
  /-- The row before it. -/
  prev : Option α
  /-- Its number, from 1. -/
  number : ℕ

/-- `WINDOW w AS (PARTITION BY key ORDER BY le)`: the rows of each partition in order. -/
def window [DecidableEq κ] (key : α → κ) (le : α → α → Bool) (rows : List α) :
    List (WindowRow α) :=
  (groupBy key rows).flatMap fun g =>
    let sorted := E.sort le g.2
    ((sorted.zip (none :: sorted.map some)).zipIdx 1).map fun r => ⟨r.1.1, r.1.2, r.2⟩

/-- **The rows of a window are those of the table.** -/
theorem mem_window [DecidableEq κ] {key : α → κ} {le : α → α → Bool} {rows : List α}
    {w : WindowRow α} (h : w ∈ E.window key le rows) : w.row ∈ rows := by
  obtain ⟨g, hg, hw⟩ := List.mem_flatMap.mp h
  obtain ⟨r, hr, rfl⟩ := List.mem_map.mp hw
  have hzip := List.fst_mem_of_mem_zipIdx hr
  have hs := (List.of_mem_zip (Prod.mk.eta (p := r.1) ▸ hzip)).1
  exact (mem_of_mem_groupBy hg (E.mem_sort.mp hs)).1

/-- `ROW_NUMBER() OVER w`. -/
def rowNumber [DecidableEq κ] (key : α → κ) (le : α → α → Bool) (rows : List α) :
    List (α × ℕ) :=
  (E.window key le rows).map fun w => (w.row, w.number)

theorem mem_rowNumber [DecidableEq κ] {key : α → κ} {le : α → α → Bool} {rows : List α}
    {r : α × ℕ} (h : r ∈ E.rowNumber key le rows) : r.1 ∈ rows := by
  obtain ⟨w, hw, rfl⟩ := List.mem_map.mp h
  exact E.mem_window hw

/-- `LAG(…) OVER w`. -/
def lag [DecidableEq κ] (key : α → κ) (le : α → α → Bool) (rows : List α) :
    List (α × Option α) :=
  (E.window key le rows).map fun w => (w.row, w.prev)

theorem mem_lag [DecidableEq κ] {key : α → κ} {le : α → α → Bool} {rows : List α}
    {r : α × Option α} (h : r ∈ E.lag key le rows) : r.1 ∈ rows := by
  obtain ⟨w, hw, rfl⟩ := List.mem_map.mp h
  exact E.mem_window hw

end Engine

/-- An aggregate `OVER (PARTITION BY key)`: each row with the rows of its partition. -/
def overPartition [DecidableEq κ] (key : α → κ) (rows : List α) : List (α × List α) :=
  (groupBy key rows).flatMap fun g => g.2.map fun r => (r, g.2)

theorem mem_overPartition [DecidableEq κ] {key : α → κ} {rows : List α} {r : α × List α}
    (h : r ∈ overPartition key rows) : r.1 ∈ rows := by
  obtain ⟨g, hg, hr⟩ := List.mem_flatMap.mp h
  obtain ⟨r', hr', rfl⟩ := List.mem_map.mp hr
  exact (mem_of_mem_groupBy hg hr').1

/-! ### Some of the partitions

A test on rows that tells nothing but their partition keeps whole partitions. What a window or a
group says of a row is then the same whether the test comes before or after. -/

theorem dedup_filter [DecidableEq α] (p : α → Bool) (l : List α) :
    (l.filter p).dedup = l.dedup.filter p := by
  induction l with
  | nil => rfl
  | cons a l ih =>
    by_cases hp : p a = true
    · rw [List.filter_cons_of_pos hp]
      by_cases ha : a ∈ l
      · rw [List.dedup_cons_of_mem ha, List.dedup_cons_of_mem (List.mem_filter.mpr ⟨ha, hp⟩), ih]
      · have ha' : a ∉ l.filter p := fun h => ha (List.mem_of_mem_filter h)
        rw [List.dedup_cons_of_notMem ha, List.dedup_cons_of_notMem ha', ih,
          List.filter_cons_of_pos hp]
    · rw [List.filter_cons_of_neg hp, ih]
      by_cases ha : a ∈ l
      · rw [List.dedup_cons_of_mem ha]
      · rw [List.dedup_cons_of_notMem ha, List.filter_cons_of_neg hp]

/-- **Grouping the rows of some keys** gives the groups of these keys. -/
theorem groupBy_filter [DecidableEq κ] {key : α → κ} {q : α → Bool} {Q : κ → Bool} {rows : List α}
    (hq : ∀ r ∈ rows, q r = Q (key r)) :
    groupBy key (rows.filter q) = (groupBy key rows).filter fun g => Q g.1 := by
  have hkeys : (rows.filter q).map key = (rows.map key).filter Q := by
    rw [List.filter_map]
    exact congrArg _ (List.filter_congr fun r hr => hq r hr)
  rw [groupBy, hkeys, dedup_filter, groupBy, List.filter_map]
  refine List.map_congr_left fun k hk => Prod.ext rfl ?_
  change (rows.filter q).filter _ = _
  rw [List.filter_filter]
  refine List.filter_congr fun r hr => ?_
  by_cases hkey : key r = k
  · have hQ : Q k = true := (List.mem_filter.mp hk).2
    simp [hkey, hq r hr, hQ]
  · simp [hkey]

/-- What is computed row by row is computed from some of the rows alone, when its results tell
which. -/
theorem flatMap_filter {rows : List α} {f : α → List β} {c : α → Bool} {p : β → Bool}
    (h : ∀ r ∈ rows, ∀ x ∈ f r, p x = c r) :
    (rows.filter c).flatMap f = (rows.flatMap f).filter p := by
  induction rows with
  | nil => rfl
  | cons r rows ih =>
    have ih := ih fun r' hr' => h r' (List.mem_cons_of_mem _ hr')
    have hr := h r (List.mem_cons_self ..)
    rw [List.flatMap_cons, List.filter_append, ← ih]
    by_cases hc : c r = true
    · have hall : (f r).filter p = f r :=
        List.filter_eq_self.mpr fun x hx => (hr x hx).trans hc
      rw [List.filter_cons_of_pos hc, List.flatMap_cons, hall]
    · have hnone : (f r).filter p = [] :=
        List.filter_eq_nil_iff.mpr fun x hx hp => hc ((hr x hx).symm.trans hp)
      rw [List.filter_cons_of_neg hc, hnone, List.nil_append]

/-- A test that tells no two rows of one partition apart is a test on partitions. -/
theorem exists_test_of_key [DecidableEq κ] (key : α → κ) (q : α → Bool) {rows : List α}
    (h : ∀ r ∈ rows, ∀ r' ∈ rows, key r = key r' → q r = q r') :
    ∃ Q : κ → Bool, ∀ r ∈ rows, q r = Q (key r) := by
  refine ⟨fun k => rows.any fun r => decide (key r = k) && q r, fun r hr => ?_⟩
  rw [Bool.eq_iff_iff, List.any_eq_true]
  constructor
  · intro hq
    exact ⟨r, hr, by simp [hq]⟩
  · rintro ⟨r', hr', htest⟩
    rw [Bool.and_eq_true, decide_eq_true_eq] at htest
    rw [h r hr r' hr' htest.1.symm]
    exact htest.2

namespace Engine

variable (E : Engine)

/-- **A window over the rows of some partitions** is the window of these partitions. -/
theorem window_filter [DecidableEq κ] {key : α → κ} {le : α → α → Bool} {q : α → Bool}
    {Q : κ → Bool} {rows : List α} (hq : ∀ r ∈ rows, q r = Q (key r)) :
    E.window key le (rows.filter q) = (E.window key le rows).filter fun w => q w.row := by
  rw [window, groupBy_filter hq]
  refine flatMap_filter fun g hg w hw => ?_
  have hrow : w.row ∈ g.2 := by
    obtain ⟨r, hr, rfl⟩ := List.mem_map.mp hw
    have hzip := List.fst_mem_of_mem_zipIdx hr
    exact E.mem_sort.mp (List.of_mem_zip (Prod.mk.eta (p := r.1) ▸ hzip)).1
  obtain ⟨hmem, hkey⟩ := mem_of_mem_groupBy hg hrow
  rw [hq _ hmem, hkey]

theorem rowNumber_filter [DecidableEq κ] {key : α → κ} {le : α → α → Bool} {q : α → Bool}
    {Q : κ → Bool} {rows : List α} (hq : ∀ r ∈ rows, q r = Q (key r)) :
    E.rowNumber key le (rows.filter q) = (E.rowNumber key le rows).filter fun r => q r.1 := by
  rw [rowNumber, E.window_filter hq, rowNumber, List.filter_map]
  rfl

theorem lag_filter [DecidableEq κ] {key : α → κ} {le : α → α → Bool} {q : α → Bool}
    {Q : κ → Bool} {rows : List α} (hq : ∀ r ∈ rows, q r = Q (key r)) :
    E.lag key le (rows.filter q) = (E.lag key le rows).filter fun r => q r.1 := by
  rw [lag, E.window_filter hq, lag, List.filter_map]
  rfl

end Engine

theorem overPartition_filter [DecidableEq κ] {key : α → κ} {q : α → Bool} {Q : κ → Bool}
    {rows : List α} (hq : ∀ r ∈ rows, q r = Q (key r)) :
    overPartition key (rows.filter q) = (overPartition key rows).filter fun r => q r.1 := by
  rw [overPartition, groupBy_filter hq]
  refine flatMap_filter fun g hg r hr => ?_
  obtain ⟨r', hr', rfl⟩ := List.mem_map.mp hr
  obtain ⟨hmem, hkey⟩ := mem_of_mem_groupBy hg hr'
  rw [hq _ hmem, hkey]

end Sql
