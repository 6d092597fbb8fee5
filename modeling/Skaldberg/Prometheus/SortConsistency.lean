import Skaldberg.Lib.Comparator
import Skaldberg.Prometheus.Evaluate
import Skaldberg.Prometheus.Histogram
import Skaldberg.Prometheus.TopKRefinement

/-!
# The comparisons of the sorts

The program sorts points by their values, for `topk`, and the buckets of a histogram by their
bounds. Its comparison takes two values that are not comparable for equal. So what is no number is
equal to every value, and the comparison is one that a sort is promised to sort by exactly if there
is no such value in the list, or all the others are equal (`sortSound_iff`); and then a cut leaves
out no value that is better than one it keeps.

What a query sorts are the groups of its points (`topkInstantSorts`, `topkRangeSorts`,
`histogramInstantSorts`, `histogramRangeSorts`), and a division of zero by zero or a bound `NaN` is
among them in a run of the program (`topk_drops_better`).
-/

namespace Skaldberg.Prometheus

/-! ### The comparison -/

section Comparison

variable {F : Type} [F64 F]

/-- `partial_cmp`. -/
def partialCmp (a b : F) : Option Ordering :=
  if F64.lt a b then some .lt
  else if F64.lt b a then some .gt
  else if F64.eq a b then some .eq
  else none

/-- The comparison passed to `sort_by`. -/
def compareValues (top : Bool) (a b : F) : Ordering :=
  let ord := (partialCmp a b).getD .eq
  if top then ord.swap else ord

end Comparison

/-- Where a number stands in the order of numbers, the infinities included. -/
def orderKey : Exact → Option (ℤ ×ₗ ℚ)
  | .nan => none
  | v => some (toLex (v.rank, v.toRat))

theorem orderKey_of_ne {v : Exact} (h : v ≠ .nan) :
    orderKey v = some (toLex (v.rank, v.toRat)) := by
  cases v with
  | nan => exact absurd rfl h
  | num q => rfl
  | inf => rfl
  | negInf => rfl

theorem totalLe_iff (v w : Exact) : Exact.totalLe v w = true ↔
    toLex (v.rank, v.toRat) ≤ toLex (w.rank, w.toRat) := by
  rw [Exact.totalLe, Bool.or_eq_true, decide_eq_true_eq, decide_eq_true_eq,
    Prod.Lex.toLex_le_toLex]

theorem lt_iff {v w : Exact} (hv : v ≠ .nan) (hw : w ≠ .nan) :
    F64.lt v w = true ↔ toLex (v.rank, v.toRat) < toLex (w.rank, w.toRat) := by
  change (v != .nan && w != .nan && !Exact.totalLe w v) = true ↔ _
  rw [bne_iff_ne.mpr hv, bne_iff_ne.mpr hw, ← not_le, ← totalLe_iff]
  simp

/-- **The comparison is that of the numbers**, and anything else is equal to all. -/
theorem getD_partialCmp (v w : Exact) :
    (partialCmp v w).getD .eq = Comparator.byKey orderKey v w := by
  by_cases hnan : v = .nan ∨ w = .nan
  · have hkey : orderKey v = none ∨ orderKey w = none :=
      hnan.imp (fun h => by rw [h]; rfl) fun h => by rw [h]; rfl
    have hlt : F64.lt v w = false ∧ F64.lt w v = false ∧ F64.eq v w = false := by
      rcases hnan with rfl | rfl
      · cases w <;> exact ⟨rfl, rfl, rfl⟩
      · cases v <;> exact ⟨rfl, rfl, rfl⟩
    rw [Comparator.byKey_none hkey, partialCmp, hlt.1, hlt.2.1, hlt.2.2]
    rfl
  · obtain ⟨hv, hw⟩ := not_or.mp hnan
    rw [Comparator.byKey_some (orderKey_of_ne hv) (orderKey_of_ne hw), partialCmp]
    split_ifs with hlt hgt heq
    · exact (compare_lt_iff_lt.mpr ((lt_iff hv hw).mp hlt)).symm
    · exact (compare_gt_iff_gt.mpr ((lt_iff hw hv).mp hgt)).symm
    all_goals
      rw [lt_iff hv hw, not_lt] at hlt
      rw [lt_iff hw hv, not_lt] at hgt
      exact (compare_eq_iff_eq.mpr (le_antisymm hgt hlt)).symm

theorem compareValues_false (v w : Exact) :
    compareValues false v w = Comparator.byKey orderKey v w := getD_partialCmp v w

/-- The sort of a list is by the comparison. -/
theorem rustOrder_eq (top : Bool) (v w : Exact) :
    rustOrder top v w = (compareValues top v w).isLE := by
  have hlt : ∀ v w : Exact, F64.lt v w = true → F64.lt w v = false := by
    intro v w h
    by_contra hgt
    rw [Bool.not_eq_false] at hgt
    by_cases hv : v = .nan
    · subst hv
      cases w <;> cases h
    · by_cases hw : w = .nan
      · subst hw
        cases v <;> cases h
      · exact lt_asymm ((lt_iff hv hw).mp h) ((lt_iff hw hv).mp hgt)
  have hle : ∀ v w : Exact, (!F64.lt w v) = ((partialCmp v w).getD .eq).isLE := by
    intro v w
    rw [partialCmp]
    split_ifs with h h'
    · rw [hlt v w h]
      rfl
    · rw [h']
      rfl
    · rw [Bool.not_eq_true] at h'
      rw [h']
      rfl
    · rw [Bool.not_eq_true] at h'
      rw [h']
      rfl
  cases top with
  | false => exact hle v w
  | true =>
    have hswap : (partialCmp w v).getD .eq = ((partialCmp v w).getD .eq).swap := by
      rw [getD_partialCmp, getD_partialCmp, Comparator.byKey_swap]
    show (!F64.lt v w) = _
    rw [hle w v, hswap]
    rfl

/-! ### Sorted lists -/

/-- No value is other than a number, or all the numbers are equal. -/
def NumbersAlike (vs : List Exact) : Prop :=
  (∀ v ∈ vs, v ≠ .nan) ∨ ∀ v ∈ vs, ∀ w ∈ vs, v ≠ .nan → w ≠ .nan → v = w

/-- A list is sorted by a comparison that orders it, and a cut of the sorted list leaves out none
that is better than one it keeps. -/
structure SortSound {α : Type} (top : Bool) (value : α → Exact) (l : List α) : Prop where
  /-- The comparison orders the list. -/
  consistent : Comparator.Consistent (fun a b => compareValues top (value a) (value b)) l
  /-- A cut takes the best. -/
  isTop : ∀ n, Sql.IsTop (fun a b => rustOrder top (value a) (value b)) n l
    ((sortByValue top value l).take n)

theorem alike_orderKey_iff (vs : List Exact) :
    Comparator.Alike orderKey vs ↔ NumbersAlike vs := by
  have hsome : ∀ v : Exact, (orderKey v).isSome ↔ v ≠ .nan := by
    intro v
    cases v <;> simp [orderKey]
  have hinj : ∀ v w : Exact, v ≠ .nan → w ≠ .nan →
      toLex (v.rank, v.toRat) = toLex (w.rank, w.toRat) → v = w := fun v w _ _ h =>
    Exact.totalLe_antisymm ((totalLe_iff v w).mpr h.le) ((totalLe_iff w v).mpr h.ge)
  refine or_congr (forall₂_congr fun v _ => hsome v) ?_
  constructor
  · intro h v hv w hw hvnan hwnan
    exact hinj v w hvnan hwnan (h v hv w hw _ _ (orderKey_of_ne hvnan) (orderKey_of_ne hwnan))
  · intro h v hv w hw x y hx hy
    have hvnan := (hsome v).mp (hx ▸ rfl)
    have hwnan := (hsome w).mp (hy ▸ rfl)
    rw [h v hv w hw hvnan hwnan] at hx
    exact Option.some.inj (hx.symm.trans hy)

theorem consistent_compareValues_iff (top : Bool) (vs : List Exact) :
    Comparator.Consistent (compareValues top) vs ↔ NumbersAlike vs := by
  have hfalse : Comparator.Consistent (compareValues false) vs ↔ NumbersAlike vs := by
    rw [← alike_orderKey_iff, ← Comparator.consistent_byKey_iff]
    exact iff_of_eq (congrArg (Comparator.Consistent · vs)
      (funext fun v => funext fun w => compareValues_false v w))
  cases top with
  | false => exact hfalse
  | true => exact Comparator.consistent_swap_iff.trans hfalse

/-- **When a sort is sound**: exactly if no value is other than a number, or all the numbers are
equal. -/
theorem sortSound_iff {α : Type} (top : Bool) (value : α → Exact) (l : List α) :
    SortSound top value l ↔ NumbersAlike (l.map value) := by
  have hcmp : Comparator.Consistent (fun a b => compareValues top (value a) (value b)) l ↔
      NumbersAlike (l.map value) :=
    Comparator.consistent_map_iff.symm.trans (consistent_compareValues_iff top _)
  refine ⟨fun h => hcmp.mp h.consistent, fun h => ⟨hcmp.mpr h, fun n => ?_⟩⟩
  have hsorted := (hcmp.mpr h).pairwise_insertionSort
  simp only [← rustOrder_eq] at hsorted
  exact Sql.isTop_take (List.perm_insertionSort _ l) hsorted n

/-! ### What a query sorts -/

section Sorts

variable {F : Type}

/-- The groups of some points. -/
def groupsOf {α : Type} (labels : α → Labels) (modifier : Option LabelModifier) (inner : List α) :
    List (List α) :=
  (inner.foldl (fun m p => m.push (retainedLabels (labels p) modifier) p)
    (.empty : SortedMap Labels (List α))).values

/-- What `topk_instant_points` sorts: its groups. -/
def topkInstantSorts (inner : List (InstantPoint F)) (n : ℕ) (modifier : Option LabelModifier) :
    List (List (InstantPoint F)) :=
  if n = 0 then [] else groupsOf InstantPoint.labels modifier inner

/-- The timestamps of the members of a group. -/
def timesOf (members : List (RangePoints F)) : List ℤ :=
  (SortedMap.ofList (members.flatMap fun m => m.points.map fun p => (p.1, ()))).keys

/-- What `topk_range_points` sorts: the values of its groups at each of their timestamps. -/
def topkRangeSorts (inner : List (RangePoints F)) (n : ℕ) (modifier : Option LabelModifier) :
    List (ℤ × List (RangePoints F × F)) :=
  if n = 0 then []
  else
    (groupsOf RangePoints.labels modifier inner).flatMap fun members =>
      (timesOf members).map fun ts => (ts, valuesAt ts members)

variable [F64 F]

/-- The buckets of each group, for `histogram_quantile_instant`. -/
def histogramInstantGroups (inner : List (InstantPoint F)) : SortedMap Labels (List (F × F)) :=
  inner.foldl (fun m p => match splitLe p.labels with
    | some b => m.push b.2 (b.1, p.value)
    | none => m) .empty

/-- The buckets of each group at each timestamp, for `histogram_quantile_range`. -/
def histogramRangeGroups (inner : List (RangePoints F)) :
    SortedMap Labels (SortedMap ℤ (List (F × F))) :=
  inner.foldl (fun m s => match splitLe s.labels with
    | some b => m.upsert b.2 fun g =>
        s.points.foldl (fun g p => g.push p.1 (b.1, p.2)) (g.getD .empty)
    | none => m) .empty

/-- What `histogram_quantile_instant` sorts. -/
def histogramInstantSorts (inner : List (InstantPoint F)) : List (List (F × F)) :=
  (histogramInstantGroups inner).values

/-- What `histogram_quantile_range` sorts. -/
def histogramRangeSorts (inner : List (RangePoints F)) : List (List (F × F)) :=
  (histogramRangeGroups inner).values.flatMap SortedMap.values

theorem topkInstantPoints_eq (inner : List (InstantPoint F)) (n : ℕ) (top : Bool)
    (modifier : Option LabelModifier) :
    topkInstantPoints inner n top modifier =
      (topkInstantSorts inner n modifier).flatMap fun l =>
        (sortByValue top InstantPoint.value l).take n := by
  rw [topkInstantPoints, topkInstantSorts]
  split_ifs <;> rfl

theorem topkRangePoints_eq (inner : List (RangePoints F)) (n : ℕ) (top : Bool)
    (modifier : Option LabelModifier) :
    topkRangePoints inner n top modifier =
      (groupRowsBySeries ((topkRangeSorts inner n modifier).flatMap fun s =>
        ((sortByValue top Prod.snd s.2).take n).map (valueRow s.1))).values := by
  rw [topkRangePoints, topkRangeSorts]
  split_ifs
  · rfl
  · rw [List.flatMap_assoc]
    simp only [List.flatMap_map]
    rfl

theorem histogramQuantileInstant_eq (inner : List (InstantPoint F)) (quantile : F) (timeUs : ℤ) :
    histogramQuantileInstant inner quantile timeUs =
      (histogramInstantGroups inner).entries.filterMap fun g =>
        (quantileFromBuckets (sortByValue false Prod.fst g.2) quantile).map fun v =>
          ⟨"", g.1, timeUs, v⟩ :=
  rfl

theorem histogramQuantileRange_eq (inner : List (RangePoints F)) (quantile : F) :
    histogramQuantileRange inner quantile =
      ((histogramRangeGroups inner).entries.map fun g =>
        (⟨"", g.1, g.2.entries.filterMap fun e =>
          (quantileFromBuckets (sortByValue false Prod.fst e.2) quantile).map fun v => (e.1, v)⟩ :
            RangePoints F)).filter fun s => !s.points.isEmpty :=
  rfl

end Sorts

/-- **When the sorts of a query are sound**: those of `topk` at a timestamp and over a range, and
those of `histogram_quantile`, the comparison of which orders the bounds. -/
theorem sorts_sound_iff (n : ℕ) (top : Bool) (modifier : Option LabelModifier) :
    (∀ inner : List (InstantPoint Exact),
      (∀ l ∈ topkInstantSorts inner n modifier, SortSound top InstantPoint.value l) ↔
        ∀ l ∈ topkInstantSorts inner n modifier, NumbersAlike (l.map InstantPoint.value)) ∧
    (∀ inner : List (RangePoints Exact),
      (∀ s ∈ topkRangeSorts inner n modifier, SortSound top Prod.snd s.2) ↔
        ∀ s ∈ topkRangeSorts inner n modifier, NumbersAlike (s.2.map Prod.snd)) ∧
    (∀ inner : List (InstantPoint Exact),
      (∀ l ∈ histogramInstantSorts inner, SortSound false Prod.fst l) ↔
        ∀ l ∈ histogramInstantSorts inner, NumbersAlike (l.map Prod.fst)) ∧
    ∀ inner : List (RangePoints Exact),
      (∀ l ∈ histogramRangeSorts inner, SortSound false Prod.fst l) ↔
        ∀ l ∈ histogramRangeSorts inner, NumbersAlike (l.map Prod.fst) :=
  ⟨fun _ => forall₂_congr fun l _ => sortSound_iff top InstantPoint.value l,
    fun _ => forall₂_congr fun s _ => sortSound_iff top Prod.snd s.2,
    fun _ => forall₂_congr fun l _ => sortSound_iff false Prod.fst l,
    fun _ => forall₂_congr fun l _ => sortSound_iff false Prod.fst l⟩

/-! ### Zero by zero -/

/-- Three series of `a` and of `b`, two of which are zero. -/
def ratioTables : Tables Exact where
  samples := [⟨1, 0, .num 1⟩, ⟨2, 0, .num 0⟩, ⟨3, 0, .num 2⟩, ⟨4, 0, .num 1⟩, ⟨5, 0, .num 0⟩,
    ⟨6, 0, .num 1⟩]
  series := [⟨1, "a", SortedMap.empty.insert "job" "x"⟩,
    ⟨2, "a", SortedMap.empty.insert "job" "y"⟩, ⟨3, "a", SortedMap.empty.insert "job" "z"⟩,
    ⟨4, "b", SortedMap.empty.insert "job" "x"⟩, ⟨5, "b", SortedMap.empty.insert "job" "y"⟩,
    ⟨6, "b", SortedMap.empty.insert "job" "z"⟩]

/-- `a / b`. -/
def ratio : Expr Exact :=
  .binary .div (.vectorSelector ⟨some "a", []⟩) (.vectorSelector ⟨some "b", []⟩) none

/-- The points of `a / b`. -/
def ratioPoints : List (InstantPoint Exact) :=
  [⟨"", SortedMap.empty.insert "job" "x", 0, .num 1⟩,
    ⟨"", SortedMap.empty.insert "job" "y", 0, .nan⟩,
    ⟨"", SortedMap.empty.insert "job" "z", 0, .num 2⟩]

/-- **`topk(1, a / b)` returns a one and leaves out a two**, where zero by zero stands between
them; and a bound `NaN` does the same to the buckets of a histogram. -/
theorem topk_drops_better :
    evaluateInstant Sql.Engine.stable ratioTables 0 ratio = .ok ratioPoints ∧
      evaluateInstant Sql.Engine.stable ratioTables 0
          (.aggregate .topk ratio (some (.numberLiteral (.num 1))) none) =
        .ok [⟨"", SortedMap.empty.insert "job" "x", 0, .num 1⟩] ∧
      topkInstantSorts ratioPoints 1 none = [ratioPoints] ∧
      ¬SortSound true InstantPoint.value ratioPoints ∧
      ["1", "NaN", "2"].map (parseLe (F := Exact)) = [some (.num 1), some .nan, some (.num 2)] ∧
      ¬SortSound false id [Exact.num 1, .nan, .num 2] := by
  have hratio : evaluateInstant Sql.Engine.stable ratioTables 0 ratio = .ok ratioPoints := by
    have hkind : detectQueryKind ratio = some (.binary .div (.vectorSelector ⟨some "a", []⟩)
        (.vectorSelector ⟨some "b", []⟩) false) := rfl
    rw [evaluateInstant_binary hkind]
    decide +kernel
  have htopk : evaluateInstant Sql.Engine.stable ratioTables 0
      (.aggregate .topk ratio (some (.numberLiteral (.num 1))) none) =
        .ok [⟨"", SortedMap.empty.insert "job" "x", 0, .num 1⟩] := by
    have hkind : detectQueryKind
        (.aggregate .topk ratio (some (.numberLiteral (.num 1))) none : Expr Exact) =
          some (.topK 1 true none ratio) := rfl
    rw [evaluateInstant_topK hkind]
    change (evaluateInstant Sql.Engine.stable ratioTables 0 ratio >>= fun points =>
      pure (topkInstantPoints points 1 true none)) = _
    rw [hratio]
    decide +kernel
  -- the one is not less than what is no number, which is not less than the two
  have hunsound : ∀ top, ¬SortSound top id [Exact.num 1, .nan, .num 2] := by
    intro top h
    rcases (sortSound_iff top id _).mp h with hnan | hsame
    · exact hnan .nan (by simp) rfl
    · exact absurd (hsame (.num 1) (by simp) (.num 2) (by simp) (by decide) (by decide)) (by decide)
  refine ⟨hratio, htopk, by decide +kernel, fun h => ?_, by decide +kernel, hunsound false⟩
  exact hunsound true ((sortSound_iff true id _).mpr
    ((sortSound_iff true InstantPoint.value ratioPoints).mp h))

end Skaldberg.Prometheus
