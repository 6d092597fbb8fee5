import Skaldberg.Prometheus.Quantile

/-!
# Two totals of a histogram

The rates of the buckets of a group over a window (`Skaldberg.Prometheus.BucketRates`) need not
increase with their bounds, as cumulative counts do. The program takes the rate of the last bucket
for the total, and wants two buckets; the query takes the greatest rate, and is content with one.
Both walk to the place of a fraction of their total.

So they find the same quantile when the last bucket has the greatest rate, and else almost never:
the greater total has a greater place, but in a lowest bucket that ends at zero or below
(`Skaldberg.Prometheus.BucketRates.quantile_eq_quantileByLargest_iff`).
-/

namespace Skaldberg.Prometheus

/-- The rates of the buckets of a group: by their bounds, in whatever order the rates are. -/
structure BucketRates where
  /-- The finite bounds, each with its rate. -/
  finite : List (ℚ × ℚ)
  /-- The rate of the bucket without a finite bound, if there is one. -/
  top : Option ℚ
  /-- The bounds are distinct, and in order. -/
  bounds : finite.Pairwise fun a b => a.1 < b.1
  /-- There are no negative rates. -/
  nonneg : ∀ c ∈ finite.map Prod.snd ++ top.toList, 0 ≤ c

namespace BucketRates

/-- The buckets, as the program has them. -/
def buckets (V : BucketRates) : List (Exact × Exact) :=
  V.finite.map Histogram.bucket ++ V.top.toList.map fun c => (.inf, .num c)

/-- The rates. -/
def rates (V : BucketRates) : List ℚ := V.finite.map Prod.snd ++ V.top.toList

/-- The rate of the last bucket, which the program takes for the total. -/
def total (V : BucketRates) : ℚ := V.rates.getLastD 0

/-- The greatest rate, which the query takes for the total. -/
def largest (V : BucketRates) : ℚ := V.rates.max?.getD 0

/-- The program finds a quantile: there are two buckets, and something to count. -/
def HasQuantile (V : BucketRates) : Prop := 2 ≤ V.rates.length ∧ 0 < V.total

/-- The quantile that a walk with the greatest rate for the total finds. -/
def quantileByLargest (V : BucketRates) (q : ℚ) : Option Exact :=
  if 0 < V.largest then
    walkBuckets (.num (q * V.largest)) (F64.ofInt 0) (F64.ofInt 0) V.buckets
  else none

/-- The two totals tell the same quantile: there is nothing to count; or there are two buckets, and
the last one has the greatest rate, or both totals fall in a lowest bucket that ends at zero, or the
lesser one falls in a lowest bucket that ends below zero, where the greater one falls above it. -/
def TotalTells (V : BucketRates) (q : ℚ) : Prop :=
  (∀ c ∈ V.rates, c = 0) ∨
    2 ≤ V.rates.length ∧ ((∀ c ∈ V.rates, c ≤ V.total) ∨
      0 < V.total ∧ ∃ b bs, V.finite = b :: bs ∧
        (b.1 = 0 ∧ q * V.largest ≤ b.2 ∨
          b.1 < 0 ∧ q * V.total ≤ b.2 ∧ b.2 < q * V.largest ∧
            Cumulative.walk (q * V.largest) b bs = q * V.total / b.2 * b.1))

variable (V : BucketRates)

theorem length_buckets : V.buckets.length = V.rates.length := by
  simp [buckets, rates]

theorem le_largest {c : ℚ} (hc : c ∈ V.rates) : c ≤ V.largest := by
  obtain ⟨m, hm⟩ := Option.isSome_iff_exists.mp (List.isSome_max?_of_mem hc)
  rw [largest, hm]
  exact (List.max?_eq_some_iff.mp hm).2 c hc

theorem largest_mem (hpos : 0 < V.largest) : V.largest ∈ V.rates := by
  rw [largest] at hpos ⊢
  cases hm : V.rates.max? with
  | none =>
    rw [hm] at hpos
    exact absurd hpos (lt_irrefl _)
  | some m => exact (List.max?_eq_some_iff.mp hm).1

theorem total_mem (hne : V.rates ≠ []) : V.total ∈ V.rates := by
  rw [total, List.getLastD_eq_getLast?, List.getLast?_eq_some_getLast hne]
  exact List.getLast_mem hne

theorem total_le_largest (hne : V.rates ≠ []) : V.total ≤ V.largest :=
  V.le_largest (V.total_mem hne)

theorem largest_pos_iff : 0 < V.largest ↔ ¬∀ c ∈ V.rates, c = 0 := by
  constructor
  · intro hpos hzero
    exact hpos.ne' (hzero _ (V.largest_mem hpos))
  · intro hsome
    push Not at hsome
    obtain ⟨c, hc, hne⟩ := hsome
    exact (lt_of_le_of_ne (V.nonneg c hc) hne.symm).trans_le (V.le_largest hc)

theorem map_snd_buckets : V.buckets.map Prod.snd = V.rates.map Exact.num := by
  rw [buckets, rates, List.map_append, List.map_append, List.map_map, List.map_map, List.map_map]
  rfl

theorem isNum_snd {b : Exact × Exact} (hb : b ∈ V.buckets) : b.2.IsNum := by
  have hrate := List.mem_map_of_mem (f := Prod.snd) hb
  rw [map_snd_buckets] at hrate
  obtain ⟨c, -, hc⟩ := List.mem_map.mp hrate
  exact ⟨c, hc.symm⟩

theorem bound {b : Exact × Exact} (hb : b ∈ V.buckets) : b.1.IsNum ∨ b.1 = .inf := by
  rcases List.mem_append.mp hb with hb | hb
  · obtain ⟨a, -, rfl⟩ := List.mem_map.mp hb
    exact .inl ⟨a.1, rfl⟩
  · obtain ⟨c, -, rfl⟩ := List.mem_map.mp hb
    exact .inr rfl

/-- The last bucket has the last rate. -/
theorem getLast?_buckets (hne : V.rates ≠ []) :
    V.buckets.getLast?.map Prod.snd = some (.num V.total) := by
  rw [← List.getLast?_map, map_snd_buckets, List.getLast?_map, total, List.getLastD_eq_getLast?,
    List.getLast?_eq_some_getLast hne]
  rfl

/-- A rate is that of a bucket with a finite bound, or of the one without. -/
theorem reach {c target : ℚ} (hc : c ∈ V.rates) (hle : target ≤ c) :
    (∃ b ∈ V.finite, target ≤ b.2) ∨ ∃ total, target ≤ total ∧
      (V.top.toList.map fun c => ((Exact.inf : Exact), Exact.num c)) = [(.inf, .num total)] := by
  rcases List.mem_append.mp hc with hc | hc
  · obtain ⟨b, hb, rfl⟩ := List.mem_map.mp hc
    exact .inl ⟨b, hb, hle⟩
  · rw [Option.mem_toList] at hc
    exact .inr ⟨c, hle, by rw [hc]; rfl⟩

/-- What the program computes of two buckets and more. -/
theorem quantile_eq (hlen : 2 ≤ V.rates.length) {q : ℚ} (h0 : 0 < q) (h1 : q < 1) :
    quantileFromBuckets V.buckets (.num q) =
      if 0 < V.total then some (.num (Cumulative.walk (q * V.total) (0, 0) V.finite))
      else none := by
  have hne : V.rates ≠ [] := by
    rintro hnil
    rw [hnil] at hlen
    cases hlen
  obtain ⟨last, hlast, htotal⟩ := Option.map_eq_some_iff.mp (V.getLast?_buckets hne)
  have hnan : F64.isNan (Exact.num q) = false := rfl
  rw [quantileFromBuckets, V.length_buckets, if_neg (not_lt.mpr hlen), hlast, Option.bind_some]
  simp only [htotal, Exact.ofInt_eq, Exact.le_num, Int.cast_zero, Int.cast_one, hnan,
    Bool.or_false, decide_eq_true_eq, not_le.mpr h0, not_le.mpr h1, if_false, Exact.mul_num]
  by_cases hpos : 0 < V.total
  · rw [if_neg (not_le.mpr hpos), if_pos hpos]
    exact walkBuckets_eq V.finite (0, 0) (mul_pos h0 hpos)
      (V.reach (V.total_mem hne) (mul_le_of_le_one_left hpos.le h1.le))
  · rw [if_pos (not_lt.mp hpos), if_neg hpos]

/-- What the program computes of less than two buckets. -/
theorem quantile_eq_none (hlen : ¬2 ≤ V.rates.length) (q : Exact) :
    quantileFromBuckets V.buckets q = none := by
  rw [quantileFromBuckets, V.length_buckets, if_pos (not_le.mp hlen)]

/-- **When the program finds a quantile.** -/
theorem isSome_quantile_iff {q : ℚ} (h0 : 0 < q) (h1 : q < 1) :
    (quantileFromBuckets V.buckets (.num q)).isSome ↔ V.HasQuantile := by
  rw [HasQuantile]
  by_cases hlen : 2 ≤ V.rates.length
  · rw [V.quantile_eq hlen h0 h1, and_iff_right hlen]
    split_ifs with hpos
    · exact iff_of_true rfl hpos
    · exact iff_of_false Bool.false_ne_true hpos
  · rw [V.quantile_eq_none hlen]
    exact iff_of_false Bool.false_ne_true fun h => hlen h.1

/-- What the query computes. -/
theorem quantileByLargest_eq {q : ℚ} (h0 : 0 < q) (h1 : q < 1) :
    V.quantileByLargest q =
      if 0 < V.largest then some (.num (Cumulative.walk (q * V.largest) (0, 0) V.finite))
      else none := by
  rw [quantileByLargest]
  split_ifs with hpos
  · exact walkBuckets_eq V.finite (0, 0) (mul_pos h0 hpos)
      (V.reach (V.largest_mem hpos) (mul_le_of_le_one_left hpos.le h1.le))
  · rfl

/-- Two totals that differ tell the same place in a lowest bucket alone. -/
theorem walk_eq_walk_iff_of_lt {q : ℚ} (h0 : 0 < q) (h1 : q < 1) (hpos : 0 < V.total)
    (hmost : ¬∀ c ∈ V.rates, c ≤ V.total) :
    Cumulative.walk (q * V.total) (0, 0) V.finite =
        Cumulative.walk (q * V.largest) (0, 0) V.finite ↔
      ∃ b bs, V.finite = b :: bs ∧
        (b.1 = 0 ∧ q * V.largest ≤ b.2 ∨
          b.1 < 0 ∧ q * V.total ≤ b.2 ∧ b.2 < q * V.largest ∧
            Cumulative.walk (q * V.largest) b bs = q * V.total / b.2 * b.1) := by
  push Not at hmost
  obtain ⟨c, hc, hlt⟩ := hmost
  have hlt : V.total < V.largest := hlt.trans_le (V.le_largest hc)
  -- a bucket with the greatest rate is not the last one
  have hreach : ∃ a ∈ V.finite, q * V.largest ≤ a.2 := by
    have hmem := V.largest_mem (hpos.trans hlt)
    rcases List.mem_append.mp hmem with hmem | hmem
    · obtain ⟨a, ha, heq⟩ := List.mem_map.mp hmem
      exact ⟨a, ha, (mul_le_of_le_one_left (hpos.trans hlt).le h1.le).trans_eq heq.symm⟩
    · rw [Option.mem_toList] at hmem
      refine absurd ?_ hlt.ne
      rw [total, rates, hmem, Option.toList_some, List.getLastD_concat]
  have hbounds := V.bounds
  cases hfinite : V.finite with
  | nil =>
    rw [hfinite] at hreach
    exact absurd hreach (by simp)
  | cons b bs =>
    rw [hfinite] at hreach hbounds
    rw [Cumulative.walk_eq_walk_iff hbounds (mul_pos h0 hpos)
      (mul_lt_mul_of_pos_left hlt h0) hreach]
    simp only [List.cons.injEq]
    constructor
    · intro h
      exact ⟨b, bs, ⟨rfl, rfl⟩, h⟩
    · rintro ⟨b', bs', ⟨rfl, rfl⟩, h⟩
      exact h

/-- **When the two totals tell the same quantile.** -/
theorem quantile_eq_quantileByLargest_iff {q : ℚ} (h0 : 0 < q) (h1 : q < 1) :
    quantileFromBuckets V.buckets (.num q) = V.quantileByLargest q ↔ V.TotalTells q := by
  rw [V.quantileByLargest_eq h0 h1, TotalTells]
  by_cases hzero : ∀ c ∈ V.rates, c = 0
  · -- neither finds a quantile
    refine iff_of_true ?_ (.inl hzero)
    rw [if_neg fun hpos => V.largest_pos_iff.mp hpos hzero]
    by_cases hlen : 2 ≤ V.rates.length
    · have htotal : ¬0 < V.total := by
        rw [hzero _ (V.total_mem (List.ne_nil_of_length_pos (by omega)))]
        exact lt_irrefl 0
      rw [V.quantile_eq hlen h0 h1, if_neg htotal]
    · exact V.quantile_eq_none hlen _
  have hlargest := V.largest_pos_iff.mpr hzero
  have hne : V.rates ≠ [] := List.ne_nil_of_mem (V.largest_mem hlargest)
  rw [if_pos hlargest, or_iff_right hzero]
  by_cases hlen : 2 ≤ V.rates.length
  · rw [V.quantile_eq hlen h0 h1, and_iff_right hlen]
    by_cases hpos : 0 < V.total
    · rw [if_pos hpos, and_iff_right hpos, Option.some.injEq, Exact.num.injEq]
      by_cases hmost : ∀ c ∈ V.rates, c ≤ V.total
      · rw [le_antisymm (V.total_le_largest hne) (hmost _ (V.largest_mem hlargest))]
        exact iff_of_true rfl (.inl fun _ => V.le_largest)
      · rw [or_iff_right hmost]
        exact V.walk_eq_walk_iff_of_lt h0 h1 hpos hmost
    · rw [if_neg hpos]
      refine iff_of_false (Option.some_ne_none _).symm ?_
      rintro (hmost | ⟨hpos', -⟩)
      · exact hpos (hlargest.trans_le (hmost _ (V.largest_mem hlargest)))
      · exact hpos hpos'
  · rw [V.quantile_eq_none hlen]
    exact iff_of_false (Option.some_ne_none _).symm fun h => hlen h.1

/-! ### The buckets of a group -/

/-- The buckets are in the order of their bounds, which are distinct. -/
theorem buckets_pairwise :
    V.buckets.Pairwise fun a b => Exact.totalLe a.1 b.1 = true ∧ a.1 ≠ b.1 := by
  rw [buckets, List.pairwise_append]
  refine ⟨?_, ?_, ?_⟩
  · rw [List.pairwise_map]
    refine V.bounds.imp fun {a b} hab => ⟨?_, fun heq => hab.ne (Exact.num.inj heq)⟩
    exact (Exact.totalLe_num a.1 b.1).trans (decide_eq_true hab.le)
  · cases V.top <;> simp
  · intro a ha b hb
    obtain ⟨a, -, rfl⟩ := List.mem_map.mp ha
    obtain ⟨c, -, rfl⟩ := List.mem_map.mp hb
    exact ⟨rfl, Exact.noConfusion⟩

/-- **The buckets of a group come in one order.** -/
theorem eq_of_perm_of_pairwise {l : List (Exact × Exact)} (hperm : l.Perm V.buckets)
    (hsorted : l.Pairwise fun a b => Exact.totalLe a.1 b.1 = true) : l = V.buckets := by
  have hnodup : (V.buckets.map Prod.fst).Nodup :=
    List.pairwise_map.mpr (V.buckets_pairwise.imp fun h => h.2)
  refine hperm.eq_of_pairwise (fun a b ha hb hab hba => ?_) hsorted
    (V.buckets_pairwise.imp fun h => h.1)
  exact List.inj_on_of_nodup_map hnodup (hperm.mem_iff.mp ha) hb (Exact.totalLe_antisymm hab hba)

end BucketRates

/-- Buckets with distinct bounds, none of them negative infinity or no number, and with rates that
are not negative. -/
structure IsRates (l : List (Exact × Exact)) : Prop where
  /-- A bound is a number or infinity. -/
  bound : ∀ b ∈ l, b.1.IsNum ∨ b.1 = .inf
  /-- Bounds are distinct. -/
  distinct : (l.map Prod.fst).Nodup
  /-- A rate is a number, and not negative. -/
  rate : ∀ b ∈ l, ∃ c : ℚ, 0 ≤ c ∧ b.2 = .num c

/-- **Such buckets are those of a vector of rates.** -/
theorem IsRates.exists_perm {l : List (Exact × Exact)} (h : IsRates l) :
    ∃ V : BucketRates, V.buckets.Perm l := by
  have hlists : ∀ l : List (Exact × Exact), IsRates l → ∃ (fs : List (ℚ × ℚ)) (top : Option ℚ),
      (fs.map Histogram.bucket ++ top.toList.map fun c => (Exact.inf, Exact.num c)).Perm l := by
    intro l
    induction l with
    | nil => exact fun _ => ⟨[], none, List.Perm.refl _⟩
    | cons b l ih =>
      rintro ⟨hbound, hdistinct, hrate⟩
      rw [List.map_cons, List.nodup_cons] at hdistinct
      obtain ⟨fs, top, hperm⟩ := ih ⟨fun b hb => hbound b (List.mem_cons_of_mem _ hb), hdistinct.2,
        fun b hb => hrate b (List.mem_cons_of_mem _ hb)⟩
      obtain ⟨c, -, hc⟩ := hrate b (List.mem_cons_self ..)
      obtain ⟨le, rate⟩ := b
      obtain rfl : rate = .num c := hc
      rcases hbound (le, .num c) (List.mem_cons_self ..) with ⟨x, hx⟩ | hinf
      · obtain rfl : le = .num x := hx
        exact ⟨(x, c) :: fs, top, hperm.cons _⟩
      · obtain rfl : le = .inf := hinf
        obtain rfl : top = none := by
          -- there is no other bucket without a finite bound
          by_contra hsome
          obtain ⟨c', rfl⟩ := Option.ne_none_iff_exists'.mp hsome
          refine hdistinct.1 (List.mem_map.mpr ⟨(.inf, .num c'), hperm.mem_iff.mp ?_, rfl⟩)
          simp
        refine ⟨fs, some c, ?_⟩
        rw [Option.toList_none, List.map_nil, List.append_nil] at hperm
        exact (List.perm_append_singleton _ _).trans (hperm.cons _)
  obtain ⟨fs, top, hperm⟩ := hlists l h
  have hsort := List.perm_insertionSort (fun a b : ℚ × ℚ => a.1 ≤ b.1) fs
  have hnodup : (fs.map Prod.fst).Nodup := by
    have hfirst := ((hperm.map Prod.fst).nodup_iff.mpr h.distinct)
    rw [List.map_append, List.map_map] at hfirst
    have hfinite := hfirst.of_append_left
    rw [show Prod.fst ∘ Histogram.bucket = Exact.num ∘ Prod.fst from rfl, ← List.map_map] at hfinite
    exact hfinite.of_map _
  refine ⟨⟨fs.insertionSort fun a b => a.1 ≤ b.1, top, ?_, ?_⟩, ?_⟩
  · have : Std.Total fun a b : ℚ × ℚ => a.1 ≤ b.1 := ⟨fun a b => le_total a.1 b.1⟩
    have : IsTrans (ℚ × ℚ) fun a b => a.1 ≤ b.1 := ⟨fun _ _ _ => le_trans⟩
    have hne := List.pairwise_map.mp ((hsort.map Prod.fst).nodup_iff.mpr hnodup)
    exact (List.pairwise_insertionSort (fun a b : ℚ × ℚ => a.1 ≤ b.1) fs).and hne |>.imp
      fun hab => lt_of_le_of_ne hab.1 hab.2
  · intro c hc
    have hmem : Exact.num c ∈ l.map Prod.snd := by
      refine (hperm.map Prod.snd).mem_iff.mp ?_
      rw [List.map_append, List.map_map, List.map_map]
      rcases List.mem_append.mp hc with hc | hc
      · obtain ⟨b, hb, rfl⟩ := List.mem_map.mp hc
        exact List.mem_append_left _ (List.mem_map.mpr ⟨b, hsort.mem_iff.mp hb, rfl⟩)
      · exact List.mem_append_right _ (List.mem_map.mpr ⟨c, hc, rfl⟩)
    obtain ⟨b, hb, hbc⟩ := List.mem_map.mp hmem
    obtain ⟨c', hc', hbc'⟩ := h.rate b hb
    exact Exact.num.inj (hbc.symm.trans hbc') ▸ hc'
  · exact ((hsort.map _).append_right _).trans hperm

end Skaldberg.Prometheus
