import Skaldberg.Lib.Cumulative
import Skaldberg.Prometheus.Exact
import Skaldberg.Prometheus.Histogram

/-!
# Quantiles in their order

A histogram has buckets with finite bounds and one without, whose count is the total
(`Skaldberg.Prometheus.Histogram`). Between zero and one, its quantiles are the places of
fractions of the total in its cumulative counts (`Histogram.quantile_between`), with zero for the
lower bound of the lowest bucket.

So greater quantiles are no lesser values, and not above the bound of their bucket
(`quantiles_ordered`), unless that is the lowest bucket and has a negative bound. The quantile zero
stands apart: it is the *upper* bound of the lowest bucket with counts, above the quantiles that
fall in that bucket.
-/

namespace Skaldberg.Prometheus

/-- The cumulative counts of a histogram, in exact numbers. -/
structure Histogram where
  /-- The finite bounds, each with the count of everything up to it. -/
  finite : List (ℚ × ℚ)
  /-- The count of everything. -/
  total : ℚ
  /-- The bounds are distinct, and in order. -/
  bounds : finite.Pairwise fun a b => a.1 < b.1
  /-- The counts do not decrease. -/
  counts : (finite.map Prod.snd ++ [total]).Pairwise (· ≤ ·)
  /-- There are no negative counts. -/
  nonneg : ∀ b ∈ finite, 0 ≤ b.2
  /-- There is something to count. -/
  pos : 0 < total

namespace Histogram

/-- A bucket with a finite bound. -/
def bucket (b : ℚ × ℚ) : Exact × Exact := (.num b.1, .num b.2)

/-- The buckets, as the program has them. -/
def buckets (h : Histogram) : List (Exact × Exact) :=
  h.finite.map bucket ++ [(.inf, .num h.total)]

/-- A quantile that does not fall in a lowest bucket with a negative bound. -/
def AboveZero (h : Histogram) (q : ℚ) : Prop :=
  ∀ b ∈ h.finite.head?, 0 < q → q < 1 → q * h.total ≤ b.2 → 0 ≤ b.1

theorem le_total (h : Histogram) {b : ℚ × ℚ} (hb : b ∈ h.finite) : b.2 ≤ h.total :=
  (List.pairwise_append.mp h.counts).2.2 _ (List.mem_map_of_mem hb) _ (List.mem_singleton_self _)

theorem ascending (h : Histogram) : Cumulative.Ascending h.finite := by
  have hcounts := List.pairwise_map.mp (List.pairwise_append.mp h.counts).1
  exact h.bounds.and hcounts |>.imp fun hab => ⟨hab.1.le, hab.2⟩

end Histogram

/-! ### The walk -/

theorem isInfinite_num (q : ℚ) : F64.isInfinite (Exact.num q) = false := rfl

/-- **The walk of the program** finds the place of a count, if there is a bucket to reach it. -/
theorem walkBuckets_eq {target : ℚ} {top : List (Exact × Exact)} (bs : List (ℚ × ℚ)) (p : ℚ × ℚ)
    (hp : p.2 < target) (hreach : (∃ b ∈ bs, target ≤ b.2) ∨
      ∃ total, target ≤ total ∧ top = [(.inf, .num total)]) :
    walkBuckets (.num target) (Exact.num p.1) (.num p.2) (bs.map Histogram.bucket ++ top) =
      some (.num (Cumulative.walk target p bs)) := by
  induction bs generalizing p with
  | nil =>
    obtain ⟨b, hb, -⟩ | ⟨total, htotal, rfl⟩ := hreach
    · cases hb
    · rw [List.map_nil, List.nil_append, walkBuckets, Exact.le_num,
        if_pos (decide_eq_true htotal)]
      rfl
  | cons b bs ih =>
    rw [List.map_cons, List.cons_append, Histogram.bucket, walkBuckets, Exact.le_num,
      Cumulative.walk]
    by_cases hb : target ≤ b.2
    · have hcount : ¬b.2 - p.2 ≤ 0 := not_le.mpr (sub_pos.mpr (hp.trans_le hb))
      have hne : b.2 - p.2 ≠ 0 := fun h => hcount h.le
      have hzero : F64.le (Exact.num (b.2 - p.2)) (F64.ofInt 0) = false := by
        rw [Exact.ofInt_eq, Exact.le_num]
        simpa using hcount
      rw [if_pos (decide_eq_true hb), if_pos hb, isInfinite_num]
      simp only [Exact.sub_num, hzero, Exact.div_num _ hne, Exact.mul_num, Exact.add_num]
      rfl
    · rw [if_neg (by simpa using hb), if_neg hb]
      refine ih b (not_le.mp hb) (hreach.imp_left ?_)
      rintro ⟨a, ha, hta⟩
      rcases List.mem_cons.mp ha with rfl | ha
      · exact absurd hta hb
      · exact ⟨a, ha, hta⟩

namespace Histogram

variable (h : Histogram)

theorem length_buckets : h.buckets.length = h.finite.length + 1 := by
  rw [buckets, List.length_append, List.length_map, List.length_singleton]

/-- What the program computes of a histogram with a finite bound. -/
theorem quantile_eq (hne : h.finite ≠ []) (q : ℚ) :
    quantileFromBuckets h.buckets (.num q) =
      if q ≤ 0 then (h.buckets.find? fun b => F64.lt (F64.ofInt 0) b.2).map Prod.fst
      else if 1 ≤ q then (h.buckets.reverse.find? fun b => F64.isFinite b.1).map Prod.fst
      else walkBuckets (.num (q * h.total)) (.num 0) (.num 0) h.buckets := by
  have hlen : ¬h.buckets.length < 2 := by
    have hpos := List.length_pos_iff.mpr hne
    rw [length_buckets]
    omega
  have hlast : h.buckets.getLast? = some (.inf, .num h.total) := by
    rw [buckets, List.getLast?_append, List.getLast?_singleton]
    rfl
  have htotal : decide (h.total ≤ 0) = false := decide_eq_false (not_le.mpr h.pos)
  have hnan : F64.isNan (Exact.num q) = false := rfl
  rw [quantileFromBuckets, if_neg hlen, hlast, Option.bind_some]
  simp only [Exact.ofInt_eq, Exact.le_num, Int.cast_zero, Int.cast_one, htotal, hnan,
    Bool.or_self, Bool.false_eq_true, if_false, decide_eq_true_eq, Exact.mul_num]

/-- **The quantile zero** is the bound of the lowest bucket with counts. -/
theorem quantile_zero (hne : h.finite ≠ []) :
    quantileFromBuckets h.buckets (.num 0) =
      some (((h.finite.find? fun b => decide (0 < b.2)).map fun b => Exact.num b.1).getD .inf) := by
  have hlast : F64.lt (F64.ofInt 0) (Exact.num h.total) = true := by
    rw [Exact.ofInt_eq, Exact.lt_num]
    simpa using h.pos
  have hfinite : (h.finite.map bucket).find? (fun b => F64.lt (F64.ofInt 0) b.2) =
      (h.finite.find? fun b => decide (0 < b.2)).map bucket := by
    rw [List.find?_map]
    congr 2
    funext b
    show F64.lt (F64.ofInt 0) (Exact.num b.2) = _
    rw [Exact.ofInt_eq, Exact.lt_num, Int.cast_zero]
  rw [quantile_eq h hne, if_pos le_rfl, buckets, List.find?_append, hfinite,
    List.find?_cons_of_pos (by exact hlast)]
  cases h.finite.find? fun b => decide (0 < b.2) with
  | none => rfl
  | some b => rfl

/-- **The quantile one** is the last finite bound. -/
theorem quantile_one (hne : h.finite ≠ []) :
    quantileFromBuckets h.buckets (.num 1) = some (.num (h.finite.getLastD (0, 0)).1) := by
  obtain ⟨l, b, hl⟩ : ∃ l b, h.finite = l ++ [b] :=
    ⟨_, _, (List.dropLast_append_getLast hne).symm⟩
  have hreverse : h.buckets.reverse =
      (.inf, .num h.total) :: bucket b :: (l.map bucket).reverse := by
    rw [buckets, hl]
    simp
  rw [quantile_eq h hne, if_neg (by norm_num), if_pos le_rfl, hreverse,
    List.find?_cons_of_neg (by exact Bool.false_ne_true), List.find?_cons_of_pos rfl, hl,
    List.getLastD_concat]
  rfl

/-- **A quantile between them** is the place of a fraction of the total. -/
theorem quantile_between (hne : h.finite ≠ []) {q : ℚ} (h0 : 0 < q) (h1 : q < 1) :
    quantileFromBuckets h.buckets (.num q) =
      some (.num (Cumulative.walk (q * h.total) (0, 0) h.finite)) := by
  rw [quantile_eq h hne, if_neg (not_le.mpr h0), if_neg (not_le.mpr h1)]
  exact walkBuckets_eq h.finite (0, 0) (mul_pos h0 h.pos)
    (.inr ⟨_, mul_le_of_le_one_left h.pos.le h1.le, rfl⟩)

/-! ### The order of the quantiles -/

/-- The lowest bucket with counts, among those with finite bounds. -/
def lowest : Option (ℚ × ℚ) := h.finite.find? fun b => decide (0 < b.2)

/-- A quantile reaches the bound of the lowest bucket with counts when it takes all of them, or
no bucket is lower and the bound is not positive. -/
theorem lowest_le_walk_iff {b : ℚ × ℚ} (hb : h.lowest = some b) {t : ℚ} (ht : 0 < t) :
    b.1 ≤ Cumulative.walk t (0, 0) h.finite ↔ b.2 ≤ t ∨ h.finite.head? = some b ∧ b.1 ≤ 0 := by
  obtain ⟨hpos, pre, post, hsplit, hpre⟩ := List.find?_eq_some_iff_append.mp hb
  have hpos : 0 < b.2 := of_decide_eq_true hpos
  have hempty : ∀ a ∈ pre, a.2 = 0 := fun a ha =>
    le_antisymm (not_lt.mp (by simpa using hpre a ha))
      (h.nonneg a (hsplit ▸ List.mem_append_left _ ha))
  have hbelow : ∀ a ∈ pre, a.1 < b.1 := fun a ha =>
    (List.pairwise_append.mp (hsplit ▸ h.bounds)).2.2 a ha b (List.mem_cons_self ..)
  have hascending := h.ascending
  rw [hsplit] at hascending
  have hrest : Cumulative.Ascending (b :: post) := (List.pairwise_append.mp hascending).2.1
  rw [hsplit, Cumulative.walk_append fun a ha => (hempty a ha).trans_lt ht]
  cases pre with
  | nil =>
    have hhead : ([] ++ b :: post).head? = some b := rfl
    rw [List.getLastD_nil, Cumulative.bound_le_walk_from_zero_iff hrest hpos, hhead]
    simp
  | cons first pre =>
    have hmem : (first :: pre).getLastD (0, 0) ∈ first :: pre := by
      rw [List.getLastD_cons]
      exact List.getLastD_mem_cons
    have hfrom : Cumulative.Ascending ((first :: pre).getLastD (0, 0) :: b :: post) :=
      Cumulative.Ascending.cons_iff.mpr
        ⟨fun a ha => (List.pairwise_append.mp hascending).2.2 _ hmem a ha, hrest⟩
    have hlt := hbelow _ hmem
    have hfirst := hbelow first (List.mem_cons_self ..)
    rw [Cumulative.bound_le_walk_iff hfrom ((hempty _ hmem).trans_lt hpos)]
    refine or_congr_right (iff_of_false hlt.ne fun hhead => ?_)
    obtain rfl : first = b := by simpa using hhead.1
    exact lt_irrefl _ hfirst

/-- Above zero, greater quantiles are no lesser values. -/
theorem quantile_mono (hne : h.finite ≠ []) {q q' : ℚ} (hstart : h.AboveZero q) (h0 : 0 < q)
    (hle : q ≤ q') (h1 : q' ≤ 1) {r r' : Exact}
    (hr : quantileFromBuckets h.buckets (.num q) = some r)
    (hr' : quantileFromBuckets h.buckets (.num q') = some r') : F64.le r r' = true := by
  rcases hle.eq_or_lt with rfl | hlt
  · rw [Option.some.inj (hr.symm.trans hr')]
    rcases h1.eq_or_lt with rfl | h1
    · rw [← Option.some.inj ((h.quantile_one hne).symm.trans hr'), Exact.le_num]
      exact decide_eq_true le_rfl
    · rw [← Option.some.inj ((h.quantile_between hne h0 h1).symm.trans hr'), Exact.le_num]
      exact decide_eq_true le_rfl
  · have hq := hlt.trans_le h1
    obtain ⟨p, bs, hascending, hpos, hlast, hwalk, -⟩ := Cumulative.exists_start h.ascending
      h.nonneg (mul_pos h0 h.pos) fun b hb => hstart b hb h0 hq
    rw [h.quantile_between hne h0 hq, hwalk _ le_rfl] at hr
    cases hr
    rcases h1.eq_or_lt with rfl | h1
    · rw [← Option.some.inj ((h.quantile_one hne).symm.trans hr'), Exact.le_num, ← hlast]
      exact decide_eq_true (Cumulative.walk_le_last hascending hpos)
    · have hle := mul_le_mul_of_nonneg_right hle h.pos.le
      rw [h.quantile_between hne (h0.trans hlt) h1, hwalk _ hle] at hr'
      cases hr'
      rw [Exact.le_num]
      exact decide_eq_true (Cumulative.walk_mono hascending hpos hle)

/-- The quantile zero is at most another one that reaches the bound of the lowest bucket with
counts. -/
theorem quantile_zero_le_iff (hne : h.finite ≠ []) {q : ℚ} (h0 : 0 < q) (h1 : q ≤ 1)
    {r r' : Exact} (hr : quantileFromBuckets h.buckets (.num 0) = some r)
    (hr' : quantileFromBuckets h.buckets (.num q) = some r') :
    F64.le r r' = true ↔ ∃ b, h.lowest = some b ∧
      (b.2 ≤ q * h.total ∨ h.finite.head? = some b ∧ b.1 ≤ 0) := by
  rw [h.quantile_zero hne, ← lowest] at hr
  obtain ⟨x, rfl, hx⟩ : ∃ x, r' = .num x ∧
      (q = 1 ∧ x = (h.finite.getLastD (0, 0)).1 ∨
        x = Cumulative.walk (q * h.total) (0, 0) h.finite) := by
    rcases h1.eq_or_lt with rfl | h1
    · rw [h.quantile_one hne] at hr'
      exact ⟨_, (Option.some.inj hr').symm, .inl ⟨rfl, rfl⟩⟩
    · rw [h.quantile_between hne h0 h1] at hr'
      exact ⟨_, (Option.some.inj hr').symm, .inr rfl⟩
  cases hlow : h.lowest with
  | none =>
    rw [hlow] at hr
    obtain rfl : Exact.inf = r := Option.some.inj hr
    refine iff_of_false Bool.false_ne_true ?_
    rintro ⟨b, hb, -⟩
    cases hb
  | some b =>
    rw [hlow] at hr
    obtain rfl : Exact.num b.1 = r := Option.some.inj hr
    have hmem := List.mem_of_find?_eq_some hlow
    rw [Exact.le_num, decide_eq_true_eq]
    simp only [Option.some.injEq, exists_eq_left']
    rcases hx with ⟨rfl, rfl⟩ | rfl
    · rw [one_mul]
      exact iff_of_true (h.ascending.le_getLastD hmem _) (.inl (h.le_total hmem))
    · exact h.lowest_le_walk_iff hlow (mul_pos h0 h.pos)

/-- A quantile is not above the bound of its bucket. -/
theorem quantile_le_bound (hne : h.finite ≠ []) {q : ℚ} (hstart : h.AboveZero q) (h0 : 0 < q)
    (h1 : q < 1) {r : Exact} (hr : quantileFromBuckets h.buckets (.num q) = some r) {le : ℚ}
    {c : Exact} (hfind : h.buckets.find? (fun b => F64.le (.num (q * h.total)) b.2) =
      some (.num le, c)) : F64.le r (.num le) = true := by
  obtain ⟨p, bs, hascending, hpos, -, hwalk, hsame⟩ := Cumulative.exists_start h.ascending
    h.nonneg (mul_pos h0 h.pos) fun b hb => hstart b hb h0 h1
  rw [h.quantile_between hne h0 h1, hwalk _ le_rfl] at hr
  cases hr
  have hmap : (h.finite.map bucket).find? (fun b => F64.le (.num (q * h.total)) b.2) =
      (h.finite.find? fun b => decide (q * h.total ≤ b.2)).map bucket := by
    rw [List.find?_map]
    congr 2
    funext b
    exact Exact.le_num _ _
  rw [buckets, List.find?_append, hmap, hsame _ le_rfl] at hfind
  cases hbucket : bs.find? fun b => decide (q * h.total ≤ b.2) with
  | none =>
    rw [hbucket] at hfind
    -- the bucket is the one without a finite bound
    have hlast := List.mem_of_find?_eq_some hfind
    cases List.mem_singleton.mp hlast
  | some b =>
    rw [hbucket] at hfind
    obtain ⟨hle, -⟩ := Prod.mk.inj (Option.some.inj hfind)
    rw [← hle, Exact.le_num]
    exact decide_eq_true (Cumulative.walk_le hascending hpos hbucket)

end Histogram

/-- **Quantiles are in order**, and below the bounds of their buckets, unless the lesser one falls
in a lowest bucket with a negative bound. Only the quantile zero is the upper bound of the lowest
bucket with counts, and above those that fall in that bucket. -/
theorem quantiles_ordered (h : Histogram) (q q' : ℚ) (hstart : h.AboveZero q) (h0 : 0 ≤ q)
    (hle : q ≤ q') (h1 : q' ≤ 1) (r r' : Exact)
    (hr : quantileFromBuckets h.buckets (.num q) = some r)
    (hr' : quantileFromBuckets h.buckets (.num q') = some r') :
    (F64.le r r' = true ↔ 0 < q ∨ q' = 0 ∨ ∃ b, h.lowest = some b ∧
      (b.2 ≤ q' * h.total ∨ h.finite.head? = some b ∧ b.1 ≤ 0)) ∧
    (0 < q → q < 1 → ∀ le c,
      h.buckets.find? (fun b => F64.le (.num (q * h.total)) b.2) = some (.num le, c) →
        F64.le r (.num le) = true) := by
  have hne : h.finite ≠ [] := by
    intro hempty
    rw [quantileFromBuckets, if_pos (by rw [h.length_buckets, hempty]; decide)] at hr
    cases hr
  refine ⟨?_, fun h0 h1 le c hfind => h.quantile_le_bound hne hstart h0 h1 hr hfind⟩
  rcases h0.eq_or_lt with rfl | h0
  · rcases hle.eq_or_lt with rfl | hpos
    · refine iff_of_true ?_ (.inr (.inl rfl))
      rw [Option.some.inj (hr.symm.trans hr')]
      rw [h.quantile_zero hne] at hr'
      cases hr'
      cases h.finite.find? fun b => decide (0 < b.2) with
      | none => rfl
      | some b => exact (Exact.le_num b.1 b.1).trans (decide_eq_true le_rfl)
    · rw [h.quantile_zero_le_iff hne hpos h1 hr hr']
      simp [hpos.ne']
  · exact iff_of_true (h.quantile_mono hne hstart h0 hle h1 hr hr') (.inl h0)

/-- Two buckets with finite bounds. -/
def latencies : Histogram where
  finite := [(1, 2), (5, 4)]
  total := 5
  bounds := by decide +kernel
  counts := by decide +kernel
  nonneg := by decide +kernel
  pos := by decide +kernel

/-- The median and the upper tenth of five requests. -/
theorem quantiles_ordered_latencies :
    (F64.le (Exact.num 2) (.num 5) = true ↔ (0 : ℚ) < 1 / 2 ∨ (9 / 10 : ℚ) = 0 ∨
      ∃ b, latencies.lowest = some b ∧ (b.2 ≤ 9 / 10 * latencies.total ∨
        latencies.finite.head? = some b ∧ b.1 ≤ 0)) ∧
    ((0 : ℚ) < 1 / 2 → (1 / 2 : ℚ) < 1 → ∀ le c,
      latencies.buckets.find? (fun b => F64.le (.num (1 / 2 * latencies.total)) b.2) =
        some (.num le, c) → F64.le (Exact.num 2) (.num le) = true) :=
  quantiles_ordered latencies (1 / 2) (9 / 10)
    (by unfold Histogram.AboveZero; decide +kernel) (by norm_num) (by norm_num) (by norm_num)
    (.num 2) (.num 5) (by decide +kernel) (by decide +kernel)

/-- **The quantile zero is above the median** of a histogram with one bucket of counts: it is the
upper bound of the bucket. With a negative bound, the median is above the bound of its bucket. -/
theorem quantile_above_its_bounds :
    quantileFromBuckets [(Exact.num 10, Exact.num 5), (.inf, .num 5)] (.num 0) = some (.num 10) ∧
      quantileFromBuckets [(Exact.num 10, Exact.num 5), (.inf, .num 5)] (.num (1 / 2)) =
        some (.num 5) ∧
      F64.le (Exact.num 10) (.num 5) = false ∧
      quantileFromBuckets [(Exact.num (-10), Exact.num 5), (.inf, .num 5)] (.num (1 / 2)) =
        some (.num (-5)) ∧
      F64.le (Exact.num (-5)) (.num (-10)) = false := by
  decide +kernel

end Skaldberg.Prometheus
