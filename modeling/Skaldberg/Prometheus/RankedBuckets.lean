import Skaldberg.Prometheus.BucketRates
import Skaldberg.Prometheus.GroupKey

/-!
# Ranked buckets

The query of `histogram_quantile` ranks the buckets of each group in a window and joins the first
that reaches the quantile with the series that represents the group. A group is the text that its
labels without `le` spell, the empty text where there are none (`annotatedBuckets_eq`): here no
series is lost for want of labels.

As long as no two groups spell alike (`Skaldberg.Prometheus.GroupsSpeltApart`), the answer has a row
for each group and timestamp, with the quantile of its buckets by their greatest rate
(`Skaldberg.Prometheus.mem_histogramQuantileOf`, `Skaldberg.Prometheus.find?_rankPartition`).
-/

namespace Skaldberg.Prometheus

/-- **A bound is read alike** by the query and by the program. -/
theorem castLe_eq (s : String) : castLe (F := Exact) s = parseLe s := by
  rw [castLe, parseLe]
  split_ifs
  · show Exact.parse "Infinity" = some .inf
    decide +kernel
  · show Exact.parse "-Infinity" = some .negInf
    decide +kernel
  · rfl

theorem remaining_le (labels : Labels) : remaining ["le"] labels = labels.erase "le" := by
  rw [remaining, SortedMap.erase]
  congr 1
  funext k _
  by_cases h : k = "le" <;> simp [h]

section Query

variable {τ : Type} [DecidableEq τ]

/-- **The texts of the groups**: what the labels other than `le` spell, of no labels too. -/
theorem annotatedBuckets_eq {F : Type} [F64 F] (E : Sql.Engine) {buckets : List (Bucket τ F)}
    (hnodup : (buckets.map fun b => (b.at_, b.seriesId)).Nodup) :
    annotatedBuckets E buckets = buckets.map fun b => ⟨b, spelling (b.labels.erase "le")⟩ := by
  let pairsOf (b : Bucket τ F) := (b.labels.keys.filter fun k => k != "le").map fun k =>
    ((b.at_, b.seriesId), k, elementAt b.labels k)
  have hpairs : ∀ b, pairsOf b = (b.labels.erase "le").entries.map fun e =>
      ((b.at_, b.seriesId), e.1, some e.2) := by
    intro b
    rw [← remaining_le, ← pairs_eq_entries]
    refine congrArg (List.map _) (List.filter_congr fun k _ => ?_)
    by_cases h : k = "le" <;> simp [h]
  have hgk : ∀ b ∈ buckets, (bucketGk E buckets).filter
      (fun g => decide ((b.at_, b.seriesId) = g.1)) =
        if (b.labels.erase "le").isEmpty then []
        else [((b.at_, b.seriesId), some (spelling (b.labels.erase "le")))] := by
    intro b hb
    have hgroup := Sql.filter_groupBy_flatMap Prod.fst pairsOf hnodup
      (fun b' _ r hr => by
        obtain ⟨k, -, rfl⟩ := List.mem_map.mp hr
        rfl) hb
    have hcomm : (fun g : (τ × ℤ) × Option String => decide ((b.at_, b.seriesId) = g.1)) ∘
        (fun g : (τ × ℤ) × List ((τ × ℤ) × String × Option String) =>
          (g.1, stringAgg E (g.2.map Prod.snd))) =
            fun g => decide (g.1 = (b.at_, b.seriesId)) := by
      funext g
      exact decide_eq_decide.mpr eq_comm
    rw [bucketGk, List.filter_map, hcomm]
    change ((Sql.groupBy Prod.fst (buckets.flatMap pairsOf)).filter _).map _ = _
    rw [hgroup, hpairs, List.isEmpty_map]
    change (if (b.labels.erase "le").isEmpty = true then _ else _ : List _).map _ = _
    split_ifs with hempty
    · rfl
    · rw [List.map_singleton, List.map_map]
      change [((b.at_, b.seriesId), stringAgg E ((b.labels.erase "le").entries.map fun e =>
        (e.1, some e.2)))] = _
      rw [stringAgg_entries, if_neg hempty]
  rw [annotatedBuckets, Sql.leftJoin, List.map_flatMap, List.map_eq_flatMap (l := buckets)]
  refine List.flatMap_congr fun b hb => ?_
  rw [hgk b hb]
  by_cases hempty : (b.labels.erase "le").isEmpty = true
  · have hnil : (b.labels.erase "le").entries = [] := List.isEmpty_iff.mp hempty
    rw [if_pos hempty, spelling, hnil]
    rfl
  · rw [if_neg hempty]
    rfl

/-! ### The buckets of a partition -/

/-- The buckets of a partition, ranked. -/
def rankPartition (E : Sql.Engine) (rows : List (GroupedBucket τ Exact)) :
    List (RankedBucket τ Exact) :=
  let sorted := E.sort (fun a b => F64.totalLe a.le b.le) rows
  (Sql.Engine.numberedFrom none 1 sorted).map fun w =>
    { bucket := w.row
      prev := w.prev
      rn := w.number
      total := (aggCall .max (sorted.map fun b => b.cum)).getD (F64.ofInt 0) }

/-- Whether a bucket reaches the quantile. -/
def crosses (q : Exact) (r : RankedBucket τ Exact) : Bool :=
  F64.sqlLt (F64.ofInt 0) r.total && F64.totalLe (F64.mul q r.total) r.bucket.cum

omit [DecidableEq τ] in
theorem mem_rankPartition {E : Sql.Engine} {rows : List (GroupedBucket τ Exact)}
    {r : RankedBucket τ Exact} (h : r ∈ rankPartition E rows) : r.bucket ∈ rows := by
  obtain ⟨w, hw, rfl⟩ := List.mem_map.mp h
  have hrow := List.mem_map_of_mem (f := Sql.Engine.WindowRow.row) hw
  rw [Sql.Engine.map_row_numberedFrom] at hrow
  exact E.mem_sort.mp hrow

variable (E : Sql.Engine) (buckets : List (GroupedBucket τ Exact))

/-- **The buckets are ranked partition by partition.** -/
theorem rankedBuckets_eq : rankedBuckets E buckets =
    (Sql.groupBy GroupedBucket.partition buckets).flatMap fun g => rankPartition E g.2 := by
  rw [rankedBuckets, E.overPartition_window, List.map_flatMap]
  refine List.flatMap_congr fun g _ => ?_
  let sorted := E.sort (fun a b => F64.totalLe a.le b.le) g.2
  have hcums : (Sql.Engine.numberedFrom none 1 sorted).map (fun w => w.row.cum) =
      sorted.map fun b => b.cum := by
    conv_rhs => rw [← Sql.Engine.map_row_numberedFrom none 1 sorted]
    rw [List.map_map]
    rfl
  rw [List.map_map, rankPartition, ← hcums]
  rfl

theorem filter_rankedBuckets (k : τ × String) :
    (rankedBuckets E buckets).filter (fun r => decide (r.bucket.partition = k)) =
      rankPartition E (buckets.filter fun b => decide (b.partition = k)) := by
  rw [rankedBuckets_eq]
  refine Sql.filter_flatMap_groupBy ?_ (fun g hg r hr => ?_) k
  · rw [rankPartition, E.sort_nil]
    rfl
  · exact (Sql.mem_of_mem_groupBy hg (mem_rankPartition hr)).2

omit [DecidableEq τ] in
theorem rn_rankPartition (rows : List (GroupedBucket τ Exact)) :
    ((rankPartition E rows).map RankedBucket.rn).Pairwise (· < ·) := by
  rw [rankPartition, List.map_map]
  change ((Sql.Engine.numberedFrom none 1 _).map Sql.Engine.WindowRow.number).Pairwise _
  rw [Sql.Engine.map_number_numberedFrom]
  exact List.pairwise_lt_range' 1 Nat.one_pos

/-- **The first bucket of a partition to reach the quantile** is the one that is joined. -/
theorem mem_crossed_iff (q : Exact) (r : RankedBucket τ Exact) :
    (∃ c, (c, r) ∈ Sql.join (fun c r => decide (c.1 = r.bucket.partition ∧ c.2 = r.rn))
        (crossing q (rankedBuckets E buckets)) (rankedBuckets E buckets)) ↔
      (rankPartition E (buckets.filter fun b => decide (b.partition = r.bucket.partition))).find?
        (crosses q) = some r := by
  let k := r.bucket.partition
  have hranked := filter_rankedBuckets E buckets k
  have hpartition : ∀ x, x ∈ rankPartition E (buckets.filter fun b => decide (b.partition = k)) ↔
      x ∈ rankedBuckets E buckets ∧ x.bucket.partition = k := by
    intro x
    rw [← hranked, List.mem_filter, decide_eq_true_eq]
  have hcrossed : ((rankedBuckets E buckets).filter (crosses q)).filter
      (fun x => decide (x.bucket.partition = k)) =
        (rankPartition E (buckets.filter fun b => decide (b.partition = k))).filter
          (crosses q) := by
    rw [List.filter_comm, hranked]
  rw [← Sql.least_number_iff (rn_rankPartition E _) (crosses q)]
  constructor
  · rintro ⟨c, hc⟩
    obtain ⟨hcross, hr, hon⟩ := Sql.mem_join.mp hc
    obtain ⟨hk, hrn⟩ := of_decide_eq_true hon
    obtain ⟨g, hg, rfl⟩ := List.mem_map.mp hcross
    obtain ⟨⟨x, hx, hxk⟩, hrows⟩ := Sql.mem_groupBy.mp hg
    obtain ⟨hx, hpx⟩ := List.mem_filter.mp hx
    have hk : g.1 = k := hk
    refine ⟨(hpartition r).mpr ⟨hr, rfl⟩, ⟨x, (hpartition x).mpr ⟨hx, hxk.trans hk⟩, hpx⟩, ?_⟩
    rw [← hrn, hrows, hk, ← hcrossed]
    rfl
  · rintro ⟨hr, ⟨x, hx, hpx⟩, hrn⟩
    obtain ⟨hr, -⟩ := (hpartition r).mp hr
    obtain ⟨hx, hxk⟩ := (hpartition x).mp hx
    have hg : (k, ((rankedBuckets E buckets).filter (crosses q)).filter
        fun x => decide (x.bucket.partition = k)) ∈ Sql.groupBy (fun x => x.bucket.partition)
          ((rankedBuckets E buckets).filter (crosses q)) :=
      Sql.mem_groupBy.mpr ⟨⟨x, List.mem_filter.mpr ⟨hx, hpx⟩, hxk⟩, rfl⟩
    refine ⟨(k, r.rn), Sql.mem_join.mpr ⟨List.mem_map.mpr ⟨_, hg, ?_⟩, hr,
      decide_eq_true ⟨rfl, rfl⟩⟩⟩
    rw [← hrn, ← hcrossed]

/-! ### The value of a partition -/

/-- A bucket, as the program has it. -/
def pairOf (b : GroupedBucket τ Exact) : Exact × Exact := (b.le, b.cum)

omit [DecidableEq τ] in
/-- **The first bucket to reach the quantile** is the one that the walk of the program stops at, and
the value interpolated there is that of the walk. -/
theorem find?_interpolate {q total : ℚ} (hpos : 0 < total) (l : List (GroupedBucket τ Exact))
    (prev : Option (GroupedBucket τ Exact)) (n : ℕ)
    (hrate : ∀ b ∈ prev.toList ++ l, b.cum.IsNum)
    (hbound : ∀ b ∈ l, b.le.IsNum ∨ b.le = .inf) :
    (((Sql.Engine.numberedFrom prev n l).map fun w =>
        (⟨w.row, w.prev, w.number, .num total⟩ : RankedBucket τ Exact)).find?
          (crosses (.num q))).map (interpolate (.num q)) =
      walkBuckets (.num (q * total)) ((prev.map fun b => b.le).getD (F64.ofInt 0))
        ((prev.map fun b => b.cum).getD (F64.ofInt 0)) (l.map pairOf) := by
  induction l generalizing prev n with
  | nil => rfl
  | cons b l ih =>
    obtain ⟨c, hc⟩ := hrate b (by simp)
    have hcross : crosses (.num q) ⟨b, prev, n, .num total⟩ = decide (q * total ≤ c) := by
      have hlt : F64.sqlLt (F64.ofInt 0) (Exact.num total) = true := by
        show (!Exact.totalLe (.num total) (.num 0)) = true
        simpa using hpos
      show (F64.sqlLt _ _ && Exact.totalLe (.num (q * total)) b.cum) = _
      rw [hlt, hc, Exact.totalLe_num, Bool.true_and]
    rw [Sql.Engine.numberedFrom_cons, List.map_cons, List.map_cons, pairOf, walkBuckets, hc,
      Exact.le_num]
    by_cases hle : q * total ≤ c
    · rw [List.find?_cons_of_pos (by rw [hcross]; exact decide_eq_true hle), Option.map_some,
        if_pos (decide_eq_true hle)]
      obtain ⟨p, hp⟩ : ((prev.map fun b : GroupedBucket τ Exact => b.cum).getD
          (F64.ofInt 0)).IsNum := by
        cases prev with
        | none => exact ⟨0, rfl⟩
        | some b' => exact hrate b' (by simp)
      have hinf : F64.sqlEq b.le F64.inf = F64.isInfinite b.le := by
        rcases hbound b (List.mem_cons_self ..) with ⟨x, hx⟩ | hinf
        · rw [hx]
          rfl
        · rw [hinf]
          rfl
      have hcount : F64.totalLe (Exact.num (c - p)) (F64.ofInt 0) =
          F64.le (Exact.num (c - p)) (F64.ofInt 0) :=
        (Exact.totalLe_num (c - p) 0).trans (Exact.le_num (c - p) 0).symm
      simp only [interpolate, hinf, hc, hp, Exact.mul_num, Exact.sub_num, hcount]
      split_ifs <;> rfl
    · rw [List.find?_cons_of_neg (by rw [hcross]; simpa using hle),
        if_neg (by simpa using hle), ← hc]
      refine ih (some b) (n + 1) (fun b' hb' => ?_) fun b' hb' =>
        hbound b' (List.mem_cons_of_mem _ hb')
      exact hrate b' (List.mem_append_right _ (by simpa using hb'))

omit [DecidableEq τ] in
/-- **What the query finds in a partition** is the quantile by its greatest rate. -/
theorem find?_rankPartition (E : Sql.Engine) {rows : List (GroupedBucket τ Exact)} {V : BucketRates}
    (hrows : V.buckets.Perm (rows.map pairOf)) (q : ℚ) :
    ((rankPartition E rows).find? (crosses (.num q))).map (interpolate (.num q)) =
      V.quantileByLargest q := by
  let sorted := E.sort (fun a b : GroupedBucket τ Exact => F64.totalLe a.le b.le) rows
  have hsorted : sorted.map pairOf = V.buckets := by
    refine V.eq_of_perm_of_pairwise (((E.sort_perm _ rows).map pairOf).trans hrows.symm) ?_
    rw [List.pairwise_map]
    exact E.sort_pairwise _ rows (fun _ _ => Exact.totalLe_total _ _)
      fun _ _ _ => Exact.totalLe_trans
  have hrates : sorted.map (fun b => b.cum) = V.rates.map Exact.num := by
    rw [← V.map_snd_buckets, ← hsorted, List.map_map]
    rfl
  have htotal : (aggCall .max (sorted.map fun b => b.cum)).getD (F64.ofInt 0) =
      Exact.num V.largest := by
    rw [hrates, BucketRates.largest]
    cases hl : V.rates with
    | nil => rfl
    | cons c cs =>
      have hne : (c :: cs).map Exact.num ≠ [] := by simp
      rw [aggCall_eq .max hne (by simp [Exact.IsNum]), applyAgg, List.map_cons, List.foldl_cons,
        show F64.fmax F64.negInf (Exact.num c) = .num c from Exact.fmax_negInf_num c,
        Exact.foldl_fmax_num]
      rfl
  have hmem : ∀ b ∈ sorted, pairOf b ∈ V.buckets := fun b hb => hsorted ▸ List.mem_map_of_mem hb
  change ((List.map _ (Sql.Engine.numberedFrom none 1 sorted)).find? _).map _ = _
  rw [htotal, BucketRates.quantileByLargest]
  split_ifs with hpos
  · rw [← hsorted]
    exact find?_interpolate hpos sorted none 1 (fun b hb => V.isNum_snd (hmem b hb))
      fun b hb => V.bound (hmem b hb)
  · rw [List.find?_eq_none.mpr, Option.map_none]
    intro r hr hcross
    obtain ⟨w, -, rfl⟩ := List.mem_map.mp hr
    have hlt : (!Exact.totalLe (.num V.largest) (.num 0)) = true :=
      (Bool.and_eq_true_iff.mp hcross).1
    exact hpos (by simpa using hlt)

/-! ### The rows of the query -/

variable {t : Tables Exact} {points : List (Point τ Exact)}

/-- The buckets among some points, with the texts of their groups. -/
def groupedBuckets (t : Tables Exact) (points : List (Point τ Exact)) :
    List (GroupedBucket τ Exact) :=
  (joinSeries t Point.seriesId points).filterMap fun r => (splitLe r.2.labels).map fun b =>
    ⟨⟨r.1.at_, r.1.seriesId, r.2.labels, r.1.value, b.1⟩, spelling b.2⟩

/-- The buckets of a group at a timestamp. -/
def bucketsOfGroup (t : Tables Exact) (points : List (Point τ Exact)) (at_ : τ) (labels : Labels) :
    List (GroupedBucket τ Exact) :=
  (groupedBuckets t points).filter fun b => decide (b.at_ = at_ ∧ b.labels.erase "le" = labels)

/-- No two groups spell alike. -/
def GroupsSpeltApart (t : Tables Exact) (points : List (Point τ Exact)) : Prop :=
  ∀ b ∈ groupedBuckets t points, ∀ b' ∈ groupedBuckets t points, b.groupKey = b'.groupKey →
    b.labels.erase "le" = b'.labels.erase "le"

omit [DecidableEq τ] in
/-- A bucket is a point of a series. -/
theorem exists_series_of_mem_groupedBuckets {b : GroupedBucket τ Exact}
    (hb : b ∈ groupedBuckets t points) : ∃ s ∈ t.series, s.seriesId = b.seriesId ∧
      s.labels = b.labels ∧ b.groupKey = spelling (b.labels.erase "le") := by
  obtain ⟨r, hr, hbr⟩ := List.mem_filterMap.mp hb
  obtain ⟨x, hx, rfl⟩ := Option.map_eq_some_iff.mp hbr
  obtain ⟨le, -, rfl⟩ := Option.map_eq_some_iff.mp hx
  obtain ⟨-, hs, hon⟩ := Sql.mem_join.mp hr
  exact ⟨r.2, hs, (beq_iff_eq.mp hon).symm, rfl, rfl⟩

omit [DecidableEq τ] in
theorem nodup_joinSeries {F : Type} {t : Tables F} {points : List (Point τ F)}
    (h : OneRowPerSeries t) (hpoints : (points.map fun p => (p.at_, p.seriesId)).Nodup) :
    ((joinSeries t Point.seriesId points).map fun r => (r.1.at_, r.1.seriesId)).Nodup := by
  have hmap := hpoints.sublist
    ((joinSeries_fst_sublist h Point.seriesId points).map fun p => (p.at_, p.seriesId))
  rwa [List.map_map] at hmap

omit [DecidableEq τ] in
/-- A series is one bucket at a timestamp. -/
theorem nodup_filteredBuckets {F : Type} [F64 F] {t : Tables F} {points : List (Point τ F)}
    (h : OneRowPerSeries t) (hpoints : (points.map fun p => (p.at_, p.seriesId)).Nodup) :
    ((filteredBuckets t points).map fun b => (b.at_, b.seriesId)).Nodup := by
  rw [filteredBuckets, List.Nodup, List.pairwise_map, List.pairwise_filterMap]
  refine (List.pairwise_map.mp (nodup_joinSeries h hpoints)).imp fun hne b hb b' hb' => ?_
  obtain ⟨le, -, rfl⟩ := Option.map_eq_some_iff.mp hb
  obtain ⟨le', -, rfl⟩ := Option.map_eq_some_iff.mp hb'
  exact hne

/-- **The buckets with the texts of their groups**, in the query. -/
theorem annotatedBuckets_filteredBuckets (h : OneRowPerSeries t)
    (hpoints : (points.map fun p => (p.at_, p.seriesId)).Nodup) (E : Sql.Engine) :
    annotatedBuckets E (filteredBuckets t points) = groupedBuckets t points := by
  have hbuckets : filteredBuckets t points = (joinSeries t Point.seriesId points).filterMap
      fun r => (splitLe r.2.labels).map fun b =>
        ⟨r.1.at_, r.1.seriesId, r.2.labels, r.1.value, b.1⟩ := by
    refine List.filterMap_congr fun r _ => ?_
    have hcast : castLe (F := Exact) = parseLe := funext castLe_eq
    rw [splitLe, Option.map_map, elementAt, hcast]
    rfl
  rw [annotatedBuckets_eq E (nodup_filteredBuckets h hpoints), hbuckets, List.map_filterMap,
    groupedBuckets]
  refine List.filterMap_congr fun r _ => ?_
  rw [splitLe, Option.map_map, Option.map_map, Option.map_map]
  rfl

omit [DecidableEq τ] in
theorem exists_repSids {ranked : List (RankedBucket τ Exact)} {r : RankedBucket τ Exact}
    (hr : r ∈ ranked) : ∃ rep ∈ repSids ranked, rep.1 = r.bucket.groupKey := by
  have hg : (r.bucket.groupKey, ranked.filter fun x =>
      decide (x.bucket.groupKey = r.bucket.groupKey)) ∈
        Sql.groupBy (fun x => x.bucket.groupKey) ranked :=
    Sql.mem_groupBy.mpr ⟨⟨r, hr, rfl⟩, rfl⟩
  exact ⟨_, List.mem_map_of_mem hg, rfl⟩

theorem bucket_mem_of_mem_rankedBuckets {E : Sql.Engine} {r : RankedBucket τ Exact}
    (hr : r ∈ rankedBuckets E buckets) : r.bucket ∈ buckets := by
  have hmem : r ∈ (rankedBuckets E buckets).filter fun x =>
      decide (x.bucket.partition = r.bucket.partition) :=
    List.mem_filter.mpr ⟨hr, decide_eq_true rfl⟩
  rw [filter_rankedBuckets] at hmem
  exact List.mem_of_mem_filter (mem_rankPartition hmem)

section Rows

variable (h : OneRowPerSeries t) (hpoints : (points.map fun p => (p.at_, p.seriesId)).Nodup)
include h hpoints

/-- **A row of the query** is the quantile found in a partition, under the labels of the series that
represents its text. -/
theorem exists_of_mem_histogramQuantileOf {E : Sql.Engine} {q : Exact} {at_ : τ} {labels : Labels}
    {o : Option Exact} (hrow : (at_, labels, o) ∈ histogramQuantileOf E t q points) :
    ∃ r ∈ rankedBuckets E (groupedBuckets t points),
      ∃ rep ∈ repSids (rankedBuckets E (groupedBuckets t points)),
        (rankPartition E ((groupedBuckets t points).filter fun b =>
          decide (b.partition = r.bucket.partition))).find? (crosses q) = some r ∧
        r.bucket.at_ = at_ ∧ o = some (interpolate q r) ∧ rep.1 = r.bucket.groupKey ∧
        ∃ b ∈ groupedBuckets t points, b.groupKey = rep.1 ∧ b.seriesId = rep.2 ∧
          b.labels.erase "le" = labels := by
  rw [histogramQuantileOf, annotatedBuckets_filteredBuckets h hpoints, List.mem_map] at hrow
  obtain ⟨⟨y, s⟩, hy, heq⟩ := hrow
  obtain ⟨hy, hs, hon⟩ := Sql.mem_join.mp hy
  obtain ⟨⟨⟨c, r⟩, rep⟩, hrow, rfl⟩ := List.mem_map.mp hy
  obtain ⟨hcr, hrep, htext⟩ := Sql.mem_join.mp hrow
  obtain ⟨-, hr, hcon⟩ := Sql.mem_join.mp hcr
  obtain ⟨r', hr', hkey, hid⟩ := mem_repSids hrep
  have hb := bucket_mem_of_mem_rankedBuckets _ hr'
  obtain ⟨s', hs', hid', hlabels, -⟩ := exists_series_of_mem_groupedBuckets hb
  -- the series that represents the text is that of the bucket
  have hsame : s = s' :=
    series_eq h hs hs' ((beq_iff_eq.mp hon).symm.trans (hid.symm.trans hid'.symm))
  rw [Prod.mk.injEq, Prod.mk.injEq] at heq
  obtain ⟨hat, hlab, hval⟩ := heq
  refine ⟨r, hr, rep, hrep, (mem_crossed_iff E _ q r).mp ⟨c, hcr⟩, hat, hval.symm, ?_, r'.bucket,
    hb, hkey, hid, ?_⟩
  · rw [← of_decide_eq_true htext, (of_decide_eq_true hcon).1]
    rfl
  · rw [← hlabels, ← hsame]
    exact hlab

/-- **A text has the labels of one group**, at all timestamps. -/
theorem labels_eq_of_mem_histogramQuantileOf {E : Sql.Engine} {q : Exact} {at_ at_' : τ}
    {labels labels' : Labels} {o o' : Option Exact}
    (hrow : (at_, labels, o) ∈ histogramQuantileOf E t q points)
    (hrow' : (at_', labels', o') ∈ histogramQuantileOf E t q points)
    (hspell : spelling labels = spelling labels') : labels = labels' := by
  obtain ⟨-, -, rep, hrep, -, -, -, -, b, hb, hkey, hid, rfl⟩ :=
    exists_of_mem_histogramQuantileOf h hpoints hrow
  obtain ⟨-, -, rep', hrep', -, -, -, -, b', hb', hkey', hid', rfl⟩ :=
    exists_of_mem_histogramQuantileOf h hpoints hrow'
  obtain ⟨s, hs, hsid, hlabels, htext⟩ := exists_series_of_mem_groupedBuckets hb
  obtain ⟨s', hs', hsid', hlabels', htext'⟩ := exists_series_of_mem_groupedBuckets hb'
  have hnodup : ((repSids (rankedBuckets E (groupedBuckets t points))).map Prod.fst).Nodup := by
    rw [repSids, List.map_map]
    exact Sql.nodup_groupBy_keys _ _
  have hrep : rep = rep' := by
    refine List.inj_on_of_nodup_map hnodup hrep hrep' ?_
    rw [← hkey, ← hkey', htext, htext', hspell]
  rw [← hlabels, ← hlabels', series_eq h hs hs' (by rw [hsid, hsid', hid, hid', hrep])]

/-- **What the query returns**: for each group and timestamp the quantile of its buckets there, as
long as no two groups spell alike. -/
theorem mem_histogramQuantileOf (hspelt : GroupsSpeltApart t points) (E : Sql.Engine) (q : Exact)
    {at_ : τ} {labels : Labels} {o : Option Exact} :
    (at_, labels, o) ∈ histogramQuantileOf E t q points ↔
      ∃ v, o = some v ∧ ((rankPartition E (bucketsOfGroup t points at_ labels)).find?
        (crosses q)).map (interpolate q) = some v := by
  -- the partition of a bucket is its group at its timestamp
  have hpartition : ∀ b ∈ groupedBuckets t points,
      (groupedBuckets t points).filter (fun b' => decide (b'.partition = b.partition)) =
        bucketsOfGroup t points b.at_ (b.labels.erase "le") := by
    intro b hb
    refine List.filter_congr fun b' hb' => decide_eq_decide.mpr ?_
    rw [GroupedBucket.partition, GroupedBucket.partition, Prod.mk.injEq]
    refine and_congr_right fun _ => ⟨hspelt b' hb' b hb, fun hlabels => ?_⟩
    obtain ⟨-, -, -, -, hkey⟩ := exists_series_of_mem_groupedBuckets hb
    obtain ⟨-, -, -, -, hkey'⟩ := exists_series_of_mem_groupedBuckets hb'
    rw [hkey, hkey', hlabels]
  constructor
  · intro hrow
    obtain ⟨r, hr, rep, -, hfind, hat, ho, htext, b, hb, hkey, -, hlabels⟩ :=
      exists_of_mem_histogramQuantileOf h hpoints hrow
    have hrb := bucket_mem_of_mem_rankedBuckets _ hr
    rw [hpartition _ hrb, hat, ← hspelt b hb _ hrb (hkey.trans htext), hlabels] at hfind
    exact ⟨_, ho, by rw [hfind]; rfl⟩
  · rintro ⟨v, rfl, hv⟩
    obtain ⟨r, hfind, rfl⟩ := Option.map_eq_some_iff.mp hv
    have hmem := mem_rankPartition (List.mem_of_find?_eq_some hfind)
    obtain ⟨hb, hat, hlabels⟩ : r.bucket ∈ groupedBuckets t points ∧ r.bucket.at_ = at_ ∧
        r.bucket.labels.erase "le" = labels := by
      simpa [bucketsOfGroup] using hmem
    rw [← hat, ← hlabels, ← hpartition _ hb] at hfind
    obtain ⟨c, hcr⟩ := (mem_crossed_iff E _ q r).mpr hfind
    obtain ⟨-, hr, hcon⟩ := Sql.mem_join.mp hcr
    obtain ⟨rep, hrep, htext⟩ := exists_repSids hr
    obtain ⟨r', hr', hkey, hid⟩ := mem_repSids hrep
    have hb' := bucket_mem_of_mem_rankedBuckets _ hr'
    obtain ⟨s, hs, hid', hlabels', -⟩ := exists_series_of_mem_groupedBuckets hb'
    have hgroup : s.labels.erase "le" = labels := by
      rw [hlabels', ← hlabels]
      exact hspelt _ hb' _ hb (hkey.trans htext)
    rw [histogramQuantileOf, annotatedBuckets_filteredBuckets h hpoints, List.mem_map]
    refine ⟨(((r.bucket.at_, interpolate q r), rep.2), s), Sql.mem_join.mpr
      ⟨List.mem_map.mpr ⟨((c, r), rep), Sql.mem_join.mpr ⟨hcr, hrep, ?_⟩, rfl⟩, hs, ?_⟩, ?_⟩
    · refine decide_eq_true ?_
      rw [(of_decide_eq_true hcon).1, htext]
      rfl
    · exact beq_iff_eq.mpr (hid.symm.trans hid'.symm)
    · rw [hgroup, hat]

end Rows

end Query

end Skaldberg.Prometheus
