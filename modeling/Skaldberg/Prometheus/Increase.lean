import Skaldberg.Lib.Counter
import Skaldberg.Prometheus.ExactPoints
import Skaldberg.Prometheus.QueryWindow
import Skaldberg.Prometheus.Windows

/-!
# The increase of a window

What the query of `rate` and `increase` sums over a window is the increase of a counter over the
readings of the window (`totalDelta_windowAgg`), in the order in which the query sorts them. Where
the timestamps of the window are distinct there is one order, and the laws of counters are laws of
the query: the increase in closed form, its sign and its additivity, and that `rate` is the
increase over the extent of the window and `irate` of two samples their `rate` (`CounterLaws`,
`increase_laws`).
-/

namespace Skaldberg.Prometheus

variable {τ : Type}

/-- The number of a row. -/
def BaseRow.num (b : BaseRow τ Exact) : ℚ := b.value.toRat

theorem BaseRow.value_eq {b : BaseRow τ Exact} (h : b.value.IsNum) : b.value = .num b.num := by
  obtain ⟨q, hq⟩ := h
  rw [BaseRow.num, hq]
  rfl

theorem resetAdjusted_num (p q : ℚ) :
    resetAdjusted (Exact.num p) (.num q) = .num (Counter.step p q) := by
  have hle : F64.totalLe (Exact.num p) (.num q) = decide (p ≤ q) := Exact.totalLe_num p q
  rw [resetAdjusted, hle, Counter.step]
  simp only [decide_eq_true_eq]
  split_ifs
  · exact Exact.sub_num q p
  · rfl

/-! ### Totals -/

/-- **The sum over the rows of a window** is the increase over their readings. -/
theorem sum_rowDelta {s : List (BaseRow τ Exact)} (h : ∀ b ∈ s, b.value.IsNum) :
    F64.sum ((s.zip (none :: s.map some)).map rowDelta) =
      .num (Counter.increase (s.map BaseRow.num)) := by
  have hfold : ∀ (s : List (BaseRow τ Exact)) (p : BaseRow τ Exact) (c : ℚ), p.value.IsNum →
      (∀ b ∈ s, b.value.IsNum) →
      ((s.zip (some p :: s.map some)).map rowDelta).foldl F64.add (.num c) =
        .num (c + Counter.increase (p.num :: s.map BaseRow.num)) := by
    intro s
    induction s with
    | nil => exact fun p c _ _ => by simp
    | cons b s ih =>
      intro p c hp hs
      have hb := hs b (List.mem_cons_self ..)
      have hdelta : rowDelta (b, some p) = .num (Counter.step p.num b.num) := by
        show resetAdjusted p.value b.value = _
        rw [BaseRow.value_eq hp, BaseRow.value_eq hb, resetAdjusted_num]
      rw [List.map_cons, List.zip_cons_cons, List.map_cons, List.foldl_cons, hdelta,
        Exact.add_num, ih b _ hb fun b' hb' => hs b' (List.mem_cons_of_mem _ hb'), List.map_cons,
        Counter.increase_cons_cons, add_assoc]
  cases s with
  | nil => rfl
  | cons b s =>
    have hb := h b (List.mem_cons_self ..)
    rw [List.map_cons, List.zip_cons_cons, List.map_cons, F64.sum, List.foldl_cons]
    have hzero : F64.add (F64.ofInt 0) (rowDelta (b, none)) = Exact.num 0 :=
      congrArg Exact.num (add_zero 0)
    rw [hzero, hfold s b 0 hb fun b' hb' => h b' (List.mem_cons_of_mem _ hb'), zero_add,
      List.map_cons]

theorem totalDelta_windowAgg (E : Sql.Engine) {rows : List (BaseRow τ Exact)}
    (h : ∀ b ∈ rows, b.value.IsNum) (k : τ × ℤ) :
    (windowAgg k (withPrev E rows)).totalDelta =
      .num (Counter.increase ((E.sort tsAsc rows).map BaseRow.num)) :=
  sum_rowDelta fun b hb => h b (E.mem_sort.mp hb)

/-- The last timestamp of some rows. -/
def lastTs (rows : List (BaseRow τ Exact)) : ℤ := (rows.map BaseRow.tsUs).max?.getD 0

/-- The first timestamp of some rows. -/
def firstTs (rows : List (BaseRow τ Exact)) : ℤ := (rows.map BaseRow.tsUs).min?.getD 0

theorem lastTs_eq {rows : List (BaseRow τ Exact)} {b : BaseRow τ Exact} (hb : b ∈ rows)
    (h : ∀ b' ∈ rows, b'.tsUs ≤ b.tsUs) : lastTs rows = b.tsUs := by
  have hmax : (rows.map BaseRow.tsUs).max? = some b.tsUs := by
    refine List.max?_eq_some_iff.mpr ⟨List.mem_map_of_mem hb, fun ts hts => ?_⟩
    obtain ⟨b', hb', rfl⟩ := List.mem_map.mp hts
    exact h b' hb'
  rw [lastTs, hmax, Option.getD_some]

theorem firstTs_eq {rows : List (BaseRow τ Exact)} {b : BaseRow τ Exact} (hb : b ∈ rows)
    (h : ∀ b' ∈ rows, b.tsUs ≤ b'.tsUs) : firstTs rows = b.tsUs := by
  have hmin : (rows.map BaseRow.tsUs).min? = some b.tsUs := by
    refine List.min?_eq_some_iff.mpr ⟨List.mem_map_of_mem hb, fun ts hts => ?_⟩
    obtain ⟨b', hb', rfl⟩ := List.mem_map.mp hts
    exact h b' hb'
  rw [firstTs, hmin, Option.getD_some]

theorem exists_last {rows : List (BaseRow τ Exact)} (h : rows ≠ []) :
    ∃ b ∈ rows, ∀ b' ∈ rows, b'.tsUs ≤ b.tsUs := by
  have hne : rows.map BaseRow.tsUs ≠ [] := by simpa using h
  obtain ⟨ts, hts⟩ := Option.isSome_iff_exists.mp (List.isSome_max?_of_ne_nil hne)
  obtain ⟨hmem, hmax⟩ := List.max?_eq_some_iff.mp hts
  obtain ⟨b, hb, rfl⟩ := List.mem_map.mp hmem
  exact ⟨b, hb, fun b' hb' => hmax _ (List.mem_map_of_mem hb')⟩

theorem exists_first {rows : List (BaseRow τ Exact)} (h : rows ≠ []) :
    ∃ b ∈ rows, ∀ b' ∈ rows, b.tsUs ≤ b'.tsUs := by
  have hne : rows.map BaseRow.tsUs ≠ [] := by simpa using h
  obtain ⟨ts, hts⟩ := Option.isSome_iff_exists.mp (List.isSome_min?_of_ne_nil hne)
  obtain ⟨hmem, hmin⟩ := List.min?_eq_some_iff.mp hts
  obtain ⟨b, hb, rfl⟩ := List.mem_map.mp hmem
  exact ⟨b, hb, fun b' hb' => hmin _ (List.mem_map_of_mem hb')⟩

/-- Rows with the same timestamps have one first and one last timestamp. -/
theorem ends_eq_of_mem_iff {rows rows' : List (BaseRow τ Exact)} (h : ∀ b, b ∈ rows ↔ b ∈ rows') :
    lastTs rows = lastTs rows' ∧ firstTs rows = firstTs rows' := by
  by_cases hne : rows = []
  · have hne' : rows' = [] := by
      subst hne
      exact List.eq_nil_iff_forall_not_mem.mpr fun b hb => List.not_mem_nil ((h b).mpr hb)
    rw [hne, hne']
    exact ⟨rfl, rfl⟩
  · obtain ⟨b, hb, hmax⟩ := exists_last hne
    obtain ⟨c, hc, hmin⟩ := exists_first hne
    constructor
    · rw [lastTs_eq hb hmax, lastTs_eq ((h b).mp hb) fun b' hb' => hmax b' ((h b').mpr hb')]
    · rw [firstTs_eq hc hmin, firstTs_eq ((h c).mp hc) fun b' hb' => hmin b' ((h b').mpr hb')]

/-- The ends of a window, in the query. -/
theorem ends_windowAgg (E : Sql.Engine) (k : τ × ℤ) (rows : List (BaseRow τ Exact)) :
    (windowAgg k (withPrev E rows)).lastTsUs = lastTs rows ∧
      (windowAgg k (withPrev E rows)).firstTsUs = firstTs rows := by
  have hfst : (withPrev E rows).map Prod.fst = E.sort tsAsc rows := by
    rw [withPrev, List.map_fst_zip (by simp)]
  have hts : (withPrev E rows).map (fun r => r.1.tsUs) = (E.sort tsAsc rows).map BaseRow.tsUs := by
    rw [← hfst, List.map_map]
    rfl
  have hmem : ∀ b, b ∈ E.sort tsAsc rows ↔ b ∈ rows := fun _ => E.mem_sort
  have hends := ends_eq_of_mem_iff hmem
  rw [windowAgg, hts]
  exact hends

/-! ### Samples at distinct timestamps -/

/-- The row of a sample in the window of a key. -/
def sampleRow (k : τ × ℤ) (s : ℤ × ℚ) : BaseRow τ Exact := ⟨k.1, k.2, s.1, .num s.2⟩

/-- Some rows are those of samples, listed in the order of their timestamps, which are distinct. -/
structure Readings (k : τ × ℤ) (samples : List (ℤ × ℚ)) (rows : List (BaseRow τ Exact)) :
    Prop where
  /-- The timestamps increase. -/
  sorted : (samples.map Prod.fst).Pairwise (· < ·)
  /-- The rows are those of the samples. -/
  perm : rows.Perm (samples.map (sampleRow k))

variable {k : τ × ℤ} {samples : List (ℤ × ℚ)} {rows : List (BaseRow τ Exact)}

theorem Readings.isNum (h : Readings k samples rows) : ∀ b ∈ rows, b.value.IsNum := by
  intro b hb
  obtain ⟨s, -, rfl⟩ := List.mem_map.mp (h.perm.mem_iff.mp hb)
  exact ⟨s.2, rfl⟩

/-- **There is one order of distinct timestamps.** -/
theorem Readings.sort_eq (h : Readings k samples rows) (E : Sql.Engine) :
    E.sort tsAsc rows = samples.map (sampleRow k) := by
  have hsort := E.sort_pairwise (α := BaseRow τ Exact) tsAsc rows
    (fun a b => by simpa [tsAsc] using le_total a.tsUs b.tsUs)
    fun a b c => by simpa [tsAsc] using le_trans
  have hlt := h.sorted
  rw [List.pairwise_map] at hlt
  have hsamples : (samples.map (sampleRow k)).Pairwise fun a b => tsAsc a b = true := by
    rw [List.pairwise_map]
    exact hlt.imp fun hab => decide_eq_true hab.le
  have hperm := (E.sort_perm tsAsc rows).trans h.perm
  refine hperm.eq_of_pairwise (fun a b ha hb hab hba => ?_) hsort hsamples
  obtain ⟨s, hs, rfl⟩ := List.mem_map.mp (hperm.mem_iff.mp ha)
  obtain ⟨s', hs', rfl⟩ := List.mem_map.mp hb
  have heq : s.1 = s'.1 := le_antisymm (of_decide_eq_true hab) (of_decide_eq_true hba)
  rw [List.inj_on_of_nodup_map (h.sorted.imp ne_of_lt) hs hs' heq]

theorem Readings.totalDelta_eq (h : Readings k samples rows) (E : Sql.Engine) :
    (windowAgg k (withPrev E rows)).totalDelta =
      .num (Counter.increase (samples.map Prod.snd)) := by
  rw [totalDelta_windowAgg E h.isNum, h.sort_eq E, List.map_map]
  rfl

theorem Readings.ends_eq {first : ℤ × ℚ} {rest : List (ℤ × ℚ)}
    (h : Readings k (first :: rest) rows) :
    firstTs rows = first.1 ∧ lastTs rows = (rest.getLastD first).1 := by
  have hmem : ∀ s ∈ first :: rest, sampleRow k s ∈ rows := fun s hs =>
    h.perm.mem_iff.mpr (List.mem_map_of_mem hs)
  have hof : ∀ b ∈ rows, ∃ s ∈ first :: rest, sampleRow k s = b := fun b hb =>
    List.mem_map.mp (h.perm.mem_iff.mp hb)
  have hsorted := List.pairwise_map.mp h.sorted
  constructor
  · refine firstTs_eq (hmem first (List.mem_cons_self ..)) fun b hb => ?_
    obtain ⟨s, hs, rfl⟩ := hof b hb
    rcases List.mem_cons.mp hs with rfl | hs
    · exact le_rfl
    · exact ((List.pairwise_cons.mp hsorted).1 s hs).le
  · refine lastTs_eq (hmem _ List.getLastD_mem_cons) fun b hb => ?_
    obtain ⟨s, hs, rfl⟩ := hof b hb
    have hne := List.cons_ne_nil first rest
    rw [← List.dropLast_append_getLast hne, List.pairwise_append] at hsorted
    rw [← List.dropLast_append_getLast hne, List.mem_append] at hs
    rw [← List.getLast_eq_getLastD hne]
    rcases hs with hs | hs
    · exact (hsorted.2.2 s hs _ (List.mem_singleton_self _)).le
    · rw [List.mem_singleton.mp hs]

/-- **The value of a window of readings**, for `rate` and `increase`. -/
theorem Readings.windowValue_eq {first : ℤ × ℚ} {rest : List (ℤ × ℚ)}
    (h : Readings k (first :: rest) rows) (E : Sql.Engine) :
    (windowValue E .rate k rows =
        if 2 ≤ (first :: rest).length ∧ first.1 < (rest.getLastD first).1 then
          some (perSecond (.num (Counter.increase ((first :: rest).map Prod.snd)))
            ((rest.getLastD first).1 - first.1)) else none) ∧
      windowValue E .increase k rows =
        if 2 ≤ (first :: rest).length ∧ first.1 < (rest.getLastD first).1 then
          some (.num (Counter.increase ((first :: rest).map Prod.snd))) else none := by
  obtain ⟨hlast, hfirst⟩ := ends_windowAgg E k rows
  have hn : (windowAgg k (withPrev E rows)).n = (first :: rest).length :=
    (length_withPrev E _).trans (h.perm.length_eq.trans (List.length_map _))
  rw [h.ends_eq.1] at hfirst
  rw [h.ends_eq.2] at hlast
  constructor
  · rw [windowValue, aggsValue, hn, hlast, hfirst, h.totalDelta_eq E]
  · rw [windowValue, aggsValue, hn, hlast, hfirst, h.totalDelta_eq E]

/-- **The value of `irate`** is that of the last two readings. -/
theorem Readings.windowValue_irate {l : List (ℤ × ℚ)} {a b : ℤ × ℚ}
    (h : Readings k (l ++ [a, b]) rows) (E : Sql.Engine) :
    windowValue E .irate k rows =
      some (perSecond (.num (Counter.step a.2 b.2)) (b.1 - a.1)) := by
  have hsorted := List.pairwise_map.mp h.sorted
  rw [List.append_cons, List.pairwise_append] at hsorted
  have hlt : ∀ s ∈ l ++ [a], s.1 < b.1 := fun s hs =>
    hsorted.2.2 s hs b (List.mem_singleton_self b)
  -- the last row is the only one at its timestamp
  have hprev : withPrev E rows = ((l ++ [a]).map (sampleRow k)).zip
      (none :: (l.map (sampleRow k)).map some) ++ [(sampleRow k b, some (sampleRow k a))] := by
    have hlags : none :: ((l ++ [a, b]).map (sampleRow k)).map some =
        (none :: (l.map (sampleRow k)).map some) ++
          [some (sampleRow k a), some (sampleRow k b)] := by simp
    rw [withPrev, h.sort_eq E, hlags, List.append_cons, List.map_append,
      List.zip_append (by simp)]
    rfl
  have hhead : (E.sort (fun x y => tsDesc x.1 y.1) (withPrev E rows)).head? =
      some (sampleRow k b, some (sampleRow k a)) := by
    rw [hprev]
    refine E.head?_sort_eq (fun x y => ?_) (fun x y z => ?_) (by simp) fun x hx hle => ?_
    · simpa [tsDesc] using le_total y.1.tsUs x.1.tsUs
    · simpa [tsDesc] using fun hxy hyz => le_trans hyz hxy
    · rcases List.mem_append.mp hx with hx | hx
      · obtain ⟨s, hs, hrow⟩ :=
          List.mem_map.mp (List.of_mem_zip (Prod.mk.eta (p := x) ▸ hx)).1
        rw [← hrow] at hle
        exact absurd (of_decide_eq_true hle) (not_le.mpr (hlt s hs))
      · exact List.mem_singleton.mp hx
  have hlen : 2 ≤ rows.length := by
    rw [h.perm.length_eq]
    simp
  rw [windowValue, hhead, Option.bind_some, irateValue, Option.bind_some,
    if_pos ⟨hlen, hlt a (by simp)⟩]
  exact congrArg (fun d => some (perSecond d _)) (resetAdjusted_num a.2 b.2)

/-! ### The laws -/

variable [DecidableEq τ]

/-- What the stages of `rate`, `increase` and `irate` owe to the samples of one window, the
timestamps of which are distinct. -/
structure CounterLaws (E : Sql.Engine) (base : List (BaseRow τ Exact)) (k : τ × ℤ)
    (samples : List (ℤ × ℚ)) : Prop where
  /-- The window has a total if it has a sample. -/
  total : samples ≠ [] → ∃ w ∈ windowAggs E base, (w.at_, w.seriesId) = k
  /-- It is the last reading less the first, and the readings before the drops. -/
  closed : ∀ w ∈ windowAggs E base, (w.at_, w.seriesId) = k →
    ∀ first rest, samples = first :: rest →
      w.totalDelta = .num ((rest.getLastD first).2 - first.2 +
        (Counter.drops (samples.map Prod.snd)).sum)
  /-- It is not negative. -/
  nonneg : ∀ w ∈ windowAggs E base, (w.at_, w.seriesId) = k → ∃ q, 0 ≤ q ∧ w.totalDelta = .num q
  /-- It is additive over windows that share a sample. -/
  additive : ∀ w ∈ windowAggs E base, (w.at_, w.seriesId) = k →
    ∀ l x r, samples = l ++ x :: r → ∀ rowsl rowsr, Readings k (l ++ [x]) rowsl →
      Readings k (x :: r) rowsr → ∀ El Er, ∀ wl ∈ windowAggs El rowsl,
        ∀ wr ∈ windowAggs Er rowsr, w.totalDelta = F64.add wl.totalDelta wr.totalDelta
  /-- `rate` times the extent of the window, as the query computes it, is `increase`; both or
  neither have a value. -/
  rate : ∀ first rest, samples = first :: rest →
    ((∃ v, ⟨k.1, k.2, v⟩ ∈ perSeriesRangefn E .rate base) ↔
      ∃ v, ⟨k.1, k.2, v⟩ ∈ perSeriesRangefn E .increase base) ∧
    ∀ v v', ⟨k.1, k.2, v⟩ ∈ perSeriesRangefn E .rate base →
      ⟨k.1, k.2, v'⟩ ∈ perSeriesRangefn E .increase base →
        F64.mul v (.num (asI64 ((rest.getLastD first).1 - first.1) / 1000000)) = v'
  /-- `irate` of two samples is their `rate`. -/
  irate : samples.length = 2 → ∀ v, ⟨k.1, k.2, v⟩ ∈ perSeriesRangefn E .irate base ↔
    ⟨k.1, k.2, v⟩ ∈ perSeriesRangefn E .rate base

theorem Readings.filter_eq (h : Readings k samples rows) :
    (rows.filter fun b => decide (b.partition = k)) = rows := by
  refine List.filter_eq_self.mpr fun b hb => decide_eq_true ?_
  obtain ⟨s, -, rfl⟩ := List.mem_map.mp (h.perm.mem_iff.mp hb)
  rfl

/-- The total of a window of readings is their increase. -/
theorem Readings.totalDelta_of_mem {E : Sql.Engine} {base : List (BaseRow τ Exact)}
    (h : Readings k samples (base.filter fun b => decide (b.partition = k)))
    {w : WindowAgg τ Exact} (hw : w ∈ windowAggs E base) (hk : (w.at_, w.seriesId) = k) :
    w.totalDelta = .num (Counter.increase (samples.map Prod.snd)) := by
  obtain ⟨-, hw⟩ := (mem_windowAggs E base).mp hw
  rw [hk] at hw
  rw [hw, h.totalDelta_eq E]

/-- The rows of readings have no window but their own. -/
theorem Readings.key_of_mem {E : Sql.Engine} (h : Readings k samples rows)
    {w : WindowAgg τ Exact} (hw : w ∈ windowAggs E rows) : (w.at_, w.seriesId) = k := by
  obtain ⟨⟨b, hb, hkey⟩, -⟩ := (mem_windowAggs E rows).mp hw
  obtain ⟨s, -, rfl⟩ := List.mem_map.mp (h.perm.mem_iff.mp hb)
  exact hkey.symm

/-- **The laws hold of every window of readings** that a 64-bit extent tells from a point. -/
theorem Readings.counterLaws {base : List (BaseRow τ Exact)} (E : Sql.Engine)
    (h : Readings k samples (base.filter fun b => decide (b.partition = k)))
    (hnonneg : ∀ s ∈ samples, 0 ≤ s.2)
    (hts : ∀ b ∈ base, ∀ b' ∈ base, b.tsUs - b'.tsUs < 2 ^ 64) :
    CounterLaws E base k samples := by
  have hbase : ∀ b ∈ base.filter (fun b => decide (b.partition = k)), b ∈ base :=
    fun b hb => List.mem_of_mem_filter hb
  have hvalue : ∀ op v, (⟨k.1, k.2, v⟩ : Point τ Exact) ∈ perSeriesRangefn E op base ↔
      (∃ b ∈ base, b.partition = k) ∧
        windowValue E op k (base.filter fun b => decide (b.partition = k)) = some v :=
    fun op v => mem_perSeriesRangefn E base
  refine ⟨?_, ?_, ?_, ?_, ?_, ?_⟩
  · intro hne
    obtain ⟨s, hs⟩ := List.exists_mem_of_ne_nil _ hne
    have hrow : sampleRow k s ∈ base.filter fun b => decide (b.partition = k) :=
      h.perm.mem_iff.mpr (List.mem_map_of_mem hs)
    have hmem : windowAgg k (withPrev E (base.filter fun b => decide (b.partition = k))) ∈
        windowAggs E base :=
      (mem_windowAggs E base).mpr ⟨⟨_, hbase _ hrow, rfl⟩, rfl⟩
    exact ⟨_, hmem, rfl⟩
  · rintro w hw hk first rest rfl
    rw [h.totalDelta_of_mem hw hk, List.map_cons, Counter.increase_cons, List.getLastD_map]
  · intro w hw hk
    refine ⟨_, Counter.increase_nonneg fun q hq => ?_, h.totalDelta_of_mem hw hk⟩
    obtain ⟨s, hs, rfl⟩ := List.mem_map.mp hq
    exact hnonneg s hs
  · rintro w hw hk l x r rfl rowsl rowsr hl hr El Er wl hwl wr hwr
    have hleft : Readings k (l ++ [x]) (rowsl.filter fun b => decide (b.partition = k)) := by
      rw [hl.filter_eq]
      exact hl
    have hright : Readings k (x :: r) (rowsr.filter fun b => decide (b.partition = k)) := by
      rw [hr.filter_eq]
      exact hr
    rw [h.totalDelta_of_mem hw hk, hleft.totalDelta_of_mem hwl (hl.key_of_mem hwl),
      hright.totalDelta_of_mem hwr (hr.key_of_mem hwr), Exact.add_num, List.map_append,
      List.map_append, List.map_cons, List.map_singleton]
    rw [Counter.increase_append]
  · rintro first rest rfl
    obtain ⟨hfirst, hlast⟩ := h.ends_eq
    obtain ⟨hrate, hincrease⟩ := h.windowValue_eq E
    simp only [hvalue, hrate, hincrease]
    constructor
    · refine ⟨fun ⟨v, hex, hv⟩ => ?_, fun ⟨v, hex, hv⟩ => ?_⟩
      · split_ifs at hv with hc
        exact ⟨_, hex, if_pos hc⟩
      · split_ifs at hv with hc
        exact ⟨_, hex, if_pos hc⟩
    · rintro v v' ⟨-, hv⟩ ⟨-, hv'⟩
      split_ifs at hv hv' with hc
      cases hv
      cases hv'
      have hextent : Extent ((rest.getLastD first).1 - first.1) := by
        refine ⟨by omega, ?_⟩
        have hmem : ∀ s ∈ first :: rest, sampleRow k s ∈ base := fun s hs =>
          hbase _ (h.perm.mem_iff.mpr (List.mem_map_of_mem hs))
        exact hts _ (hmem _ List.getLastD_mem_cons) _ (hmem first (List.mem_cons_self ..))
      have hne : ((asI64 ((rest.getLastD first).1 - first.1) : ℤ) : ℚ) ≠ 0 := by
        exact_mod_cast asI64_ne_zero hextent
      rw [perSecond, Exact.ofInt_eq, Exact.ofInt_eq, Exact.mul_num, Exact.div_num _ hne,
        Exact.mul_num]
      congr 1
      push_cast
      field_simp
  · intro hlen v
    obtain ⟨a, b, rfl⟩ := List.length_eq_two.mp hlen
    have hlt : a.1 < b.1 := by
      have := h.sorted
      simpa using this
    have hrate : windowValue E .rate k (base.filter fun b => decide (b.partition = k)) =
        some (perSecond (.num (Counter.step a.2 b.2)) (b.1 - a.1)) := by
      refine (h.windowValue_eq E).1.trans ((if_pos ⟨le_rfl, hlt⟩).trans ?_)
      rw [List.map_cons, List.map_singleton, Counter.increase_cons_cons,
        Counter.increase_singleton, add_zero]
      rfl
    rw [hvalue, hvalue, Readings.windowValue_irate (l := []) h E, hrate]

/-! ### The laws of the query -/

/-- **The laws of an increase**, for every series whose samples in the window of an instant query
have distinct timestamps and are not negative; over a window as long as the range asked for, the
extent the query computes is the extent. -/
theorem increase_laws (E : Sql.Engine) (t : Tables Exact) (sel : VectorSelector)
    (rangeUs timeUs sid : ℤ) (samples : List (ℤ × ℚ))
    (h : Readings ((), sid) samples
      ((instantBase t sel rangeUs timeUs).filter fun b => decide (b.partition = ((), sid))))
    (hnonneg : ∀ s ∈ samples, 0 ≤ s.2) :
    CounterLaws E (instantBase t sel rangeUs timeUs) ((), sid) samples ∧
      (IsI64 timeUs → IsI64 rangeUs → 0 ≤ rangeUs → ∀ s ∈ samples, ∀ s' ∈ samples, s.1 ≤ s'.1 →
        asI64 (s'.1 - s.1) = s'.1 - s.1) := by
  have hbounds : ∀ b ∈ instantBase t sel rangeUs timeUs,
      (usToTsLit (asI64 (timeUs - rangeUs))).micros ≤ b.tsUs ∧
        b.tsUs ≤ (usToTsLit timeUs).micros := by
    intro b hb
    obtain ⟨r, hr, rfl⟩ := List.mem_map.mp hb
    have hr := (mem_baseRows.mp hr).2.2
    simpa only [timestampBetween, Sql.Truth.holds_some, decide_eq_true_eq] using hr
  refine ⟨h.counterLaws E hnonneg fun b hb b' hb' => ?_, ?_⟩
  · exact sub_lt_of_inRange (hbounds b hb).2 (hbounds b' hb').1
  · intro htime hrange hpos s hs s' hs' hle
    have hmem : ∀ s ∈ samples, sampleRow ((), sid) s ∈ instantBase t sel rangeUs timeUs :=
      fun s hs => List.mem_of_mem_filter (h.perm.mem_iff.mpr (List.mem_map_of_mem hs))
    have hlo : _ ≤ s.1 := (hbounds _ (hmem s hs)).1
    have hhi : s'.1 ≤ _ := (hbounds _ (hmem s' hs')).2
    rw [usToTsLit_micros] at hlo hhi
    refine QueryWindow.asI64_of_isI64 ?_
    -- a bound with no calendar date is the epoch, and the other bound is within the range
    simp only [asI64, Int.bmod, InRangeMicros, minSecs, maxSecs, IsI64] at *
    split_ifs at hlo hhi <;> omega

/-- A counter that restarted. -/
def restartedTables : Tables Exact :=
  ⟨[⟨1, 0, .num 10⟩, ⟨1, 120000000, .num 5⟩, ⟨1, 60000000, .num 30⟩], [⟨1, "hits", .empty⟩]⟩

/-- The counter went from ten to thirty and, after its restart, to five. -/
theorem increase_laws_restarted :
    CounterLaws Sql.Engine.stable
        (instantBase restartedTables ⟨some "hits", []⟩ 300000000 180000000) ((), 1)
        [(0, 10), (60000000, 30), (120000000, 5)] ∧
      asI64 (120000000 - 0) = 120000000 - 0 := by
  have hlaws := increase_laws Sql.Engine.stable restartedTables ⟨some "hits", []⟩ 300000000
    180000000 1 [(0, 10), (60000000, 30), (120000000, 5)]
    ⟨by decide, by decide +kernel⟩ (by decide +kernel)
  exact ⟨hlaws.1, hlaws.2 (by decide) (by decide) (by decide) (0, 10) (by simp) (120000000, 5)
    (by simp) (by decide)⟩

end Skaldberg.Prometheus
