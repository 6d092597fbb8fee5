import Skaldberg.Prometheus.SampleOrder

/-!
# Samples that are delivered again

A sample may be in a window twice: producers retry, and the log is replayed. A range function ought
not to notice, and ought to have a value exactly where the window has samples at two timestamps. Of
the four operators, the guards count rows and not timestamps, and rows at one timestamp come in any
order, so that this depends on the window (`Settled`, `redelivery_iff`):

| operator | when a sample may be delivered again |
|---|---|
| `rate`, `increase` | where each timestamp has one value, or makes no difference (`Dip`) |
| `irate` | never, where there is a value at all |
| `delta` | where there are two timestamps, and one value at the first and the last |
-/

namespace Skaldberg.Prometheus

variable {τ : Type}

/-! ### Windows -/

/-- The rows of the window of a key. -/
def windowRows [DecidableEq τ] (base : List (BaseRow τ Exact)) (k : τ × ℤ) :
    List (BaseRow τ Exact) :=
  base.filter fun b => decide (b.partition = k)

/-- The windows in which a sample may be delivered again. -/
def Settled (op : RangeFnOp) (rows : List (BaseRow τ Exact)) : Prop :=
  match op with
  | .rate | .increase => HasSpan rows → ∀ b ∈ rows, OneValueAt rows b.tsUs ∨ ∃ a, Dip rows b.tsUs a
  | .irate => ¬HasSpan rows
  | .delta => rows = [] ∨
      HasSpan rows ∧ OneValueAt rows (firstTs rows) ∧ OneValueAt rows (lastTs rows)

/-- A window in which a sample may be delivered again, whatever the order of the query among rows
with one timestamp: its value is the same, and it has one exactly where there are samples at two
timestamps. -/
structure IgnoresRedelivery [DecidableEq τ] (op : RangeFnOp) (base : List (BaseRow τ Exact))
    (k : τ × ℤ) : Prop where
  /-- With a sample of the window once more, the value is the same, if there is one. -/
  same : ∀ x ∈ windowRows base k, ∀ base', base'.Perm (x :: base) →
    ∀ (E E' : Sql.Engine) (v : Exact),
      ⟨k.1, k.2, v⟩ ∈ perSeriesRangefn E' op base' ↔ ⟨k.1, k.2, v⟩ ∈ perSeriesRangefn E op base
  /-- There is one for samples at two timestamps. -/
  emitted : ∀ E : Sql.Engine, (∃ v, ⟨k.1, k.2, v⟩ ∈ perSeriesRangefn E op base) ↔
    HasSpan (windowRows base k)

/-- The same of the rows of one window. -/
structure WindowIgnores (op : RangeFnOp) (k : τ × ℤ) (rows : List (BaseRow τ Exact)) : Prop where
  /-- With a row once more, the value is the same, if there is one. -/
  same : ∀ x ∈ rows, ∀ rows', rows'.Perm (x :: rows) → ∀ E E' : Sql.Engine,
    windowValue E' op k rows' = windowValue E op k rows
  /-- There is one for rows at two timestamps. -/
  emitted : ∀ E : Sql.Engine, (windowValue E op k rows).isSome = true ↔ HasSpan rows

theorem windowValue_nil (E : Sql.Engine) (op : RangeFnOp) (k : τ × ℤ) :
    windowValue E op k ([] : List (BaseRow τ Exact)) = none := by
  have hsort : ∀ {α : Type} (le : α → α → Bool), E.sort le ([] : List α) = [] := fun le =>
    (E.sort_perm le []).eq_nil
  cases op with
  | rate => simp [windowValue, aggsValue, windowAgg, withPrev, hsort]
  | irate => simp [windowValue, withPrev, hsort]
  | increase => simp [windowValue, aggsValue, windowAgg, withPrev, hsort]
  | delta => simp [windowValue]

section

variable [DecidableEq τ] {base : List (BaseRow τ Exact)} {k : τ × ℤ}

theorem mem_perSeriesRangefn_iff (E : Sql.Engine) (op : RangeFnOp) (v : Exact) :
    (⟨k.1, k.2, v⟩ : Point τ Exact) ∈ perSeriesRangefn E op base ↔
      windowValue E op k (windowRows base k) = some v := by
  rw [mem_perSeriesRangefn]
  refine and_iff_right_of_imp fun h => ?_
  by_contra hnone
  have hnil : windowRows base k = [] := List.filter_eq_nil_iff.mpr fun b hb hkey =>
    hnone ⟨b, hb, of_decide_eq_true hkey⟩
  have hvalue : windowValue E op k (windowRows base k) = some v := h
  rw [hnil, windowValue_nil] at hvalue
  cases hvalue

/-- **One window is enough**: the other ones make no difference. -/
theorem ignoresRedelivery_iff (op : RangeFnOp) :
    IgnoresRedelivery op base k ↔ WindowIgnores op k (windowRows base k) := by
  constructor
  · intro h
    refine ⟨fun x hx rows' hperm E E' => ?_, fun E => ?_⟩
    · -- the rows of the window in the order asked for, and then the others
      have hxkey := List.mem_filter.mp hx
      have hrows' : ∀ b ∈ rows', decide (b.partition = k) = true := fun b hb => by
        rcases List.mem_cons.mp (hperm.mem_iff.mp hb) with rfl | hb
        · exact hxkey.2
        · exact (List.mem_filter.mp hb).2
      have hbase' : (rows' ++ base.filter fun b => !decide (b.partition = k)).Perm (x :: base) :=
        (hperm.append_right _).trans ((List.filter_append_perm _ base).cons x)
      have hwindow : windowRows (rows' ++ base.filter fun b => !decide (b.partition = k)) k =
          rows' := by
        rw [windowRows, List.filter_append, List.filter_eq_self.mpr hrows', List.filter_filter]
        simp
      refine Option.ext fun v => ?_
      have hsame := h.same x hx _ hbase' E E' v
      rw [mem_perSeriesRangefn_iff, mem_perSeriesRangefn_iff, hwindow] at hsame
      exact hsame
    · rw [← h.emitted E]
      simp only [mem_perSeriesRangefn_iff, Option.isSome_iff_exists]
  · intro h
    refine ⟨fun x hx base' hperm E E' v => ?_, fun E => ?_⟩
    · have hwindow : (windowRows base' k).Perm (x :: windowRows base k) := by
        have hfilter := hperm.filter fun b => decide (b.partition = k)
        have hkey : decide (x.partition = k) = true := (List.mem_filter.mp hx).2
        rw [List.filter_cons, if_pos hkey] at hfilter
        exact hfilter
      rw [mem_perSeriesRangefn_iff, mem_perSeriesRangefn_iff, h.same x hx _ hwindow E E']
    · rw [← h.emitted E]
      simp only [mem_perSeriesRangefn_iff, Option.isSome_iff_exists]

end

variable {k : τ × ℤ} {rows : List (BaseRow τ Exact)}

/-! ### `irate` -/

theorem snd_mem_withPrev {E : Sql.Engine} {r : BaseRow τ Exact × Option (BaseRow τ Exact)}
    (h : r ∈ withPrev E rows) {prev : BaseRow τ Exact} (hprev : r.2 = some prev) : prev ∈ rows := by
  have hmem := (List.of_mem_zip (Prod.mk.eta (p := r) ▸ h)).2
  rw [hprev, List.mem_cons] at hmem
  rcases hmem with hmem | hmem
  · cases hmem
  · obtain ⟨b, hb, heq⟩ := List.mem_map.mp hmem
    exact Option.some.inj heq ▸ E.mem_sort.mp hb

theorem windowValue_irate_of_not_hasSpan (E : Sql.Engine) (h : ¬HasSpan rows) :
    windowValue E .irate k rows = none := by
  rw [windowValue]
  cases hhead : (E.sort (fun a b => tsDesc a.1 b.1) (withPrev E rows)).head? with
  | none => rfl
  | some r =>
    have hr : r ∈ withPrev E rows := E.mem_sort.mp (List.mem_of_mem_head? hhead)
    rw [Option.bind_some, irateValue]
    cases hprev : r.2 with
    | none => rfl
    | some prev =>
      exact if_neg fun hlt => h ⟨prev, snd_mem_withPrev hr hprev, r.1, fst_mem_withPrev hr, hlt.2⟩

/-- The last row, twice at the end of a window, is the one before itself. -/
theorem withPrev_of_sort_eq {E : Sql.Engine} {u : List (BaseRow τ Exact)} {b : BaseRow τ Exact}
    (h : E.sort tsAsc rows = (u ++ [b]) ++ [b]) :
    withPrev E rows = (u ++ [b]).zip (none :: u.map some) ++ [(b, some b)] := by
  have hlags : none :: ((u ++ [b]) ++ [b]).map some = (none :: u.map some) ++ [some b, some b] := by
    simp
  rw [withPrev, h, hlags, List.zip_append (by simp)]
  rfl

/-- **With the last sample once more, there may be no value**: the one before the last sample is
then at its timestamp. -/
theorem exists_windowValue_irate_eq_none (k : τ × ℤ) (hne : rows ≠ []) :
    ∃ b ∈ rows, ∃ rows' : List (BaseRow τ Exact), rows'.Perm (b :: rows) ∧
      ∃ E : Sql.Engine, windowValue E .irate k rows' = none := by
  obtain ⟨b, L, M, hb, hmax, haround⟩ := exists_around_last hne
  obtain ⟨m₁, m₂, hM⟩ := List.append_of_mem (haround.mem_mid hb rfl)
  -- the other samples in order, and then the last one twice
  let u := L ++ (m₁ ++ m₂)
  let s := (u ++ [b]) ++ [b]
  have hmid : (m₁ ++ m₂ ++ [b, b]).Perm (b :: M) :=
    List.perm_append_comm.trans ((hM ▸ List.perm_middle.symm : (b :: (m₁ ++ m₂)).Perm M).cons b)
  have hs : s = L ++ ((m₁ ++ m₂ ++ [b, b]) ++ []) := by simp [s, u]
  have hperm : s.Perm (b :: rows) := hs ▸ haround.perm_cons hmid
  have hsorted : s.Pairwise fun x y => x.tsUs ≤ y.tsUs := hs ▸ haround.sorted fun c hc => by
    rcases List.mem_cons.mp (hmid.mem_iff.mp hc) with rfl | hc
    · rfl
    · exact haround.mid c hc
  -- the scan starts at the second row, and then at the last one
  let E := Sql.Engine.rotated (u.length + 1)
  have hsort : E.sort tsAsc (s.rotate 1) = s := by
    have hlen : 1 + (u.length + 1) = s.length := by
      simp [s]
      omega
    show Sql.Engine.stable.sort tsAsc ((s.rotate 1).rotate (u.length + 1)) = s
    rw [List.rotate_rotate, hlen, List.rotate_length,
      Sql.Engine.stable_sort_eq (hsorted.imp tsAsc_iff.mpr)]
  have hhead : (E.sort (fun x y => tsDesc x.1 y.1) (withPrev E (s.rotate 1))).head? =
      some (b, some b) := by
    have hlen : ((u ++ [b]).zip (none :: u.map some)).length = u.length + 1 := by simp
    show (Sql.Engine.stable.sort _ ((withPrev E (s.rotate 1)).rotate (u.length + 1))).head? = _
    rw [withPrev_of_sort_eq hsort, ← hlen, List.rotate_append_length_eq, List.singleton_append,
      ← List.nil_append (_ :: _)]
    refine Sql.Engine.head?_stable_append (by simp) fun y hy => tsDesc_iff.mpr ?_
    have hmem : y.1 ∈ u ++ [b] := (List.of_mem_zip (Prod.mk.eta (p := y) ▸ hy)).1
    rcases List.mem_cons.mp (hperm.mem_iff.mp (List.mem_append_left [b] hmem)) with heq | hmem
    · rw [heq]
    · exact hmax _ hmem
  refine ⟨b, hb, s.rotate 1, (List.rotate_perm s 1).trans hperm, E, ?_⟩
  rw [windowValue, hhead, Option.bind_some, irateValue, Option.bind_some]
  exact if_neg fun h => lt_irrefl _ h.2

theorem windowIgnores_irate_iff : WindowIgnores .irate k rows ↔ ¬HasSpan rows := by
  constructor
  · intro h hspan
    obtain ⟨b, hb, rows', hperm, E, hnone⟩ := exists_windowValue_irate_eq_none k hspan.ne_nil
    have hsome := (h.emitted Sql.Engine.stable).mpr hspan
    rw [← h.same b hb rows' hperm Sql.Engine.stable E, hnone] at hsome
    cases hsome
  · intro h
    refine ⟨fun x hx rows' hperm E E' => ?_, fun E => ?_⟩
    · have h' : ¬HasSpan rows' := fun hspan =>
        h ((hasSpan_congr (mem_iff_of_perm_cons hx hperm)).mp hspan)
      rw [windowValue_irate_of_not_hasSpan E' h', windowValue_irate_of_not_hasSpan E h]
    · rw [windowValue_irate_of_not_hasSpan E h]
      exact iff_of_false Bool.false_ne_true h

/-! ### `delta` -/

theorem tsDesc_total (a b : BaseRow τ Exact × ℕ) :
    tsDesc a.1 b.1 = true ∨ tsDesc b.1 a.1 = true := by
  simpa only [tsDesc_iff] using le_total b.1.tsUs a.1.tsUs

theorem tsDesc_trans (a b c : BaseRow τ Exact × ℕ) (hab : tsDesc a.1 b.1 = true)
    (hbc : tsDesc b.1 c.1 = true) : tsDesc a.1 c.1 = true :=
  tsDesc_iff.mpr ((tsDesc_iff.mp hbc).trans (tsDesc_iff.mp hab))

/-- The first row in ascending order is one at the first timestamp. -/
theorem exists_head?_sort_asc (E : Sql.Engine) (hne : rows ≠ []) :
    ∃ e ∈ rows, e.tsUs = firstTs rows ∧ (E.sort tsAsc rows).head? = some e := by
  have hsorted := sort_sorted E rows
  cases hsort : E.sort tsAsc rows with
  | nil =>
    rw [hsort] at hsorted
    exact absurd ((hsort ▸ E.sort_perm tsAsc rows).symm.eq_nil) hne
  | cons e rest =>
    rw [hsort] at hsorted
    have he : e ∈ rows := E.mem_sort.mp (hsort ▸ List.mem_cons_self ..)
    refine ⟨e, he, (firstTs_eq he fun b hb => ?_).symm, rfl⟩
    have hb : b ∈ e :: rest := hsort ▸ E.mem_sort.mpr hb
    rcases List.mem_cons.mp hb with rfl | hb
    · exact le_rfl
    · exact (List.pairwise_cons.mp hsorted).1 b hb

/-- The first row in descending order is one at the last timestamp, however the rows are
numbered. -/
theorem exists_head?_sort_desc (E : Sql.Engine) {numbered : List (BaseRow τ Exact × ℕ)}
    (hperm : (numbered.map Prod.fst).Perm rows) (hne : rows ≠ []) :
    ∃ l : BaseRow τ Exact × ℕ, l.1 ∈ rows ∧ l.1.tsUs = lastTs rows ∧
      (E.sort (fun a b => tsDesc a.1 b.1) numbered).head? = some l := by
  have hsorted := E.sort_pairwise (fun a b : BaseRow τ Exact × ℕ => tsDesc a.1 b.1) numbered
    tsDesc_total tsDesc_trans
  cases hsort : E.sort (fun a b => tsDesc a.1 b.1) numbered with
  | nil =>
    obtain rfl : numbered = [] := (hsort ▸ E.sort_perm _ numbered).symm.eq_nil
    exact absurd hperm.symm.eq_nil hne
  | cons l rest =>
    rw [hsort] at hsorted
    have hl : l ∈ numbered := E.mem_sort.mp (hsort ▸ List.mem_cons_self ..)
    have hrow : l.1 ∈ rows := hperm.mem_iff.mp (List.mem_map_of_mem hl)
    refine ⟨l, hrow, (lastTs_eq hrow fun b hb => ?_).symm, rfl⟩
    obtain ⟨c, hc, rfl⟩ := List.mem_map.mp (hperm.mem_iff.mpr hb)
    have hc : c ∈ l :: rest := hsort ▸ E.mem_sort.mpr hc
    rcases List.mem_cons.mp hc with rfl | hc
    · exact le_rfl
    · exact tsDesc_iff.mp ((List.pairwise_cons.mp hsorted).1 c hc)

/-- **The value of `delta`** is that of a sample at the last timestamp less that of one at the
first, for two samples or more. -/
theorem exists_windowValue_delta (E : Sql.Engine) (k : τ × ℤ) (hlen : 2 ≤ rows.length) :
    ∃ e ∈ rows, ∃ l ∈ rows, e.tsUs = firstTs rows ∧ l.tsUs = lastTs rows ∧
      windowValue E .delta k rows = some (F64.sub l.value e.value) := by
  have hne : rows ≠ [] := List.ne_nil_of_length_pos (by omega)
  obtain ⟨e, he, hfirst, hhead⟩ := exists_head?_sort_asc E hne
  obtain ⟨l, hl, hlast, hhead'⟩ := exists_head?_sort_desc E
    (show (((E.sort tsAsc rows).zipIdx 1).map Prod.fst).Perm rows by
      rw [List.zipIdx_map_fst]
      exact E.sort_perm tsAsc rows) hne
  refine ⟨e, he, l.1, hl, hfirst, hlast, ?_⟩
  rw [windowValue, if_pos hlen, hhead', hhead]
  rfl

/-- **The value of `delta` in the order of the scan**: of the first sample at the last timestamp,
and of the first one. -/
theorem windowValue_delta_stable (k : τ × ℤ) {l₁ l₂ : List (BaseRow τ Exact)}
    {e l : BaseRow τ Exact}
    (hsorted : ((e :: l₁) ++ l :: l₂).Pairwise fun a b => a.tsUs ≤ b.tsUs)
    (hbefore : ∀ b ∈ e :: l₁, b.tsUs < l.tsUs) (hlast : ∀ b ∈ l₂, b.tsUs ≤ l.tsUs) :
    windowValue Sql.Engine.stable .delta k ((e :: l₁) ++ l :: l₂) =
      some (F64.sub l.value e.value) := by
  have hlen : 2 ≤ ((e :: l₁) ++ l :: l₂).length := by
    rw [List.length_append, List.length_cons, List.length_cons]
    omega
  have hsort : Sql.Engine.stable.sort tsAsc ((e :: l₁) ++ l :: l₂) = (e :: l₁) ++ l :: l₂ :=
    Sql.Engine.stable_sort_eq (hsorted.imp tsAsc_iff.mpr)
  have hhead : (Sql.Engine.stable.sort (fun a b => tsDesc a.1 b.1)
      (((e :: l₁) ++ l :: l₂).zipIdx 1)).head? = some (l, 1 + (e :: l₁).length) := by
    rw [List.zipIdx_append, List.zipIdx_cons]
    refine Sql.Engine.head?_stable_append (fun b hb => ?_) fun b hb => ?_
    · exact fun hle => not_le.mpr (hbefore _ (List.fst_mem_of_mem_zipIdx hb)) (tsDesc_iff.mp hle)
    · exact tsDesc_iff.mpr (hlast _ (List.fst_mem_of_mem_zipIdx hb))
  rw [windowValue, if_pos hlen, hsort, hhead]
  rfl

theorem sub_right_cancel_of_isNum {a b c : Exact} (ha : a.IsNum) (hb : b.IsNum) (hc : c.IsNum)
    (h : F64.sub a c = F64.sub b c) : a = b := by
  obtain ⟨p, rfl⟩ := ha
  obtain ⟨q, rfl⟩ := hb
  obtain ⟨r, rfl⟩ := hc
  rw [Exact.sub_num, Exact.sub_num] at h
  rw [sub_left_injective (Exact.num.inj h)]

theorem sub_left_cancel_of_isNum {a b c : Exact} (ha : a.IsNum) (hb : b.IsNum) (hc : c.IsNum)
    (h : F64.sub c a = F64.sub c b) : a = b := by
  obtain ⟨p, rfl⟩ := ha
  obtain ⟨q, rfl⟩ := hb
  obtain ⟨r, rfl⟩ := hc
  rw [Exact.sub_num, Exact.sub_num] at h
  rw [sub_right_injective (Exact.num.inj h)]

/-- **The order of the last samples shows** in `delta`. -/
theorem WindowIgnores.oneValueAt_last (h : WindowIgnores .delta k rows)
    (hnum : ∀ b ∈ rows, b.value.IsNum) (hspan : HasSpan rows) : OneValueAt rows (lastTs rows) := by
  obtain ⟨last, L, M, hlast, hmax, haround⟩ := exists_around_last hspan.ne_nil
  rw [lastTs_eq hlast hmax]
  obtain ⟨e, hfirst, b, hb, hlt⟩ := hspan
  have hL := haround.mem_left hfirst (hlt.trans_le (hmax b hb))
  obtain ⟨e, L', rfl⟩ := List.exists_cons_of_ne_nil (List.ne_nil_of_mem hL)
  have he : e.value.IsNum := hnum e (haround.mem.mpr (.inl (List.mem_cons_self ..)))
  have hvalue : ∀ b ∈ rows, b.tsUs = last.tsUs →
      windowValue Sql.Engine.stable .delta k rows = some (F64.sub b.value e.value) := by
    intro b hb hts
    have hmid : ∀ c ∈ b :: M, c.tsUs = last.tsUs := fun c hc => by
      rcases List.mem_cons.mp hc with rfl | hc
      · exact hts
      · exact haround.mid c hc
    have hperm := haround.perm_cons (List.Perm.refl (b :: M))
    have hsorted := haround.sorted hmid
    rw [List.append_nil] at hperm hsorted
    rw [← h.same b hb _ hperm Sql.Engine.stable Sql.Engine.stable]
    exact windowValue_delta_stable k hsorted (fun c hc => (haround.left c hc).trans_eq hts.symm)
      fun c hc => ((haround.mid c hc).trans hts.symm).le
  intro b hb b' hb' hts hts'
  have heq := Option.some.inj ((hvalue b hb hts).symm.trans (hvalue b' hb' hts'))
  exact sub_right_cancel_of_isNum (hnum b hb) (hnum b' hb') he heq

/-- **The order of the first samples shows** in `delta`. -/
theorem WindowIgnores.oneValueAt_first (h : WindowIgnores .delta k rows)
    (hnum : ∀ b ∈ rows, b.value.IsNum) (hspan : HasSpan rows) :
    OneValueAt rows (firstTs rows) := by
  obtain ⟨last, L, M, hlast, hmax, haround⟩ := exists_around_last hspan.ne_nil
  obtain ⟨first, hfirst, hmin⟩ := exists_first hspan.ne_nil
  have hends := (hasSpan_iff.mp hspan).2
  rw [lastTs_eq hlast hmax, firstTs_eq hfirst hmin] at hends
  rw [firstTs_eq hfirst hmin]
  obtain ⟨l, M', rfl⟩ := List.exists_cons_of_ne_nil (List.ne_nil_of_mem (haround.mem_mid hlast rfl))
  have hl : l ∈ rows := haround.mem.mpr (.inr (.inl (List.mem_cons_self ..)))
  have hlts : l.tsUs = last.tsUs := haround.mid l (List.mem_cons_self ..)
  have hvalue : ∀ b ∈ rows, b.tsUs = first.tsUs →
      windowValue Sql.Engine.stable .delta k rows = some (F64.sub l.value b.value) := by
    intro b hb hts
    have hperm : ((b :: L) ++ l :: M').Perm (b :: rows) := by
      have := haround.perm.symm.cons b
      rwa [List.append_nil] at this
    have hsorted : ((b :: L) ++ l :: M').Pairwise fun a b => a.tsUs ≤ b.tsUs := by
      have hrest := haround.sorted haround.mid
      rw [List.append_nil] at hrest
      refine List.pairwise_cons.mpr ⟨fun c hc => ?_, hrest⟩
      rw [hts]
      exact hmin c (haround.perm.mem_iff.mpr (by rwa [List.append_nil]))
    rw [← h.same b hb _ hperm Sql.Engine.stable Sql.Engine.stable]
    refine windowValue_delta_stable k hsorted (fun c hc => ?_)
      fun c hc => ((haround.mid c (List.mem_cons_of_mem _ hc)).trans hlts.symm).le
    rcases List.mem_cons.mp hc with rfl | hc
    · rwa [hts, hlts]
    · exact (haround.left c hc).trans_eq hlts.symm
  intro b hb b' hb' hts hts'
  have heq := Option.some.inj ((hvalue b hb hts).symm.trans (hvalue b' hb' hts'))
  exact sub_left_cancel_of_isNum (hnum b hb) (hnum b' hb') (hnum l hl) heq

theorem windowIgnores_delta_iff (hnum : ∀ b ∈ rows, b.value.IsNum) :
    WindowIgnores .delta k rows ↔ Settled .delta rows := by
  constructor
  · intro h
    by_cases hne : rows = []
    · exact .inl hne
    · have hspan : HasSpan rows := by
        by_contra hspan
        have hnone : ∀ E : Sql.Engine, windowValue E .delta k rows = none := fun E =>
          Option.not_isSome_iff_eq_none.mp fun hsome => hspan ((h.emitted E).mp hsome)
        obtain ⟨b, hb⟩ := List.exists_mem_of_ne_nil rows hne
        -- with a row once more there are two of them, and a value
        have hlen : 2 ≤ (b :: rows).length := by
          have := List.length_pos_of_mem hb
          rw [List.length_cons]
          omega
        obtain ⟨e, -, l, -, -, -, hvalue⟩ :=
          exists_windowValue_delta Sql.Engine.stable k hlen
        rw [h.same b hb _ (List.Perm.refl _) Sql.Engine.stable, hnone] at hvalue
        cases hvalue
      exact .inr ⟨hspan, h.oneValueAt_first hnum hspan, h.oneValueAt_last hnum hspan⟩
  · rintro (rfl | ⟨hspan, hfirst, hlast⟩)
    · refine ⟨fun x hx => absurd hx List.not_mem_nil, fun E => ?_⟩
      rw [windowValue_nil]
      exact iff_of_false Bool.false_ne_true fun ⟨b, hb, _⟩ => List.not_mem_nil hb
    · have hlen := (hasSpan_iff.mp hspan).1
      refine ⟨fun x hx rows' hperm E E' => ?_, fun E => ?_⟩
      · have hmem := mem_iff_of_perm_cons hx hperm
        have hlen' : 2 ≤ rows'.length := by
          rw [hperm.length_eq, List.length_cons]
          omega
        obtain ⟨hlastTs, hfirstTs⟩ := ends_eq_of_mem_iff hmem
        obtain ⟨e, he, l, hl, hets, hlts, hvalue⟩ := exists_windowValue_delta E k hlen
        obtain ⟨e', he', l', hl', hets', hlts', hvalue'⟩ := exists_windowValue_delta E' k hlen'
        rw [hvalue, hvalue', hfirst e he e' ((hmem e').mp he') hets (hets'.trans hfirstTs),
          hlast l hl l' ((hmem l').mp hl') hlts (hlts'.trans hlastTs)]
      · obtain ⟨e, -, l, -, -, -, hvalue⟩ := exists_windowValue_delta E k hlen
        rw [hvalue]
        exact iff_of_true rfl hspan

/-! ### `rate` and `increase` -/

/-- **The value of `rate` and of `increase`** tells the increase over the rows of a window. -/
theorem exists_windowValue_aggs {op : RangeFnOp} (hop : op = .rate ∨ op = .increase) (k : τ × ℤ)
    (hnum : ∀ b ∈ rows, b.value.IsNum) (hts : ∀ b ∈ rows, IsI64 b.tsUs) (hspan : HasSpan rows) :
    ∃ f : ℚ → Exact, Function.Injective f ∧ ∀ rows', (∀ b, b ∈ rows' ↔ b ∈ rows) →
      ∀ E : Sql.Engine, windowValue E op k rows' =
        some (f (Counter.increase ((E.sort tsAsc rows').map BaseRow.num))) := by
  have hagg : ∀ (f : WindowAgg τ Exact → Exact) (rows' : List (BaseRow τ Exact)),
      (∀ b, b ∈ rows' ↔ b ∈ rows) → ∀ E : Sql.Engine,
        aggsValue f (windowAgg k (withPrev E rows')) =
          some (f (windowAgg k (withPrev E rows'))) := by
    intro f rows' hmem E
    obtain ⟨hlen, hlt⟩ := hasSpan_iff.mp ((hasSpan_congr hmem).mpr hspan)
    obtain ⟨hlast, hfirst⟩ := ends_windowAgg E k rows'
    refine if_pos ⟨hlen.trans_eq (length_withPrev E rows').symm, ?_⟩
    rwa [hlast, hfirst]
  have htotal : ∀ (rows' : List (BaseRow τ Exact)), (∀ b, b ∈ rows' ↔ b ∈ rows) →
      ∀ E : Sql.Engine, (windowAgg k (withPrev E rows')).totalDelta =
        .num (Counter.increase ((E.sort tsAsc rows').map BaseRow.num)) := fun rows' hmem E =>
    totalDelta_windowAgg E (fun b hb => hnum b ((hmem b).mp hb)) k
  rcases hop with rfl | rfl
  · have hne : ((asI64 (lastTs rows - firstTs rows) : ℤ) : ℚ) ≠ 0 := by
      obtain ⟨last, hlast, hmax⟩ := exists_last hspan.ne_nil
      obtain ⟨first, hfirst, hmin⟩ := exists_first hspan.ne_nil
      have hends := (hasSpan_iff.mp hspan).2
      rw [lastTs_eq hlast hmax, firstTs_eq hfirst hmin] at hends ⊢
      have hhi := (hts last hlast).2
      have hlo := (hts first hfirst).1
      exact_mod_cast asI64_ne_zero ⟨by omega, by omega⟩
    refine ⟨fun q => perSecond (.num q) (lastTs rows - firstTs rows), fun p q hpq => ?_,
      fun rows' hmem E => ?_⟩
    · simp only [perSecond, Exact.ofInt_eq, Exact.mul_num, Exact.div_num _ hne] at hpq
      have hpq := Exact.num.inj hpq
      rwa [div_left_inj' hne, mul_left_inj' (by norm_num)] at hpq
    · obtain ⟨hlast, hfirst⟩ := ends_windowAgg E k rows'
      obtain ⟨hlastTs, hfirstTs⟩ := ends_eq_of_mem_iff hmem
      rw [windowValue, hagg _ rows' hmem E, htotal rows' hmem E, hlast, hfirst, hlastTs, hfirstTs]
  · refine ⟨.num, fun p q => Exact.num.inj, fun rows' hmem E => ?_⟩
    rw [windowValue, hagg _ rows' hmem E, htotal rows' hmem E]

theorem windowValue_aggs_of_not_hasSpan {op : RangeFnOp} (hop : op = .rate ∨ op = .increase)
    (E : Sql.Engine) (h : ¬HasSpan rows) : windowValue E op k rows = none := by
  have hagg : ∀ f : WindowAgg τ Exact → Exact,
      aggsValue f (windowAgg k (withPrev E rows)) = none := by
    intro f
    obtain ⟨hlast, hfirst⟩ := ends_windowAgg E k rows
    refine if_neg fun hcond => h (hasSpan_iff.mpr
      ⟨hcond.1.trans_eq (length_withPrev E rows), ?_⟩)
    rw [← hlast, ← hfirst]
    exact hcond.2
  rcases hop with rfl | rfl <;> rw [windowValue] <;> exact hagg _

theorem windowIgnores_aggs_iff {op : RangeFnOp} (hop : op = .rate ∨ op = .increase)
    (hnum : ∀ b ∈ rows, b.value.IsNum) (hts : ∀ b ∈ rows, IsI64 b.tsUs) :
    WindowIgnores op k rows ↔
      (HasSpan rows → ∀ b ∈ rows, OneValueAt rows b.tsUs ∨ ∃ a, Dip rows b.tsUs a) := by
  constructor
  · intro h hspan
    obtain ⟨f, hf, hvalue⟩ := exists_windowValue_aggs hop k hnum hts hspan
    refine (indifferent_iff hnum).mp fun x hx s s' hs hs' hsorted hsorted' => ?_
    have hsort : ∀ s : List (BaseRow τ Exact), s.Perm (x :: rows) →
        (s.Pairwise fun a b => a.tsUs ≤ b.tsUs) →
          some (f (Counter.increase (s.map BaseRow.num))) =
            windowValue Sql.Engine.stable op k rows := by
      intro s hs hsorted
      rw [← h.same x hx s hs Sql.Engine.stable Sql.Engine.stable,
        hvalue s (mem_iff_of_perm_cons hx hs),
        Sql.Engine.stable_sort_eq (hsorted.imp tsAsc_iff.mpr)]
    exact hf (Option.some.inj ((hsort s hs hsorted).trans (hsort s' hs' hsorted').symm))
  · intro h
    by_cases hspan : HasSpan rows
    · obtain ⟨f, -, hvalue⟩ := exists_windowValue_aggs hop k hnum hts hspan
      refine ⟨fun x hx rows' hperm E E' => ?_, fun E => ?_⟩
      · have hmem := mem_iff_of_perm_cons hx hperm
        rw [hvalue rows' hmem E', hvalue rows (fun _ => Iff.rfl) E,
          increase_eq_of_settled (h hspan) (sort_sorted E' rows') (sort_sorted E rows)
            (fun b => E'.mem_sort.trans (hmem b)) fun b => E.mem_sort]
      · rw [hvalue rows (fun _ => Iff.rfl) E]
        exact iff_of_true rfl hspan
    · refine ⟨fun x hx rows' hperm E E' => ?_, fun E => ?_⟩
      · have hspan' : ¬HasSpan rows' := fun h =>
          hspan ((hasSpan_congr (mem_iff_of_perm_cons hx hperm)).mp h)
        rw [windowValue_aggs_of_not_hasSpan hop E' hspan',
          windowValue_aggs_of_not_hasSpan hop E hspan]
      · rw [windowValue_aggs_of_not_hasSpan hop E hspan]
        exact iff_of_false Bool.false_ne_true hspan

/-! ### All operators -/

theorem windowIgnores_iff (op : RangeFnOp) (hnum : ∀ b ∈ rows, b.value.IsNum)
    (hts : ∀ b ∈ rows, IsI64 b.tsUs) : WindowIgnores op k rows ↔ Settled op rows := by
  cases op with
  | rate => exact windowIgnores_aggs_iff (.inl rfl) hnum hts
  | irate => exact windowIgnores_irate_iff
  | increase => exact windowIgnores_aggs_iff (.inr rfl) hnum hts
  | delta => exact windowIgnores_delta_iff hnum

variable [DecidableEq τ]

/-- **When a sample may be delivered again**: for every operator and window of numbers, the output
is the same with any sample of the window once more, in all orders of samples at one timestamp, and
is there exactly for samples at two timestamps, if and only if the window is settled. -/
theorem redelivery_iff (op : RangeFnOp) (base : List (BaseRow τ Exact)) (k : τ × ℤ)
    (hnum : ∀ b ∈ base, b.value.IsNum) (hts : ∀ b ∈ base, IsI64 b.tsUs) :
    IgnoresRedelivery op base k ↔ Settled op (windowRows base k) := by
  rw [ignoresRedelivery_iff]
  exact windowIgnores_iff op (fun b hb => hnum b (List.mem_of_mem_filter hb))
    fun b hb => hts b (List.mem_of_mem_filter hb)

/-- A minute of a counter. -/
def minuteBase : List (BaseRow Unit Exact) := [⟨(), 1, 0, .num 5⟩, ⟨(), 1, 60000000, .num 8⟩]

/-- A sample of the minute may be delivered again for `increase`. -/
theorem redelivery_iff_minute : IgnoresRedelivery .increase minuteBase ((), 1) := by
  refine (redelivery_iff .increase minuteBase ((), 1) ?_ (by decide)).mpr fun _ b hb => .inl ?_
  · intro b hb
    rcases List.mem_cons.mp hb with rfl | hb
    · exact ⟨5, rfl⟩
    · exact ⟨8, congrArg BaseRow.value (List.mem_singleton.mp hb)⟩
  · intro c hc c' hc' hts hts'
    have hkeys : ((windowRows minuteBase ((), 1)).map BaseRow.tsUs).Nodup := by decide
    rw [List.inj_on_of_nodup_map hkeys hc hc' (hts.trans hts'.symm)]

/-- **Delivered again, one sample is a change**: `delta` has no value for it, and zero for it twice.
And `irate` of a minute has none any more when its last sample comes twice. -/
theorem not_ignoresRedelivery :
    ¬IgnoresRedelivery .delta [(⟨(), 1, 0, .num 5⟩ : BaseRow Unit Exact)] ((), 1) ∧
      ¬IgnoresRedelivery .irate minuteBase ((), 1) := by
  constructor
  · intro h
    have hsame := h.same ⟨(), 1, 0, .num 5⟩ (by decide) _ (List.Perm.refl _) Sql.Engine.stable
      Sql.Engine.stable (.num 0)
    revert hsame
    decide +kernel
  · intro h
    have hsame := h.same ⟨(), 1, 60000000, .num 8⟩ (by decide)
      [⟨(), 1, 60000000, .num 8⟩, ⟨(), 1, 60000000, .num 8⟩, ⟨(), 1, 0, .num 5⟩] (by decide)
      Sql.Engine.stable (Sql.Engine.rotated 2) (.num (1 / 20))
    revert hsame
    decide +kernel

end Skaldberg.Prometheus
