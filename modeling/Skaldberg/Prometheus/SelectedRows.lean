import Mathlib.Data.List.MinMax
import Skaldberg.Lib.Groups
import Skaldberg.Prometheus.RangeFn

/-!
# The rows of a selector

The query of an evaluator and the program that works on the points of a selector start from the
same rows (`Skaldberg.Prometheus.baseRows`), and reach them by two roads: the query numbers the
rows of a series from the latest one and joins those numbered 1 with the series again; the program
keeps the latest row under the key of each series. Here both roads lead to the same place,
`latestRows` for an instant and `baseRows` itself for a window
(`joinSeries_latestPoints_perm`, `instantSelector_perm`, `flatMap_rangeSelector_perm`).

What that takes of a table: a series has one row (`OneRowPerSeries`), no series has two samples at
one timestamp (`DistinctTimestamps`), and no two of the selected series share the key under which
the program collects their samples (`DistinctKeys`).
-/

namespace Skaldberg.Prometheus

variable {F : Type}

/-- A series has one row. -/
def OneRowPerSeries (t : Tables F) : Prop := (t.series.map Skaldberg.SeriesRow.seriesId).Nodup

/-- A series has one sample at a timestamp. -/
def DistinctTimestamps (t : Tables F) : Prop :=
  (t.samples.map fun sa => (sa.seriesId, sa.timestamp)).Nodup

/-- No two of the series that a selector selects share a key. -/
def DistinctKeys (t : Tables F) (sel : VectorSelector) : Prop :=
  ∀ s ∈ t.series, ∀ s' ∈ t.series, sel.pushed s = true → sel.pushed s' = true →
    seriesKey s.metricName s.labels = seriesKey s'.metricName s'.labels → s = s'

/-- The series that a selector selects. -/
def selectedSeries (t : Tables F) (sel : VectorSelector) : List Skaldberg.SeriesRow :=
  t.series.filter sel.pushed

/-- A selector without a regular expression on a label. -/
def VectorSelector.RegexFree (sel : VectorSelector) : Prop := labelFiltersForSelector sel = []

/-- The filter of the program refuses none of the series that pass the conditions of the query. -/
def NothingRefused (t : Tables F) (sel : VectorSelector) : Prop :=
  ∀ s ∈ t.series, sel.pushed s = true → sel.postFilter s.labels = true

instance (t : Tables F) : Decidable (OneRowPerSeries t) :=
  inferInstanceAs (Decidable (List.Nodup _))

instance (t : Tables F) : Decidable (DistinctTimestamps t) :=
  inferInstanceAs (Decidable (List.Nodup _))

instance (t : Tables F) (sel : VectorSelector) : Decidable (DistinctKeys t sel) :=
  inferInstanceAs (Decidable (∀ s ∈ t.series, ∀ s' ∈ t.series, sel.pushed s = true →
    sel.pushed s' = true →
      seriesKey s.metricName s.labels = seriesKey s'.metricName s'.labels → s = s'))

/-- The latest row of each series in a window. -/
def latestRows (t : Tables F) (sel : VectorSelector) (lo hi : ℤ) :
    List (SampleRow F × Skaldberg.SeriesRow) :=
  (baseRows t sel lo hi).filter fun r => (baseRows t sel lo hi).all fun r' =>
    !decide (r'.1.seriesId = r.1.seriesId) || decide (r'.1.timestamp ≤ r.1.timestamp)

variable {t : Tables F} {sel : VectorSelector} {lo hi : ℤ}

theorem mem_baseRows_of_mem_latestRows {r : SampleRow F × Skaldberg.SeriesRow}
    (h : r ∈ latestRows t sel lo hi) : r ∈ baseRows t sel lo hi := List.mem_of_mem_filter h

theorem latestRows_eq_nil : latestRows t sel lo hi = [] ↔ baseRows t sel lo hi = [] := by
  constructor
  · intro h
    by_contra hne
    -- the latest of all rows is the latest of its series
    obtain ⟨r, hr⟩ := Option.isSome_iff_exists.mp (Option.ne_none_iff_isSome.mp
      fun hnone => hne (List.argmax_eq_none
        (f := fun r : SampleRow F × _ => r.1.timestamp).mp hnone))
    have hlatest : r ∈ latestRows t sel lo hi := by
      refine List.mem_filter.mpr ⟨List.argmax_mem hr, List.all_eq_true.mpr fun r' hr' => ?_⟩
      simp [List.le_of_mem_argmax hr' hr]
    rw [h] at hlatest
    cases hlatest
  · intro h
    rw [latestRows, h]
    rfl

theorem VectorSelector.RegexFree.postFilter (h : sel.RegexFree) (labels : Labels) :
    sel.postFilter labels = true := by
  rw [VectorSelector.postFilter, h]
  rfl

theorem VectorSelector.RegexFree.nothingRefused (h : sel.RegexFree) : NothingRefused t sel :=
  fun s _ _ => h.postFilter s.labels

/-! ### Joining with the series -/

theorem series_eq (h : OneRowPerSeries t) {s s' : Skaldberg.SeriesRow} (hs : s ∈ t.series)
    (hs' : s' ∈ t.series) (hid : s.seriesId = s'.seriesId) : s = s' :=
  List.inj_on_of_nodup_map h hs hs' hid

/-- **A row joined with its series**: what is made of the two is what is made of the row. -/
theorem map_joinSeries (h : OneRowPerSeries t) {α β : Type} {sid : α → ℤ}
    {f : α × Skaldberg.SeriesRow → β} {g : α → β} {rows : List α}
    (hrows : ∀ x ∈ rows, ∃ s ∈ t.series, s.seriesId = sid x ∧ f (x, s) = g x) :
    (joinSeries t sid rows).map f = rows.map g := by
  induction rows with
  | nil => rfl
  | cons x rows ih =>
    have ih := ih fun x' hx' => hrows x' (List.mem_cons_of_mem _ hx')
    obtain ⟨s, hs, hid, hfg⟩ := hrows x (List.mem_cons_self ..)
    have hone : t.series.filter (fun s' => sid x == s'.seriesId) = [s] := by
      rw [← Sql.filter_key_eq h hs]
      refine List.filter_congr fun s' _ => ?_
      rw [Bool.eq_iff_iff, beq_iff_eq, decide_eq_true_eq, hid]
      exact eq_comm
    rw [joinSeries, Sql.join] at ih ⊢
    rw [List.flatMap_cons, List.map_append, ih, hone]
    exact congrArg (· :: rows.map g) hfg

/-- **Joining again with the series of a row** finds that series and no other. -/
theorem joinSeries_map (h : OneRowPerSeries t) {α β : Type} {sid : α → ℤ} {f : β → α}
    {g : β → Skaldberg.SeriesRow} {rows : List β}
    (hrows : ∀ r ∈ rows, g r ∈ t.series ∧ sid (f r) = (g r).seriesId) :
    joinSeries t sid (rows.map f) = rows.map fun r => (f r, g r) := by
  induction rows with
  | nil => rfl
  | cons r rows ih =>
    have ih := ih fun r' hr' => hrows r' (List.mem_cons_of_mem _ hr')
    obtain ⟨hs, hid⟩ := hrows r (List.mem_cons_self ..)
    have hmatch : (t.series.filter fun s => sid (f r) == s.seriesId) = [g r] := by
      rw [← Sql.filter_key_eq h hs]
      refine List.filter_congr fun s _ => ?_
      rw [hid, Bool.eq_iff_iff, beq_iff_eq, decide_eq_true_eq]
      exact eq_comm
    rw [joinSeries, Sql.join] at ih ⊢
    rw [List.map_cons, List.flatMap_cons, ih, hmatch]
    rfl

theorem joinSeries_perm {α : Type} {sid : α → ℤ} {rows rows' : List α} (h : rows.Perm rows') :
    (joinSeries t sid rows).Perm (joinSeries t sid rows') := Sql.join_perm_left _ _ h

/-- A row has one series. -/
theorem joinSeries_fst_sublist (h : OneRowPerSeries t) {α : Type} (sid : α → ℤ) (rows : List α) :
    ((joinSeries t sid rows).map Prod.fst).Sublist rows := by
  refine Sql.join_fst_sublist fun r _ => ?_
  have hle := Sql.length_filter_key_le h (sid r)
  refine (List.Perm.length_eq (List.Perm.of_eq (List.filter_congr fun s _ => ?_))).trans_le hle
  rw [Bool.eq_iff_iff, beq_iff_eq, decide_eq_true_eq]
  exact eq_comm

theorem samplesJoinSeries_fst_sublist (h : OneRowPerSeries t) :
    ((samplesJoinSeries t).map Prod.fst).Sublist t.samples :=
  joinSeries_fst_sublist h _ t.samples

/-- **A sample is selected once**, with its series. -/
theorem baseRows_fst_sublist (h : OneRowPerSeries t) :
    ((baseRows t sel lo hi).map Prod.fst).Sublist t.samples :=
  (List.filter_sublist.map _).trans (samplesJoinSeries_fst_sublist h)

theorem snd_eq_of_mem_baseRows (h : OneRowPerSeries t) {r r' : SampleRow F × Skaldberg.SeriesRow}
    (hr : r ∈ baseRows t sel lo hi) (hr' : r' ∈ baseRows t sel lo hi)
    (hid : r.1.seriesId = r'.1.seriesId) : r.2 = r'.2 := by
  obtain ⟨⟨-, hs, hon⟩, -⟩ := mem_baseRows.mp hr
  obtain ⟨⟨-, hs', hon'⟩, -⟩ := mem_baseRows.mp hr'
  exact series_eq h hs hs' (hon.symm.trans (hid.trans hon'))

section DistinctTimestamps

variable (h : OneRowPerSeries t) (hts : DistinctTimestamps t)
include h hts

/-- **A row of a window is told by its series and its timestamp.** -/
theorem baseRows_eq {r r' : SampleRow F × Skaldberg.SeriesRow} (hr : r ∈ baseRows t sel lo hi)
    (hr' : r' ∈ baseRows t sel lo hi) (hid : r.1.seriesId = r'.1.seriesId)
    (htime : r.1.timestamp = r'.1.timestamp) : r = r' := by
  have hfst : r.1 = r'.1 := by
    refine List.inj_on_of_nodup_map hts (mem_baseRows.mp hr).1.1 (mem_baseRows.mp hr').1.1 ?_
    rw [hid, htime]
  exact Prod.ext hfst (snd_eq_of_mem_baseRows h hr hr' hid)

theorem baseRows_nodup : (baseRows t sel lo hi).Nodup :=
  ((hts.of_map _).sublist (baseRows_fst_sublist h)).of_map _

/-! ### The latest rows, in the query -/

/-- **The points numbered 1 by the query** are the latest rows. -/
theorem latestPoints_perm (E : Sql.Engine) (timeUs : ℤ) :
    (latestPoints E t sel timeUs).Perm
      ((latestRows t sel (asI64 (timeUs - lookbackUs)) timeUs).map fun r =>
        ⟨(), r.1.seriesId, r.1.value⟩) := by
  let later (a b : SampleRow F × Skaldberg.SeriesRow) : Bool :=
    decide (b.1.timestamp ≤ a.1.timestamp)
  let base := baseRows t sel (asI64 (timeUs - lookbackUs)) timeUs
  have hnodup : base.Nodup := baseRows_nodup h hts
  have hone : ((E.rowNumber (fun r => r.1.seriesId) later base).filter fun r =>
      decide (r.2 = 1)).map Prod.fst |>.Perm _ := E.rowNumber_one_perm hnodup
    (fun a b => by simpa [later] using le_total b.1.timestamp a.1.timestamp)
    (fun a b c => by simpa [later] using fun hab hbc => le_trans hbc hab)
    (fun a ha b hb hid hab hba => baseRows_eq h hts ha hb hid
      (le_antisymm (of_decide_eq_true hba) (of_decide_eq_true hab)))
  have hpoints := hone.map fun r => (⟨(), r.1.seriesId, r.1.value⟩ : Point Unit F)
  rw [List.map_map] at hpoints
  exact hpoints

/-- The latest points with the series they belong to. -/
theorem joinSeries_latestPoints_perm (E : Sql.Engine) (timeUs : ℤ) :
    (joinSeries t Point.seriesId (latestPoints E t sel timeUs)).Perm
      ((latestRows t sel (asI64 (timeUs - lookbackUs)) timeUs).map fun r =>
        (⟨(), r.1.seriesId, r.1.value⟩, r.2)) := by
  refine (joinSeries_perm (latestPoints_perm h hts E timeUs)).trans (List.Perm.of_eq ?_)
  refine joinSeries_map h fun r hr => ?_
  obtain ⟨⟨-, hs, hon⟩, -⟩ := mem_baseRows.mp (mem_baseRows_of_mem_latestRows hr)
  exact ⟨hs, hon⟩

end DistinctTimestamps

/-- A series has one latest point. -/
theorem nodup_seriesId_latestPoints (E : Sql.Engine) (t : Tables F)
    (sel : VectorSelector) (timeUs : ℤ) :
    ((latestPoints E t sel timeUs).map Point.seriesId).Nodup := by
  have hone := E.nodup_rowNumber_one (fun r : SampleRow F × Skaldberg.SeriesRow => r.1.seriesId)
    (fun a b => decide (b.1.timestamp ≤ a.1.timestamp))
    (baseRows t sel (asI64 (timeUs - lookbackUs)) timeUs)
  rw [latestPoints, List.map_map]
  exact hone

/-! ### The latest rows, in the program -/

/-- What `keepLatest` leaves under the key of a row. -/
def later (r : SeriesRow F) : Option (SeriesRow F) → SeriesRow F
  | some prev => if prev.tsUs ≥ r.tsUs then prev else r
  | none => r

theorem foldl_keepLatest_eq (rows : List (SeriesRow F)) (m : SortedMap String (SeriesRow F)) :
    rows.foldl keepLatest m =
      rows.foldl (fun m r => m.upsert (seriesKey r.metricName r.labels) (later r)) m := by
  have hstep : (keepLatest : SortedMap String (SeriesRow F) → _) =
      fun m r => m.upsert (seriesKey r.metricName r.labels) (later r) := by
    funext m r
    refine congrArg (m.upsert _) (funext fun o => ?_)
    cases o <;> rfl
  rw [hstep]

/-- **What is kept of the rows of one key**: one of them, none of which is later. -/
theorem foldl_later {rows : List (SeriesRow F)} {r : SeriesRow F} :
    ∀ kept : SeriesRow F, rows.foldl (fun o r => some (later r o)) (some kept) = some r →
      (r = kept ∨ r ∈ rows) ∧ kept.tsUs ≤ r.tsUs ∧ ∀ r' ∈ rows, r'.tsUs ≤ r.tsUs := by
  induction rows with
  | nil =>
    intro kept h
    cases h
    exact ⟨Or.inl rfl, le_refl _, by simp⟩
  | cons r' rows ih =>
    intro kept h
    rw [List.foldl_cons, later] at h
    split_ifs at h with hle
    · obtain ⟨hmem, hkept, hall⟩ := ih kept h
      refine ⟨hmem.imp id (List.mem_cons_of_mem _), hkept, fun r'' hr'' => ?_⟩
      rcases List.mem_cons.mp hr'' with rfl | hr''
      · exact hle.le.trans hkept
      · exact hall r'' hr''
    · obtain ⟨hmem, hkept, hall⟩ := ih r' h
      refine ⟨?_, (not_le.mp hle).le.trans hkept, fun r'' hr'' => ?_⟩
      · rcases hmem with rfl | hmem
        · exact Or.inr (List.mem_cons_self ..)
        · exact Or.inr (List.mem_cons_of_mem _ hmem)
      · rcases List.mem_cons.mp hr'' with rfl | hr''
        · exact hkept
        · exact hall r'' hr''

theorem get?_keepLatest (rows : List (SeriesRow F)) (k : String) :
    (rows.foldl keepLatest .empty).get? k =
      (rows.filter fun r => decide (seriesKey r.metricName r.labels = k)).foldl
        (fun o r => some (later r o)) none := by
  rw [foldl_keepLatest_eq]
  exact SortedMap.get?_foldl_upsert (fun r : SeriesRow F => seriesKey r.metricName r.labels) later k
    rows .empty

/-- **What is found under a key** is a row of that key, and none of them is later. -/
theorem latest_of_get?_keepLatest {rows : List (SeriesRow F)} {k : String} {r : SeriesRow F}
    (h : (rows.foldl keepLatest .empty).get? k = some r) :
    r ∈ rows ∧ seriesKey r.metricName r.labels = k ∧
      ∀ r' ∈ rows, seriesKey r'.metricName r'.labels = k → r'.tsUs ≤ r.tsUs := by
  rw [get?_keepLatest] at h
  have hall : ∀ r' ∈ rows, seriesKey r'.metricName r'.labels = k →
      r' ∈ rows.filter fun r => decide (seriesKey r.metricName r.labels = k) :=
    fun r' hr' hk => List.mem_filter.mpr ⟨hr', decide_eq_true hk⟩
  have hrows : ∀ r' ∈ rows.filter (fun r => decide (seriesKey r.metricName r.labels = k)),
      r' ∈ rows ∧ seriesKey r'.metricName r'.labels = k :=
    fun r' hr' => ⟨List.mem_of_mem_filter hr', of_decide_eq_true (List.mem_filter.mp hr').2⟩
  revert h hall hrows
  generalize rows.filter (fun r => decide (seriesKey r.metricName r.labels = k)) = l
  intro h hall hrows
  cases l with
  | nil => cases h
  | cons r₀ l =>
    obtain ⟨hmem, hr₀, hle⟩ := foldl_later r₀ h
    have hin : r ∈ r₀ :: l := by
      rcases hmem with rfl | hmem
      · exact List.mem_cons_self ..
      · exact List.mem_cons_of_mem _ hmem
    refine ⟨(hrows r hin).1, (hrows r hin).2, fun r' hr' hk => ?_⟩
    rcases List.mem_cons.mp (hall r' hr' hk) with rfl | hr'
    · exact hr₀
    · exact hle r' hr'

theorem exists_get?_keepLatest {rows : List (SeriesRow F)} {r : SeriesRow F} (hr : r ∈ rows) :
    ∃ r', (rows.foldl keepLatest .empty).get? (seriesKey r.metricName r.labels) = some r' := by
  have hne : (rows.filter fun r' => decide (seriesKey r'.metricName r'.labels =
      seriesKey r.metricName r.labels)) ≠ [] :=
    List.ne_nil_of_mem (List.mem_filter.mpr ⟨hr, decide_eq_true rfl⟩)
  obtain ⟨r₀, l, hl⟩ := List.exists_cons_of_ne_nil hne
  have hkeep : ∀ (l : List (SeriesRow F)) (kept : SeriesRow F),
      ∃ r', l.foldl (fun o r => some (later r o)) (some kept) = some r' := by
    intro l
    induction l with
    | nil => exact fun kept => ⟨kept, rfl⟩
    | cons r' l ih => exact fun kept => ih _
  rw [get?_keepLatest, hl, List.foldl_cons]
  exact hkeep l _

/-- **A row kept is the latest of its key**, where no other row of that key has its timestamp. -/
theorem mem_values_keepLatest {rows : List (SeriesRow F)} {r : SeriesRow F}
    (hts : r ∈ rows → ∀ a ∈ rows,
      seriesKey a.metricName a.labels = seriesKey r.metricName r.labels → a.tsUs = r.tsUs → a = r) :
    r ∈ (rows.foldl keepLatest .empty).values ↔ r ∈ rows ∧ ∀ r' ∈ rows,
      seriesKey r'.metricName r'.labels = seriesKey r.metricName r.labels → r'.tsUs ≤ r.tsUs := by
  constructor
  · intro h
    obtain ⟨e, he, rfl⟩ := List.mem_map.mp h
    obtain ⟨hr, hk, hall⟩ := latest_of_get?_keepLatest (SortedMap.get?_eq_some_iff.mpr he)
    exact ⟨hr, fun r' hr' hkey => hall r' hr' (hkey.trans hk)⟩
  · rintro ⟨hr, hlatest⟩
    obtain ⟨r', hr'⟩ := exists_get?_keepLatest hr
    obtain ⟨hmem, hk, hall⟩ := latest_of_get?_keepLatest hr'
    have heq : r' = r := hts hr r' hmem hk (le_antisymm (hlatest r' hmem hk) (hall r hr rfl))
    exact List.mem_map.mpr ⟨(_, r'), SortedMap.get?_eq_some_iff.mp hr', heq⟩

theorem nodup_values_keepLatest (rows : List (SeriesRow F)) :
    (rows.foldl keepLatest .empty).values.Nodup := by
  -- a row tells the key it is under
  refine List.Nodup.of_map (fun r => seriesKey r.metricName r.labels) ?_
  rw [SortedMap.values, List.map_map]
  have hkeys : (rows.foldl keepLatest .empty).entries.map
      ((fun r : SeriesRow F => seriesKey r.metricName r.labels) ∘ Prod.snd) =
        (rows.foldl keepLatest .empty).keys := by
    refine List.map_congr_left fun e he => ?_
    exact (latest_of_get?_keepLatest (SortedMap.get?_eq_some_iff.mpr he)).2.1
  rw [hkeys]
  exact SortedMap.keys_nodup _

/-- **The rows kept are the latest of each key**, where no two rows of a key have one
timestamp. -/
theorem values_keepLatest_perm {rows : List (SeriesRow F)} (hnodup : rows.Nodup)
    (hts : ∀ a ∈ rows, ∀ b ∈ rows,
      seriesKey a.metricName a.labels = seriesKey b.metricName b.labels →
      a.tsUs = b.tsUs → a = b) :
    (rows.foldl keepLatest .empty).values.Perm (rows.filter fun r => rows.all fun r' =>
      !decide (seriesKey r'.metricName r'.labels = seriesKey r.metricName r.labels) ||
        decide (r'.tsUs ≤ r.tsUs)) := by
  refine (List.perm_ext_iff_of_nodup (nodup_values_keepLatest rows) (hnodup.filter _)).mpr
    fun r => ?_
  have himp : ∀ p q : Prop, [Decidable p] → [Decidable q] →
      ((!decide p || decide q) = true ↔ (p → q)) := by
    intro p q _ _
    simp [imp_iff_not_or]
  simp only [List.mem_filter, List.all_eq_true, himp]
  exact mem_values_keepLatest fun hr a ha => hts a ha r hr

/-! ### The selector in the program -/

/-- **The rows a selector query returns**, when nothing is left to the program. -/
theorem runSelectorQuery_perm_baseRows (haccept : NothingRefused t sel) (E : Sql.Engine) :
    (runSelectorQuery E t sel lo hi).Perm ((baseRows t sel lo hi).map seriesRow) := by
  rw [runSelectorQuery, List.filter_eq_self.mpr]
  · exact E.sort_perm _ _
  · intro row hrow
    obtain ⟨r, hr, rfl⟩ := List.mem_map.mp (E.mem_sort.mp hrow)
    exact haccept r.2 (mem_baseRows.mp hr).1.2.1 (mem_baseRows.mp hr).2.1

theorem seriesKey_eq_iff (hkeys : DistinctKeys t sel) (h : OneRowPerSeries t)
    {r r' : SampleRow F × Skaldberg.SeriesRow} (hr : r ∈ baseRows t sel lo hi)
    (hr' : r' ∈ baseRows t sel lo hi) :
    seriesKey r.2.metricName r.2.labels = seriesKey r'.2.metricName r'.2.labels ↔
      r.1.seriesId = r'.1.seriesId := by
  obtain ⟨⟨-, hs, hon⟩, hpush, -⟩ := mem_baseRows.mp hr
  obtain ⟨⟨-, hs', hon'⟩, hpush', -⟩ := mem_baseRows.mp hr'
  constructor
  · intro hkey
    rw [hon, hon', hkeys _ hs _ hs' hpush hpush' hkey]
  · intro hid
    rw [series_eq h hs hs' (hon.symm.trans (hid.trans hon'))]

/-- **The points of an instant selector** are the latest rows. -/
theorem instantSelector_perm (h : OneRowPerSeries t) (hts : DistinctTimestamps t)
    (hkeys : DistinctKeys t sel) (haccept : NothingRefused t sel) (E : Sql.Engine) (timeUs : ℤ) :
    (instantSelector E t sel timeUs).Perm
      ((latestRows t sel (asI64 (timeUs - lookbackUs)) timeUs).map fun r =>
        ⟨r.2.metricName, r.2.labels, r.1.timestamp, r.1.value⟩) := by
  let base := baseRows t sel (asI64 (timeUs - lookbackUs)) timeUs
  let rows := runSelectorQuery E t sel (asI64 (timeUs - lookbackUs)) timeUs
  have hperm : rows.Perm (base.map seriesRow) := runSelectorQuery_perm_baseRows haccept E
  have heq : ∀ r ∈ base, ∀ r' ∈ base,
      seriesKey r.2.metricName r.2.labels = seriesKey r'.2.metricName r'.2.labels →
        r.1.timestamp = r'.1.timestamp → r = r' := fun r hr r' hr' hkey htime =>
    baseRows_eq h hts hr hr' ((seriesKey_eq_iff hkeys h hr hr').mp hkey) htime
  have hnodup : rows.Nodup := by
    refine hperm.nodup_iff.mpr ((baseRows_nodup h hts).map_on fun r hr r' hr' hrow => ?_)
    simp only [seriesRow, SeriesRow.mk.injEq] at hrow
    exact heq r hr r' hr' (by rw [hrow.1, hrow.2.1]) hrow.2.2.1
  have hrows : ∀ a ∈ rows, ∀ b ∈ rows,
      seriesKey a.metricName a.labels = seriesKey b.metricName b.labels → a.tsUs = b.tsUs →
        a = b := by
    intro a ha b hb hkey htime
    obtain ⟨r, hr, rfl⟩ := List.mem_map.mp (hperm.mem_iff.mp ha)
    obtain ⟨r', hr', rfl⟩ := List.mem_map.mp (hperm.mem_iff.mp hb)
    rw [heq r hr r' hr' hkey htime]
  have hlatest : (rows.filter fun r => rows.all fun r' =>
      !decide (seriesKey r'.metricName r'.labels = seriesKey r.metricName r.labels) ||
        decide (r'.tsUs ≤ r.tsUs)).Perm
      ((latestRows t sel (asI64 (timeUs - lookbackUs)) timeUs).map seriesRow) := by
    refine (hperm.filter _).trans (List.Perm.of_eq ?_)
    rw [List.filter_map, latestRows]
    refine congrArg _ (List.filter_congr fun r hr => ?_)
    rw [Function.comp_apply, hperm.all_eq, List.all_map]
    rw [Bool.eq_iff_iff, List.all_eq_true, List.all_eq_true]
    refine forall₂_congr fun r' hr' => ?_
    have hiff := seriesKey_eq_iff hkeys h hr' hr
    simp only [Function.comp_apply, seriesRow, hiff, Bool.or_eq_true, Bool.not_eq_true',
      decide_eq_false_iff_not, decide_eq_true_eq]
    exact or_congr_right decide_eq_true_iff
  have hvalues := ((values_keepLatest_perm hnodup hrows).trans hlatest).map
    fun r : SeriesRow F => (⟨r.metricName, r.labels, r.tsUs, r.value⟩ : InstantPoint F)
  rw [List.map_map] at hvalues
  exact hvalues

/-! ### Matrices as rows -/

/-- The points of a series, as rows. -/
def RangePoints.rows (s : RangePoints F) : List (SeriesRow F) :=
  s.points.map fun p => ⟨s.metricName, s.labels, p.1, p.2⟩

/-- The series that rows under one key are collected into: that of the first. -/
def collected : List (SeriesRow F) → RangePoints F
  | [] => ⟨"", .empty, []⟩
  | r :: rows => ⟨r.metricName, r.labels, (r :: rows).map fun r => (r.tsUs, r.value)⟩

/-- **Rows are collected by their keys.** -/
theorem entries_groupRowsBySeries_perm (rows : List (SeriesRow F)) :
    (groupRowsBySeries rows).entries.Perm
      ((Sql.groupBy (fun r => seriesKey r.metricName r.labels) rows).map fun g =>
        (g.1, collected g.2)) := by
  let add (r : SeriesRow F) (o : Option (RangePoints F)) : RangePoints F :=
    o.elim ⟨r.metricName, r.labels, [(r.tsUs, r.value)]⟩ fun e =>
      { e with points := e.points ++ [(r.tsUs, r.value)] }
  have hpush : (pushPoint : SortedMap String (RangePoints F) → _) =
      fun m r => m.upsert (seriesKey r.metricName r.labels) (add r) := by
    funext m r
    refine congrArg (m.upsert _) (funext fun o => ?_)
    cases o <;> rfl
  have hfold : ∀ (l : List (SeriesRow F)) (e : RangePoints F),
      l.foldl (fun o r => some (add r o)) (some e) =
        some { e with points := e.points ++ l.map fun r => (r.tsUs, r.value) } := by
    intro l
    induction l with
    | nil => simp
    | cons r l ih =>
      intro e
      rw [List.foldl_cons, ih]
      simp [add]
  rw [groupRowsBySeries, hpush]
  refine SortedMap.entries_foldl_upsert_perm _ add collected (fun l hne => ?_) rows
  obtain ⟨r, l, rfl⟩ := List.exists_cons_of_ne_nil hne
  rw [List.foldl_cons, hfold]
  rfl

theorem mem_groupRowsBySeries {rows : List (SeriesRow F)} {s : RangePoints F} :
    s ∈ (groupRowsBySeries rows).values ↔ ∃ r ∈ rows, s = collected (rows.filter fun r' =>
      decide (seriesKey r'.metricName r'.labels = seriesKey r.metricName r.labels)) := by
  rw [SortedMap.values, ((entries_groupRowsBySeries_perm rows).map Prod.snd).mem_iff, List.map_map,
    List.mem_map]
  constructor
  · rintro ⟨g, hg, rfl⟩
    obtain ⟨⟨r, hr, hkey⟩, hrows⟩ := Sql.mem_groupBy.mp hg
    refine ⟨r, hr, ?_⟩
    rw [Function.comp_apply, hrows, hkey]
  · rintro ⟨r, hr, rfl⟩
    exact ⟨(_, _), Sql.mem_groupBy.mpr ⟨⟨r, hr, rfl⟩, rfl⟩, rfl⟩

/-- **An entry is that of a row**, and has the points of the rows under its key. -/
theorem exists_row_of_collected {rows : List (SeriesRow F)} {a : SeriesRow F} (ha : a ∈ rows) :
    ∃ r ∈ rows, seriesKey a.metricName a.labels = seriesKey r.metricName r.labels ∧
      collected (rows.filter fun r' => decide (seriesKey r'.metricName r'.labels =
          seriesKey a.metricName a.labels)) =
        ⟨r.metricName, r.labels, (rows.filter fun r' => decide (seriesKey r'.metricName r'.labels =
          seriesKey r.metricName r.labels)).map fun r => (r.tsUs, r.value)⟩ := by
  have hmem : a ∈ rows.filter fun r' => decide (seriesKey r'.metricName r'.labels =
      seriesKey a.metricName a.labels) := List.mem_filter.mpr ⟨ha, decide_eq_true rfl⟩
  obtain ⟨r, rest, hr⟩ := List.exists_cons_of_ne_nil (List.ne_nil_of_mem hmem)
  obtain ⟨hrows, hkey⟩ := List.mem_filter.mp (hr ▸ List.mem_cons_self (a := r) (l := rest))
  have hkey := of_decide_eq_true hkey
  refine ⟨r, hrows, hkey.symm, ?_⟩
  rw [hkey, hr]
  rfl

theorem rows_collected {rows : List (SeriesRow F)} (name : String) (labels : Labels)
    (h : ∀ r ∈ rows, r.metricName = name ∧ r.labels = labels) : (collected rows).rows = rows := by
  cases rows with
  | nil => rfl
  | cons r l =>
    rw [collected, RangePoints.rows, List.map_map]
    refine (List.map_congr_left fun r' hr' => ?_).trans (List.map_id _)
    obtain ⟨hname, hlabels⟩ := h r (List.mem_cons_self ..)
    obtain ⟨hname', hlabels'⟩ := h r' hr'
    obtain ⟨name', labels', ts, v⟩ := r'
    simp only [Function.comp_apply, SeriesRow.mk.injEq, id_eq, and_true]
    exact ⟨hname.trans hname'.symm, hlabels.trans hlabels'.symm⟩

/-- **Collecting rows by series loses none of them**, when the rows under a key are of one
series. -/
theorem flatMap_groupRowsBySeries_perm {rows : List (SeriesRow F)}
    (hkey : ∀ a ∈ rows, ∀ b ∈ rows,
      seriesKey a.metricName a.labels = seriesKey b.metricName b.labels →
      a.metricName = b.metricName ∧ a.labels = b.labels) :
    ((groupRowsBySeries rows).values.flatMap RangePoints.rows).Perm rows := by
  rw [SortedMap.values, List.flatMap_map]
  refine ((entries_groupRowsBySeries_perm rows).flatMap_right _).trans ?_
  rw [List.flatMap_map]
  refine List.Perm.trans (List.Perm.of_eq ?_)
    (Sql.flatMap_groupBy_perm (fun r => seriesKey r.metricName r.labels) rows)
  refine List.flatMap_congr fun g hg => ?_
  -- the rows of a group are all of the series of the first
  obtain ⟨⟨r, hr, hrkey⟩, -⟩ := Sql.mem_groupBy.mp hg
  refine rows_collected r.metricName r.labels fun r' hr' => ?_
  obtain ⟨hmem, hk⟩ := Sql.mem_of_mem_groupBy hg hr'
  exact hkey r' hmem r hr (hk.trans hrkey.symm)

/-- **The points of a range selector** are the rows of the window. -/
theorem flatMap_rangeSelector_perm (hkeys : DistinctKeys t sel) (haccept : NothingRefused t sel)
    (E : Sql.Engine) :
    ((rangeSelector E t sel lo hi).flatMap RangePoints.rows).Perm
      ((baseRows t sel lo hi).map seriesRow) := by
  have hperm : (runSelectorQuery E t sel lo hi).Perm ((baseRows t sel lo hi).map seriesRow) :=
    runSelectorQuery_perm_baseRows haccept E
  refine (flatMap_groupRowsBySeries_perm ?_).trans hperm
  intro a ha b hb hkey
  obtain ⟨r, hr, rfl⟩ := List.mem_map.mp (hperm.mem_iff.mp ha)
  obtain ⟨r', hr', rfl⟩ := List.mem_map.mp (hperm.mem_iff.mp hb)
  obtain ⟨⟨-, hs, -⟩, hpush, -⟩ := mem_baseRows.mp hr
  obtain ⟨⟨-, hs', -⟩, hpush', -⟩ := mem_baseRows.mp hr'
  have hseries : r.2 = r'.2 := hkeys _ hs _ hs' hpush hpush' hkey
  exact ⟨congrArg Skaldberg.SeriesRow.metricName hseries,
    congrArg Skaldberg.SeriesRow.labels hseries⟩

/-! ### Series with a key of their own

Where some selected series share a key, what the program makes of a series whose key no other has
is still what it should be. -/

/-- No other selected series has the key of this one. -/
def OwnKey (t : Tables F) (sel : VectorSelector) (s : Skaldberg.SeriesRow) : Prop :=
  ∀ s' ∈ t.series, sel.pushed s' = true →
    seriesKey s'.metricName s'.labels = seriesKey s.metricName s.labels → s' = s

/-- A row of a window as a point of an instant selector. -/
def instantPoint (r : SampleRow F × Skaldberg.SeriesRow) : InstantPoint F :=
  ⟨r.2.metricName, r.2.labels, r.1.timestamp, r.1.value⟩

variable {E : Sql.Engine} {s : Skaldberg.SeriesRow}

theorem exists_row_of_mem_runSelectorQuery {row : SeriesRow F}
    (h : row ∈ runSelectorQuery E t sel lo hi) : ∃ r ∈ baseRows t sel lo hi, seriesRow r = row :=
  List.mem_map.mp (E.mem_sort.mp (List.mem_of_mem_filter h))

theorem exists_row_of_mem_instantSelector {timeUs : ℤ} {p : InstantPoint F}
    (h : p ∈ instantSelector E t sel timeUs) :
    ∃ r ∈ baseRows t sel (asI64 (timeUs - lookbackUs)) timeUs, p = instantPoint r := by
  obtain ⟨row, hrow, rfl⟩ := List.mem_map.mp h
  obtain ⟨e, he, rfl⟩ := List.mem_map.mp hrow
  have hmem := (latest_of_get?_keepLatest (SortedMap.get?_eq_some_iff.mpr he)).1
  obtain ⟨r, hr, hreq⟩ := exists_row_of_mem_runSelectorQuery hmem
  exact ⟨r, hr, by rw [← hreq]; rfl⟩

/-- A window with a row has a point. -/
theorem exists_mem_instantSelector (haccept : NothingRefused t sel) {timeUs : ℤ}
    {r : SampleRow F × Skaldberg.SeriesRow}
    (hr : r ∈ baseRows t sel (asI64 (timeUs - lookbackUs)) timeUs) :
    ∃ p, p ∈ instantSelector E t sel timeUs := by
  have hrow : seriesRow r ∈ runSelectorQuery E t sel (asI64 (timeUs - lookbackUs)) timeUs :=
    (runSelectorQuery_perm_baseRows haccept E).mem_iff.mpr (List.mem_map_of_mem hr)
  obtain ⟨row, hget⟩ := exists_get?_keepLatest hrow
  have hvalue : row ∈ ((runSelectorQuery E t sel (asI64 (timeUs - lookbackUs)) timeUs).foldl
      keepLatest .empty).values :=
    List.mem_map.mpr ⟨_, SortedMap.get?_eq_some_iff.mp hget, rfl⟩
  exact ⟨_, List.mem_map_of_mem hvalue⟩

/-- The rows of the key of a series are the rows of that series. -/
theorem snd_eq_of_ownKey (hown : OwnKey t sel s) {r : SampleRow F × Skaldberg.SeriesRow}
    (hr : r ∈ baseRows t sel lo hi)
    (hkey : seriesKey r.2.metricName r.2.labels = seriesKey s.metricName s.labels) : r.2 = s := by
  obtain ⟨⟨-, hs, -⟩, hpush, -⟩ := mem_baseRows.mp hr
  exact hown r.2 hs hpush hkey

/-- **The point of a series with a key of its own** is its latest row. -/
theorem mem_instantSelector_iff (h : OneRowPerSeries t) (hts : DistinctTimestamps t)
    (haccept : NothingRefused t sel) (hown : OwnKey t sel s) {timeUs : ℤ} {p : InstantPoint F}
    (hname : p.metricName = s.metricName) (hlabels : p.labels = s.labels) :
    p ∈ instantSelector E t sel timeUs ↔
      ∃ r ∈ latestRows t sel (asI64 (timeUs - lookbackUs)) timeUs,
        r.2 = s ∧ p = instantPoint r := by
  let base := baseRows t sel (asI64 (timeUs - lookbackUs)) timeUs
  let rows := runSelectorQuery E t sel (asI64 (timeUs - lookbackUs)) timeUs
  have hrows : ∀ row, row ∈ rows ↔ ∃ r ∈ base, seriesRow r = row := fun row =>
    (runSelectorQuery_perm_baseRows haccept E).mem_iff.trans List.mem_map
  let row : SeriesRow F := ⟨p.metricName, p.labels, p.tsUs, p.value⟩
  have hpoint : p ∈ instantSelector E t sel timeUs ↔
    row ∈ (rows.foldl keepLatest .empty).values := by
    rw [instantSelector, List.mem_map]
    constructor
    · rintro ⟨row', hrow', rfl⟩
      exact hrow'
    · exact fun hrow => ⟨row, hrow, rfl⟩
  have hkey : seriesKey row.metricName row.labels = seriesKey s.metricName s.labels := by
    rw [show row.metricName = _ from hname, show row.labels = _ from hlabels]
  have howner : ∀ r ∈ base, seriesKey r.2.metricName r.2.labels =
      seriesKey row.metricName row.labels → r.2 = s :=
    fun r hr hk => snd_eq_of_ownKey hown hr (hk.trans hkey)
  have hid : ∀ r ∈ base, ∀ r' ∈ base, r.2 = s → r'.2 = s → r.1.seriesId = r'.1.seriesId := by
    intro r hr r' hr' hrs hrs'
    rw [(mem_baseRows.mp hr).1.2.2, (mem_baseRows.mp hr').1.2.2, hrs, hrs']
  rw [hpoint, mem_values_keepLatest]
  · constructor
    · rintro ⟨hmem, hlatest⟩
      obtain ⟨r, hr, hreq⟩ := (hrows row).mp hmem
      have hrs : r.2 = s := howner r hr (by rw [← hreq]; rfl)
      refine ⟨r, List.mem_filter.mpr ⟨hr, List.all_eq_true.mpr fun r' hr' => ?_⟩, hrs, ?_⟩
      · have hle : r'.1.seriesId = r.1.seriesId → r'.1.timestamp ≤ r.1.timestamp := by
          intro hid'
          have hle := hlatest (seriesRow r') ((hrows _).mpr ⟨r', hr', rfl⟩) (by
            rw [← hreq]
            exact (congrArg (fun s : Skaldberg.SeriesRow => seriesKey s.metricName s.labels)
              (snd_eq_of_mem_baseRows h hr' hr hid')))
          rw [← hreq] at hle
          exact hle
        by_cases hid' : r'.1.seriesId = r.1.seriesId
        · simp [hle hid']
        · simp [hid']
      · rw [show p = ⟨row.metricName, row.labels, row.tsUs, row.value⟩ from rfl, ← hreq]
        rfl
    · rintro ⟨r, hr, hrs, hpr⟩
      have hbase := mem_baseRows_of_mem_latestRows hr
      have hreq : seriesRow r = row := by
        rw [show row = ⟨p.metricName, p.labels, p.tsUs, p.value⟩ from rfl, hpr]
        rfl
      refine ⟨(hrows _).mpr ⟨r, hbase, hreq⟩, fun row' hrow' hk => ?_⟩
      obtain ⟨r', hr', rfl⟩ := (hrows _).mp hrow'
      have hle := List.all_eq_true.mp (List.mem_filter.mp hr).2 r' hr'
      have hid' := hid r' hr' r hbase (howner r' hr' hk) hrs
      rw [← hreq]
      change r'.1.timestamp ≤ r.1.timestamp
      simpa [hid'] using hle
  · intro hmem row' hrow' hk htime
    obtain ⟨r, hr, hreq⟩ := (hrows row).mp hmem
    obtain ⟨r', hr', rfl⟩ := (hrows _).mp hrow'
    have hrs : r.2 = s := howner r hr (by rw [← hreq]; rfl)
    have hrs' : r'.2 = s := howner r' hr' hk
    rw [← hreq]
    exact congrArg seriesRow (baseRows_eq h hts hr' hr (hid r' hr' r hr hrs' hrs)
      (htime.trans (by rw [← hreq]; rfl)))

/-- The series that a range selector makes of the rows of a key. -/
def seriesOf (E : Sql.Engine) (t : Tables F) (sel : VectorSelector) (lo hi : ℤ)
    (s : Skaldberg.SeriesRow) : RangePoints F :=
  collected ((runSelectorQuery E t sel lo hi).filter fun r =>
    decide (seriesKey r.metricName r.labels = seriesKey s.metricName s.labels))

/-- A series of a range selector is that of a selected series. -/
theorem exists_row_of_mem_rangeSelector {l : RangePoints F} (hl : l ∈ rangeSelector E t sel lo hi) :
    ∃ r ∈ baseRows t sel lo hi, l.metricName = r.2.metricName ∧ l.labels = r.2.labels ∧
      l = seriesOf E t sel lo hi r.2 := by
  obtain ⟨row, hrow, hcollected⟩ := mem_groupRowsBySeries.mp hl
  have hmem : row ∈ (runSelectorQuery E t sel lo hi).filter fun r =>
      decide (seriesKey r.metricName r.labels = seriesKey row.metricName row.labels) :=
    List.mem_filter.mpr ⟨hrow, decide_eq_true rfl⟩
  obtain ⟨first, rest, hfirst⟩ := List.exists_cons_of_ne_nil (List.ne_nil_of_mem hmem)
  have hin : first ∈ (runSelectorQuery E t sel lo hi).filter fun r =>
      decide (seriesKey r.metricName r.labels = seriesKey row.metricName row.labels) :=
    hfirst ▸ List.mem_cons_self ..
  obtain ⟨hfirstq, hkey⟩ := List.mem_filter.mp hin
  obtain ⟨r, hr, hreq⟩ := exists_row_of_mem_runSelectorQuery hfirstq
  have hkey : seriesKey r.2.metricName r.2.labels = seriesKey row.metricName row.labels := by
    rw [← of_decide_eq_true hkey, ← hreq]
    rfl
  refine ⟨r, hr, ?_, ?_, ?_⟩
  · rw [hcollected, hfirst, collected, ← hreq]
    rfl
  · rw [hcollected, hfirst, collected, ← hreq]
    rfl
  · rw [hcollected, seriesOf, hkey]

theorem seriesOf_mem_rangeSelector (haccept : NothingRefused t sel)
    {r : SampleRow F × Skaldberg.SeriesRow} (hr : r ∈ baseRows t sel lo hi) :
    seriesOf E t sel lo hi r.2 ∈ rangeSelector E t sel lo hi :=
  mem_groupRowsBySeries.mpr ⟨seriesRow r,
    (runSelectorQuery_perm_baseRows haccept E).mem_iff.mpr (List.mem_map_of_mem hr), rfl⟩

/-- **The points of a series with a key of its own** are its rows. -/
theorem mem_rows_seriesOf (haccept : NothingRefused t sel) (hown : OwnKey t sel s)
    {row : SeriesRow F} :
    row ∈ (seriesOf E t sel lo hi s).rows ↔
      ∃ r ∈ baseRows t sel lo hi, r.2 = s ∧ seriesRow r = row := by
  have hrows : ∀ row, row ∈ runSelectorQuery E t sel lo hi ↔
      ∃ r ∈ baseRows t sel lo hi, seriesRow r = row := fun row =>
    (runSelectorQuery_perm_baseRows haccept E).mem_iff.trans List.mem_map
  rw [seriesOf, rows_collected s.metricName s.labels]
  · rw [List.mem_filter, hrows]
    constructor
    · rintro ⟨⟨r, hr, rfl⟩, hkey⟩
      exact ⟨r, hr, snd_eq_of_ownKey hown hr (of_decide_eq_true hkey), rfl⟩
    · rintro ⟨r, hr, rfl, rfl⟩
      exact ⟨⟨r, hr, rfl⟩, decide_eq_true rfl⟩
  · intro row hrow
    obtain ⟨hmem, hkey⟩ := List.mem_filter.mp hrow
    obtain ⟨r, hr, rfl⟩ := (hrows row).mp hmem
    rw [seriesRow, snd_eq_of_ownKey hown hr (of_decide_eq_true hkey)]
    exact ⟨rfl, rfl⟩

end Skaldberg.Prometheus
