import Skaldberg.Prometheus.Evaluate
import Skaldberg.Prometheus.Matrix
import Skaldberg.Prometheus.SeriesKey
import Skaldberg.Prometheus.TopKRefinement

/-!
# The shape of a matrix

A matrix is well formed (`Skaldberg.Prometheus.WellFormed`) when the timestamps of each of its
series increase and no two of its series have the same name and labels. An operator may strip the
names, so that what carries over from the operands to the result may be more than that: the labels
alone tell the series apart. And where a series has samples at one timestamp, its timestamps do not
decrease. What a matrix has of these is one property of it (`Told`), of whether samples are at
different timestamps and whether labels tell series.

The other thing to know of a matrix is where its labels come from. Every label map that an
evaluator makes is a part of the labels of a series with samples, under keys that are the same for
the whole matrix (`OfSeries`): those of a grouping, all but `le`, or all. The program collects
points under a text of the name and the labels, and where the parts of labels that differ are spelt
differently (`SpeltApart`), this is to collect them under the labels
(`PartOf.seriesKey_eq_iff`).

Here both are followed through what the program does to matrices.
-/

namespace Skaldberg.Prometheus

variable {F : Type}

/-- A matrix without two points of a series at one timestamp, nor two series of one name and one
label map. -/
structure WellFormed (l : List (RangePoints F)) : Prop where
  /-- The timestamps of a series increase. -/
  byTime : ∀ s ∈ l, (s.points.map Prod.fst).Pairwise (· < ·)
  /-- A series is told by its name and its labels. -/
  distinct : (l.map fun s => (s.metricName, s.labels)).Nodup

/-- Timestamps in their order, and different ones if samples are at different timestamps. -/
def Follows (once : Prop) (a b : ℤ) : Prop := a ≤ b ∧ (once → a ≠ b)

theorem follows_of_lt {once : Prop} {a b : ℤ} (h : a < b) : Follows once a b :=
  ⟨h.le, fun _ => h.ne⟩

theorem Follows.lt {once : Prop} {a b : ℤ} (h : Follows once a b) (honce : once) : a < b :=
  lt_of_le_of_ne h.1 (h.2 honce)

/-- A matrix whose series are told apart, by their labels alone if labels tell series. -/
structure Told (once labelled : Prop) (l : List (RangePoints F)) : Prop where
  /-- The timestamps of a series do not decrease, and increase if samples are at different ones. -/
  byTime : ∀ s ∈ l, (s.points.map Prod.fst).Pairwise (Follows once)
  /-- A series is told by its name and its labels. -/
  distinct : (l.map fun s => (s.metricName, s.labels)).Nodup
  /-- It is told by its labels if series are. -/
  byLabels : labelled → (l.map RangePoints.labels).Nodup

instance (l : List (RangePoints F)) : Decidable (WellFormed l) :=
  decidable_of_iff ((∀ s ∈ l, (s.points.map Prod.fst).Pairwise (· < ·)) ∧
    (l.map fun s => (s.metricName, s.labels)).Nodup)
    ⟨fun h => ⟨h.1, h.2⟩, fun h => ⟨h.byTime, h.distinct⟩⟩

/-- What an operator makes of a series: it keeps the labels and some of the timestamps, and does
something to the name. -/
structure SeriesOf (name : String → String) (s s' : RangePoints F) : Prop where
  /-- The labels are those of the series. -/
  labels : s'.labels = s.labels
  /-- The name comes from that of the series. -/
  metricName : s'.metricName = name s.metricName
  /-- The timestamps are some of those of the series. -/
  times : (s'.points.map Prod.fst).Sublist (s.points.map Prod.fst)

/-- A matrix made of some of the series of another one. -/
def MadeOf (name : String → String) (l l' : List (RangePoints F)) : Prop :=
  ∃ f : RangePoints F → Option (RangePoints F),
    l'.Sublist (l.filterMap f) ∧ ∀ s s', f s = some s' → SeriesOf name s s'

namespace Told

variable {l l' : List (RangePoints F)} {once labelled : Prop}

theorem wellFormed (h : Told once labelled l) (honce : once) : WellFormed l where
  byTime s hs := (h.byTime s hs).imp fun hab => hab.lt honce
  distinct := h.distinct

/-- Labels that tell the series tell them with the names. -/
theorem of_byLabels (htime : ∀ s ∈ l, (s.points.map Prod.fst).Pairwise (Follows once))
    (hlabels : (l.map RangePoints.labels).Nodup) : Told once labelled l where
  byTime := htime
  distinct := by
    refine List.Nodup.of_map Prod.snd ?_
    rw [List.map_map]
    exact hlabels
  byLabels _ := hlabels

theorem nil : Told once labelled ([] : List (RangePoints F)) :=
  of_byLabels (fun _ hs => by cases hs) List.nodup_nil

theorem sublist (h : Told once labelled l) (hl : l'.Sublist l) : Told once labelled l' where
  byTime s hs := h.byTime s (hl.subset hs)
  distinct := h.distinct.sublist (hl.map _)
  byLabels hlabelled := (h.byLabels hlabelled).sublist (hl.map _)

theorem imp {labelled' : Prop} (h : Told once labelled l) (himp : labelled' → labelled) :
    Told once labelled' l where
  byTime := h.byTime
  distinct := h.distinct
  byLabels hlabelled := h.byLabels (himp hlabelled)

/-- **What an operator makes of a matrix** is told as that is, if the names stay or labels tell
series. -/
theorem madeOf {name : String → String} (h : Told once labelled l) (hl : MadeOf name l l')
    (hname : (∀ n, name n = n) ∨ labelled) : Told once labelled l' := by
  obtain ⟨f, hsub, hf⟩ := hl
  refine sublist ?_ hsub
  have htime : ∀ s' ∈ l.filterMap f, (s'.points.map Prod.fst).Pairwise (Follows once) := by
    intro s' hs'
    obtain ⟨s, hs, hfs⟩ := List.mem_filterMap.mp hs'
    exact (h.byTime s hs).sublist (hf s s' hfs).times
  have hlabels : labelled → ((l.filterMap f).map RangePoints.labels).Nodup := by
    intro hlabelled
    have hlabels := h.byLabels hlabelled
    rw [List.Nodup, List.pairwise_map] at hlabels ⊢
    rw [List.pairwise_filterMap]
    refine hlabels.imp fun {a b} hab a' ha b' hb => ?_
    rw [(hf a a' ha).labels, (hf b b' hb).labels]
    exact hab
  rcases hname with hname | hlabelled
  · refine ⟨htime, ?_, hlabels⟩
    have hdistinct := h.distinct
    rw [List.Nodup, List.pairwise_map] at hdistinct ⊢
    rw [List.pairwise_filterMap]
    refine hdistinct.imp fun {a b} hab a' ha b' hb => ?_
    rw [(hf a a' ha).labels, (hf b b' hb).labels, (hf a a' ha).metricName,
      (hf b b' hb).metricName, hname, hname]
    exact hab
  · exact of_byLabels htime (hlabels hlabelled)

end Told

/-- A matrix of groups is told by its labels. -/
theorem Grouped.told {l : List (RangePoints F)} {once labelled : Prop} (h : Grouped l) :
    Told once labelled l :=
  .of_byLabels (fun s hs => (h.byTime s hs).imp follows_of_lt) (h.byLabels.imp ne_of_lt)

/-! ### Where labels come from -/

/-- The labels under some of the keys. -/
def keepLabels (p : String → Bool) (labels : Labels) : Labels := labels.filter fun k _ => p k

theorem keepLabels_true (labels : Labels) : keepLabels (fun _ => true) labels = labels :=
  SortedMap.ext_entries (List.filter_eq_self.mpr fun _ _ => rfl)

theorem keepLabels_keepLabels (p q : String → Bool) (labels : Labels) :
    keepLabels q (keepLabels p labels) = keepLabels (fun k => p k && q k) labels := by
  refine SortedMap.ext_entries ?_
  change (labels.entries.filter fun e => p e.1).filter (fun e => q e.1) = _
  rw [List.filter_filter]
  exact List.filter_congr fun e _ => Bool.and_comm _ _

/-- **A grouping keeps the labels under some of the keys.** -/
theorem exists_retainedLabels_eq (modifier : Option LabelModifier) :
    ∃ p, ∀ labels, retainedLabels labels modifier = keepLabels p labels := by
  rcases modifier with _ | ⟨ls | ls⟩
  · refine ⟨fun _ => false, fun labels => SortedMap.ext_entries ?_⟩
    exact (List.filter_eq_nil_iff.mpr fun _ _ h => by cases h).symm
  · exact ⟨fun k => ls.contains k, fun _ => rfl⟩
  · exact ⟨fun k => !ls.contains k, fun _ => rfl⟩

/-- The series with a sample that a window can hold. -/
def sampledSeries (t : Tables F) : List Skaldberg.SeriesRow :=
  t.series.filter fun s => t.samples.any fun x =>
    x.seriesId == s.seriesId && decide (InRangeMicros x.timestamp)

theorem mem_sampledSeries {t : Tables F} {s : Skaldberg.SeriesRow} :
    s ∈ sampledSeries t ↔ s ∈ t.series ∧
      ∃ x ∈ t.samples, x.seriesId = s.seriesId ∧ InRangeMicros x.timestamp := by
  simp [sampledSeries]

/-- A name and labels are those of a sampled series, up to the keys left out and a name
stripped. -/
def PartOf (t : Tables F) (p : String → Bool) (name : String) (labels : Labels) : Prop :=
  ∃ s ∈ sampledSeries t, labels = keepLabels p s.labels ∧ (name = s.metricName ∨ name = "")

theorem partOf_series {t : Tables F} {s : Skaldberg.SeriesRow} (hs : s ∈ sampledSeries t) :
    PartOf t (fun _ => true) s.metricName s.labels :=
  ⟨s, hs, (keepLabels_true _).symm, Or.inl rfl⟩

theorem PartOf.unnamed {t : Tables F} {p : String → Bool} {name : String} {labels : Labels}
    (h : PartOf t p name labels) : PartOf t p "" labels := by
  obtain ⟨s, hs, hlabels, -⟩ := h
  exact ⟨s, hs, hlabels, Or.inr rfl⟩

theorem PartOf.keep {t : Tables F} {p : String → Bool} {name : String} {labels : Labels}
    (h : PartOf t p name labels) (q : String → Bool) :
    PartOf t (fun k => p k && q k) "" (keepLabels q labels) := by
  obtain ⟨s, hs, rfl, -⟩ := h
  exact ⟨s, hs, keepLabels_keepLabels p q s.labels, Or.inr rfl⟩

/-- The series of a matrix are parts of sampled series, under keys of the matrix. -/
def OfSeries (t : Tables F) (l : List (RangePoints F)) : Prop :=
  ∃ p, ∀ s ∈ l, PartOf t p s.metricName s.labels

theorem OfSeries.nil (t : Tables F) : OfSeries t [] := ⟨fun _ => true, fun _ hs => by cases hs⟩

theorem OfSeries.madeOf {t : Tables F} {name : String → String} {l l' : List (RangePoints F)}
    (h : OfSeries t l) (hl : MadeOf name l l') (hname : ∀ n, name n = n ∨ name n = "") :
    OfSeries t l' := by
  obtain ⟨p, hp⟩ := h
  obtain ⟨f, hsub, hf⟩ := hl
  refine ⟨p, fun s' hs' => ?_⟩
  obtain ⟨s, hs, hfs⟩ := List.mem_filterMap.mp (hsub.subset hs')
  have hof := hf s s' hfs
  rw [hof.labels, hof.metricName]
  rcases hname s.metricName with hname | hname
  · rw [hname]
    exact hp s hs
  · rw [hname]
    exact (hp s hs).unnamed

/-! ### Keys as labels -/

/-- Parts of the labels of two sampled series, under the same keys, that differ are spelt
differently. -/
def SpeltApart (t : Tables F) : Prop :=
  ∀ p, ∀ s ∈ sampledSeries t, ∀ s' ∈ sampledSeries t,
    spelling (keepLabels p s.labels) = spelling (keepLabels p s'.labels) →
      keepLabels p s.labels = keepLabels p s'.labels

section Keys

variable {xxh3 : List UInt8 → UInt64} {t : Tables F} (h : ValidatedTables xxh3 t)
include h

theorem registered_of_mem_sampledSeries {s : Skaldberg.SeriesRow} (hs : s ∈ sampledSeries t) :
    Registered xxh3 s := h.registered s (mem_sampledSeries.mp hs).1

/-- **Without a comma in a label value, labels are spelt apart.** -/
theorem speltApart_of_commaFree (hfree : ∀ s ∈ sampledSeries t, CommaFree s.labels) :
    SpeltApart t := by
  intro p s hs s' hs' hspell
  exact spelling_injective
    (fun e he => (registered_of_mem_sampledSeries h hs).labelNames e (List.mem_of_mem_filter he))
    (fun e he => (registered_of_mem_sampledSeries h hs').labelNames e (List.mem_of_mem_filter he))
    (fun e he => hfree s hs e (List.mem_of_mem_filter he))
    (fun e he => hfree s' hs' e (List.mem_of_mem_filter he)) hspell

theorem PartOf.brace_not_mem {p : String → Bool} {name : String} {labels : Labels}
    (hpart : PartOf t p name labels) : '\x7b' ∉ name.toList := by
  obtain ⟨s, hs, -, rfl | rfl⟩ := hpart
  · exact brace_not_mem_of_isValidName (registered_of_mem_sampledSeries h hs).metricName
  · simp

/-- **Under the keys of a matrix, the key of a series is its name and its labels.** -/
theorem PartOf.seriesKey_eq_iff (hapart : SpeltApart t) {p : String → Bool} {name name' : String}
    {labels labels' : Labels} (hpart : PartOf t p name labels)
    (hpart' : PartOf t p name' labels') :
    seriesKey name labels = seriesKey name' labels' ↔ name = name' ∧ labels = labels' := by
  rw [seriesKey_eq_iff_of_brace (hpart.brace_not_mem h) (hpart'.brace_not_mem h)]
  refine and_congr_right fun _ => ⟨fun hspell => ?_, congrArg spelling⟩
  obtain ⟨s, hs, rfl, -⟩ := hpart
  obtain ⟨s', hs', rfl, -⟩ := hpart'
  exact hapart p s hs s' hs' hspell

end Keys

/-! ### Points collected by series -/

section Collect

variable {rows : List (SeriesRow F)}

theorem map_fst_points_collected (rows : List (SeriesRow F)) :
    (collected rows).points.map Prod.fst = rows.map SeriesRow.tsUs := by
  cases rows with
  | nil => rfl
  | cons r rows =>
    rw [collected, List.map_map]
    rfl

/-- A series that rows are collected into is that of one of them, and has a point. -/
theorem exists_row_of_mem_groupRowsBySeries {s : RangePoints F}
    (hs : s ∈ (groupRowsBySeries rows).values) :
    ∃ r ∈ rows, s.metricName = r.metricName ∧ s.labels = r.labels ∧ s.points ≠ [] := by
  obtain ⟨a, ha, rfl⟩ := mem_groupRowsBySeries.mp hs
  obtain ⟨r, hr, hkey, hcollected⟩ := exists_row_of_collected ha
  rw [hcollected]
  refine ⟨r, hr, rfl, rfl, fun hnil => ?_⟩
  exact List.ne_nil_of_mem (List.mem_filter.mpr ⟨hr, decide_eq_true rfl⟩)
    (List.map_eq_nil_iff.mp hnil)

/-- **An entry is told by its key**, and by whatever tells the keys of the rows apart. -/
theorem nodup_map_groupRowsBySeries {β : Type} {f : RangePoints F → β} {g : SeriesRow F → β}
    (hfg : ∀ r rest, f (collected (r :: rest)) = g r)
    (hkeys : ∀ a ∈ rows, ∀ b ∈ rows, g a = g b →
      seriesKey a.metricName a.labels = seriesKey b.metricName b.labels) :
    ((groupRowsBySeries rows).values.map f).Nodup := by
  let key (r : SeriesRow F) : String := seriesKey r.metricName r.labels
  have hperm := ((entries_groupRowsBySeries_perm rows).map Prod.snd).map f
  rw [SortedMap.values, hperm.nodup_iff, List.map_map, List.map_map]
  have hnodup := Sql.nodup_groupBy_keys key rows
  refine List.Nodup.map_on (fun e he e' he' heq => ?_) hnodup.of_map
  -- groups that are not told apart have rows with the same key
  have hfirst : ∀ e ∈ Sql.groupBy key rows, ∃ r ∈ rows, key r = e.1 ∧
      f (collected e.2) = g r := by
    intro e he
    obtain ⟨first, rest, hcons⟩ := List.exists_cons_of_ne_nil (Sql.ne_nil_of_mem_groupBy he)
    have hmem : first ∈ e.2 := hcons ▸ List.mem_cons_self ..
    obtain ⟨hr, hkey⟩ := Sql.mem_of_mem_groupBy he hmem
    exact ⟨first, hr, hkey, by rw [hcons, hfg]⟩
  obtain ⟨r, hr, hkey, hrf⟩ := hfirst e he
  obtain ⟨r', hr', hkey', hrf'⟩ := hfirst e' he'
  refine List.inj_on_of_nodup_map hnodup he he' ?_
  rw [← hkey, ← hkey']
  exact hkeys r hr r' hr' (hrf.symm.trans (Eq.trans heq hrf'))

/-- **Rows collected under their names and labels**, the rows under one name and label map being in
the order of their timestamps. -/
theorem told_groupRowsBySeries {once labelled : Prop}
    (hkeys : ∀ a ∈ rows, ∀ b ∈ rows, seriesKey a.metricName a.labels =
      seriesKey b.metricName b.labels ↔ a.metricName = b.metricName ∧ a.labels = b.labels)
    (hlabels : labelled → ∀ a ∈ rows, ∀ b ∈ rows, a.labels = b.labels →
      a.metricName = b.metricName)
    (htime : rows.Pairwise fun a b => a.metricName = b.metricName → a.labels = b.labels →
      Follows once a.tsUs b.tsUs) : Told once labelled (groupRowsBySeries rows).values where
  byTime s hs := by
    obtain ⟨r, hr, rfl⟩ := mem_groupRowsBySeries.mp hs
    rw [map_fst_points_collected, List.pairwise_map]
    refine (htime.filter _).imp_of_mem fun {a b} ha hb hab => ?_
    obtain ⟨ha, hka⟩ := List.mem_filter.mp ha
    obtain ⟨hb, hkb⟩ := List.mem_filter.mp hb
    obtain ⟨hname, hsame⟩ :=
      (hkeys a ha b hb).mp ((of_decide_eq_true hka).trans (of_decide_eq_true hkb).symm)
    exact hab hname hsame
  distinct := by
    refine nodup_map_groupRowsBySeries (g := fun r => (r.metricName, r.labels)) (fun _ _ => rfl)
      fun a ha b hb heq => ?_
    obtain ⟨hname, hsame⟩ := Prod.ext_iff.mp heq
    exact (hkeys a ha b hb).mpr ⟨hname, hsame⟩
  byLabels hlabelled := nodup_map_groupRowsBySeries (g := SeriesRow.labels) (fun _ _ => rfl)
    fun a ha b hb hsame => (hkeys a ha b hb).mpr ⟨hlabels hlabelled a ha b hb hsame, hsame⟩

theorem OfSeries.groupRowsBySeries {t : Tables F} (p : String → Bool)
    (h : ∀ r ∈ rows, PartOf t p r.metricName r.labels) :
    OfSeries t (Prometheus.groupRowsBySeries rows).values := by
  refine ⟨p, fun s hs => ?_⟩
  obtain ⟨r, hr, hname, hlabels, -⟩ := exists_row_of_mem_groupRowsBySeries hs
  rw [hname, hlabels]
  exact h r hr

end Collect

/-! ### In the program -/

section Program

variable [F64 F] {t : Tables F} {l lhs rhs : List (RangePoints F)} {op : BinOp}
  {returnBool : Bool}

theorem resultName_eq (op : BinOp) (returnBool : Bool) (name : String) :
    resultName op returnBool name = name ∨ resultName op returnBool name = "" := by
  rw [resultName]
  split_ifs
  · exact Or.inl rfl
  · exact Or.inr rfl

omit [F64 F] in
/-- Points that are given other values or dropped keep their timestamps. -/
theorem map_fst_filterMap_sublist {α : Type} (f : ℤ × α → Option F) (points : List (ℤ × α)) :
    ((points.filterMap fun p => (f p).map fun v => (p.1, v)).map Prod.fst).Sublist
      (points.map Prod.fst) := by
  rw [List.map_filterMap]
  have hmap : (fun p => ((f p).map fun v => (p.1, v)).map Prod.fst) =
      fun p : ℤ × α => (f p).map fun _ => p.1 := by
    funext p
    cases f p <;> rfl
  rw [hmap]
  clear hmap
  induction points with
  | nil => exact List.Sublist.refl _
  | cons p points ih =>
    rw [List.map_cons]
    cases hf : f p with
    | none =>
      rw [List.filterMap_cons_none (by rw [hf]; rfl)]
      exact ih.cons p.1
    | some v =>
      rw [List.filterMap_cons_some (by rw [hf]; rfl)]
      exact ih.cons_cons p.1

/-- A filter keeps the names. -/
theorem resultName_of_isFilter {op : BinOp} {returnBool : Bool}
    (h : op.isFilter returnBool = true) (name : String) : resultName op returnBool name = name :=
  if_pos h

theorem madeOf_applyScalarVectorRange (scalar : F) (l : List (RangePoints F)) (op : BinOp)
    (returnBool scalarOnLeft : Bool) : MadeOf (resultName op returnBool) l
      (applyScalarVectorRange scalar l op returnBool scalarOnLeft) := by
  rw [applyScalarVectorRange, ← List.filterMap_eq_map]
  refine ⟨_, List.filter_sublist, fun s s' hs => ?_⟩
  cases hs
  exact ⟨rfl, rfl, map_fst_filterMap_sublist _ s.points⟩

theorem madeOf_applyVectorVectorRange (lhs rhs : List (RangePoints F)) (op : BinOp)
    (returnBool : Bool) :
    MadeOf (resultName op returnBool) lhs (applyVectorVectorRange lhs rhs op returnBool) := by
  refine ⟨_, List.filter_sublist, fun s s' hs => ?_⟩
  obtain ⟨pts, -, rfl⟩ := Option.map_eq_some_iff.mp hs
  refine ⟨rfl, rfl, ?_⟩
  have hbind : ∀ p : ℤ × F, ((pts.get? p.1).bind fun rv =>
      (applyOp op returnBool p.2 rv p.2).map fun v => (p.1, v)) =
        ((pts.get? p.1).bind fun rv => applyOp op returnBool p.2 rv p.2).map fun v => (p.1, v) :=
    fun p => (Option.map_bind ..).symm
  simp only [hbind]
  exact map_fst_filterMap_sublist _ s.points

/-- **An operator keeps the series of its vector**, of the left one if both are vectors. -/
theorem madeOf_combineRange (op : BinOp) (returnBool : Bool) :
    ∀ left right : Side F (List (RangePoints F)), combineRange op returnBool left right = [] ∨
      (∃ l, (left = .vector l ∨ (∃ v, left = .scalar v) ∧ right = .vector l) ∧
        MadeOf (resultName op returnBool) l (combineRange op returnBool left right))
  | .scalar s, .vector series =>
    Or.inr ⟨series, Or.inr ⟨⟨s, rfl⟩, rfl⟩, madeOf_applyScalarVectorRange s series op _ _⟩
  | .vector series, .scalar s =>
    Or.inr ⟨series, Or.inl rfl, madeOf_applyScalarVectorRange s series op _ _⟩
  | .vector l, .vector r => Or.inr ⟨l, Or.inl rfl, madeOf_applyVectorVectorRange l r op _⟩
  | .scalar _, .scalar _ => Or.inl rfl

theorem OfSeries.aggregateRangePoints {t : Tables F} {l : List (RangePoints F)}
    (h : OfSeries t l) (op : AggOp) (modifier : Option LabelModifier) :
    OfSeries t (Prometheus.aggregateRangePoints l op modifier) := by
  obtain ⟨p, hp⟩ := h
  obtain ⟨q, hq⟩ := exists_retainedLabels_eq modifier
  refine ⟨fun k => p k && q k, fun s hs => ?_⟩
  obtain ⟨g, hg, rfl⟩ := List.mem_map.mp (List.mem_of_mem_filter hs)
  obtain ⟨⟨s, hs, hkey⟩, -⟩ := SortedMap.mem_entries_foldl_push.mp hg
  change PartOf t _ "" g.1
  rw [← hkey, hq]
  exact (hp s hs).keep q

theorem told_histogramQuantileRange {once labelled : Prop} (l : List (RangePoints F))
    (quantile : F) : Told once labelled (histogramQuantileRange l quantile) := by
  refine Told.sublist (.of_byLabels (fun s hs => ?_) ?_) List.filter_sublist
  · obtain ⟨g, -, rfl⟩ := List.mem_map.mp hs
    exact (g.2.keys_pairwise.sublist (map_fst_filterMap_sublist
      (fun e => quantileFromBuckets (sortByValue false Prod.fst e.2) quantile)
        g.2.entries)).imp follows_of_lt
  · rw [List.map_map]
    exact SortedMap.keys_nodup _

omit [F64 F] in
theorem erase_eq_keepLabels (labels : Labels) (key : String) :
    labels.erase key = keepLabels (fun k => decide (k ≠ key)) labels := rfl

theorem OfSeries.histogramQuantileRange {t : Tables F} {l : List (RangePoints F)}
    (h : OfSeries t l) (quantile : F) :
    OfSeries t (Prometheus.histogramQuantileRange l quantile) := by
  obtain ⟨p, hp⟩ := h
  refine ⟨fun k => p k && decide (k ≠ "le"), fun s hs => ?_⟩
  obtain ⟨g, hg, rfl⟩ := List.mem_map.mp (List.mem_of_mem_filter hs)
  -- a group is the one of some series
  have hgroup : ∀ step : SortedMap Labels (SortedMap ℤ (List (F × F))) → RangePoints F →
      SortedMap Labels (SortedMap ℤ (List (F × F))),
      (∀ m s, ∀ k ∈ (step m s).keys, k ∈ m.keys ∨ k = s.labels.erase "le") →
        ∀ l m, ∀ k ∈ (List.foldl step m l).keys, k ∈ m.keys ∨ ∃ s ∈ l, k = s.labels.erase "le" := by
    intro step hstep l
    induction l with
    | nil => exact fun m k hk => Or.inl hk
    | cons s l ih =>
      intro m k hk
      rcases ih _ k hk with hk | ⟨s', hs', hk⟩
      · rcases hstep m s k hk with hk | hk
        · exact Or.inl hk
        · exact Or.inr ⟨s, List.mem_cons_self .., hk⟩
      · exact Or.inr ⟨s', List.mem_cons_of_mem _ hs', hk⟩
  have hgroup := hgroup _ ?_ l .empty g.1 (List.mem_map_of_mem hg)
  rotate_left
  · intro m s k hk
    cases hsplit : splitLe (F := F) s.labels with
    | none =>
      rw [hsplit] at hk
      exact Or.inl hk
    | some b =>
      rw [hsplit] at hk
      rcases SortedMap.mem_keys_upsert.mp hk with rfl | hk
      · obtain ⟨le, -, rfl⟩ := Option.map_eq_some_iff.mp hsplit
        exact Or.inr rfl
      · exact Or.inl hk
  rcases hgroup with hk | ⟨s, hs, hk⟩
  · cases hk
  · change PartOf t _ "" g.1
    rw [hk, erase_eq_keepLabels]
    exact (hp s hs).keep _

/-! ### Cuts in the program -/

section Cut

variable {n : ℕ} {top : Bool} {members : List (RangePoints F)}

theorem mem_topkOfGroup {r : SeriesRow F} (hr : r ∈ topkOfGroup n top members) :
    ∃ s ∈ members, r.metricName = s.metricName ∧ r.labels = s.labels := by
  obtain ⟨ts, -, hr⟩ := List.mem_flatMap.mp hr
  obtain ⟨e, he, rfl⟩ := List.mem_map.mp hr
  have he : e ∈ valuesAt ts members :=
    (List.perm_insertionSort _ _).mem_iff.mp (List.mem_of_mem_take he)
  obtain ⟨m, hm, he⟩ := List.mem_filterMap.mp he
  obtain ⟨s, hs, rfl⟩ := List.mem_map.mp hm
  obtain ⟨v, -, rfl⟩ := Option.map_eq_some_iff.mp he
  exact ⟨s, hs, rfl, rfl⟩

/-- **A cut of a group goes through its timestamps in order**, and takes a series once at each. -/
theorem pairwise_topkOfGroup (h : (members.map fun s => (s.metricName, s.labels)).Nodup) :
    (topkOfGroup n top members).Pairwise fun a b =>
      a.metricName = b.metricName → a.labels = b.labels → a.tsUs < b.tsUs := by
  let times : SortedMap ℤ Unit :=
    SortedMap.ofList (members.flatMap fun m => m.points.map fun p => (p.1, ()))
  let cut (ts : ℤ) : List (SeriesRow F) :=
    ((sortByValue top Prod.snd (valuesAt ts members)).take n).map (valueRow ts)
  have htime : ∀ ts, ∀ r ∈ cut ts, r.tsUs = ts := by
    intro ts r hr
    obtain ⟨e, -, rfl⟩ := List.mem_map.mp hr
    rfl
  change (times.keys.flatMap cut).Pairwise _
  rw [List.pairwise_flatMap]
  refine ⟨fun ts _ => ?_, times.keys_pairwise.imp fun {ts ts'} hlt a ha b hb _ _ => ?_⟩
  · -- the members at one timestamp have different names or labels
    have hvalues : ((valuesAt ts members).map fun e =>
        (e.1.metricName, e.1.labels)).Nodup := by
      rw [List.Nodup, List.pairwise_map] at h ⊢
      rw [valuesAt, List.pairwise_filterMap, List.pairwise_map]
      refine h.imp fun {s s'} hne e he e' he' => ?_
      obtain ⟨v, -, rfl⟩ := Option.map_eq_some_iff.mp he
      obtain ⟨v', -, rfl⟩ := Option.map_eq_some_iff.mp he'
      exact hne
    have hsort : ((sortByValue top Prod.snd (valuesAt ts members)).map fun e =>
        (e.1.metricName, e.1.labels)).Nodup :=
      ((List.perm_insertionSort _ _).map _).nodup_iff.mpr hvalues
    have hcut : ((cut ts).map fun r => (r.metricName, r.labels)).Nodup := by
      rw [List.map_map]
      exact hsort.sublist ((List.take_sublist _ _).map _)
    rw [List.Nodup, List.pairwise_map] at hcut
    exact hcut.imp fun hne hname hlabels => absurd (Prod.ext hname hlabels) hne
  · rwa [htime ts a ha, htime ts' b hb]

variable {t : Tables F} {l : List (RangePoints F)} {modifier : Option LabelModifier}

/-- The rows of a cut, before they are collected. -/
def topkRows (l : List (RangePoints F)) (n : ℕ) (top : Bool) (modifier : Option LabelModifier) :
    List (SeriesRow F) :=
  (l.foldl (fun m s => m.push (retainedLabels s.labels modifier) s)
    (.empty : SortedMap Labels (List (RangePoints F)))).values.flatMap fun members =>
      topkOfGroup n top members

theorem topkRangePoints_of_topkRows (l : List (RangePoints F)) (n : ℕ) (top : Bool)
    (modifier : Option LabelModifier) :
    topkRangePoints l n top modifier =
      if n = 0 then [] else (groupRowsBySeries (topkRows l n top modifier)).values := rfl

omit [F64 F] in
/-- The members of a group are series with its labels. -/
theorem mem_members {g : Labels × List (RangePoints F)}
    (hg : g ∈ (l.foldl (fun m s => m.push (retainedLabels s.labels modifier) s)
      (.empty : SortedMap Labels (List (RangePoints F)))).entries) {s : RangePoints F}
    (hs : s ∈ g.2) : s ∈ l ∧ retainedLabels s.labels modifier = g.1 := by
  obtain ⟨-, hg2⟩ := SortedMap.mem_entries_foldl_push.mp hg
  rw [hg2, List.mem_map] at hs
  obtain ⟨s, hs, rfl⟩ := hs
  obtain ⟨hs, hkey⟩ := List.mem_filter.mp hs
  exact ⟨hs, of_decide_eq_true hkey⟩

theorem mem_topkRows {r : SeriesRow F} (hr : r ∈ topkRows l n top modifier) :
    ∃ s ∈ l, r.metricName = s.metricName ∧ r.labels = s.labels := by
  rw [topkRows, SortedMap.values, List.flatMap_map] at hr
  obtain ⟨g, hg, hr⟩ := List.mem_flatMap.mp hr
  obtain ⟨s, hs, hname, hlabels⟩ := mem_topkOfGroup hr
  exact ⟨s, (mem_members hg hs).1, hname, hlabels⟩

theorem pairwise_topkRows (h : (l.map fun s => (s.metricName, s.labels)).Nodup) :
    (topkRows l n top modifier).Pairwise fun a b =>
      a.metricName = b.metricName → a.labels = b.labels → a.tsUs < b.tsUs := by
  rw [topkRows, SortedMap.values, List.flatMap_map, List.pairwise_flatMap]
  refine ⟨fun g hg => pairwise_topkOfGroup ?_, ?_⟩
  · obtain ⟨-, hg2⟩ := SortedMap.mem_entries_foldl_push.mp hg
    rw [hg2, List.map_map]
    exact h.sublist (List.filter_sublist.map _)
  · have hkeys := (List.pairwise_map.mp (SortedMap.keys_pairwise
      (l.foldl (fun m s => m.push (retainedLabels s.labels modifier) s)
        (.empty : SortedMap Labels (List (RangePoints F))))))
    refine hkeys.imp_of_mem fun {g g'} hg hg' hlt a ha b hb _ hlabels => absurd ?_ hlt.ne
    -- a series is in the group of its labels alone
    obtain ⟨s, hs, -, hsl⟩ := mem_topkOfGroup ha
    obtain ⟨s', hs', -, hsl'⟩ := mem_topkOfGroup hb
    rw [← (mem_members hg hs).2, ← (mem_members hg' hs').2, ← hsl, ← hsl', hlabels]

theorem OfSeries.topkRangePoints (h : OfSeries t l) (n : ℕ) (top : Bool)
    (modifier : Option LabelModifier) :
    OfSeries t (Prometheus.topkRangePoints l n top modifier) := by
  rw [topkRangePoints_of_topkRows]
  split_ifs
  · exact .nil t
  · obtain ⟨p, hp⟩ := h
    refine OfSeries.groupRowsBySeries p fun r hr => ?_
    obtain ⟨s, hs, hname, hlabels⟩ := mem_topkRows hr
    rw [hname, hlabels]
    exact hp s hs

theorem Told.topkRangePoints {xxh3 : List UInt8 → UInt64} {once labelled : Prop}
    (hvalid : ValidatedTables xxh3 t) (hapart : SpeltApart t) (hof : OfSeries t l)
    (h : Told once labelled l) (n : ℕ) (top : Bool) (modifier : Option LabelModifier) :
    Told once labelled (Prometheus.topkRangePoints l n top modifier) := by
  rw [topkRangePoints_of_topkRows]
  split_ifs
  · exact .nil
  · obtain ⟨p, hp⟩ := hof
    refine told_groupRowsBySeries (fun a ha b hb => ?_) (fun hlabelled a ha b hb hlabels => ?_)
      ((pairwise_topkRows h.distinct).imp fun hab hname hlabels =>
        follows_of_lt (hab hname hlabels))
    · obtain ⟨s, hs, hname, hlabels⟩ := mem_topkRows ha
      obtain ⟨s', hs', hname', hlabels'⟩ := mem_topkRows hb
      rw [hname, hlabels, hname', hlabels']
      exact (hp s hs).seriesKey_eq_iff hvalid hapart (hp s' hs')
    · obtain ⟨s, hs, hname, hl⟩ := mem_topkRows ha
      obtain ⟨s', hs', hname', hl'⟩ := mem_topkRows hb
      rw [hname, hname',
        List.inj_on_of_nodup_map (h.byLabels hlabelled) hs hs' (by rw [← hl, ← hl', hlabels])]

end Cut

end Program

end Skaldberg.Prometheus
