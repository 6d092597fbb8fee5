import Skaldberg.Prometheus.GroupMatrices

/-!
# The matrices of operators in the query

An operator that the query computes, with a scalar or between two selectors, answers with the rows
of its left vector that it makes something of (`RowsOf`). With a scalar these are the samples of the
window. Between two selectors a row comes once for each sample of the right side that is at its
timestamp and whose series spells the same text; where the right selector asks for nothing twice
and labels are spelt apart, there is one at most (`pointsApart_matchSides`).
-/

namespace Skaldberg.Prometheus

variable {F τ : Type} [F64 F] {t : Tables F} {sel lsel rsel : VectorSelector} {op : BinOp}
  {returnBool : Bool} {E : Sql.Engine} {startUs endUs : ℤ}

/-- **An operator keeps the timestamp and the labels of its row.** -/
theorem binaryRow_eq_some {a b : F} {r r' : Point τ F × Skaldberg.SeriesRow}
    (h : binaryRow op returnBool a b r = some r') :
    r'.1.at_ = r.1.at_ ∧ r'.2.labels = r.2.labels ∧
      r'.2.metricName = resultName op returnBool r.2.metricName := by
  rw [binaryRow] at h
  rw [resultName]
  split_ifs at h with hfilter
  · cases h
    exact ⟨rfl, rfl, (if_pos hfilter).symm⟩
  · cases h
    exact ⟨rfl, rfl, (if_neg hfilter).symm⟩

/-! ### A scalar and a selector -/

theorem scalarVectorRangeViaSql_eq (E : Sql.Engine) (t : Tables F) (scalar : F)
    (sel : VectorSelector) (op : BinOp) (returnBool scalarOnLeft : Bool) (startUs endUs : ℤ) :
    scalarVectorRangeViaSql E t scalar sel op returnBool scalarOnLeft startUs endUs =
      decodeSorted E sel.postFilter (fun _ => true) id
        (scalarRow op returnBool scalar scalarOnLeft)
        ((baseRows t sel startUs endUs).map basePoint) := rfl

/-- The samples of a window are the rows of an operator. -/
theorem rowsOf_scalarRow (scalar : F) (op : BinOp) (returnBool scalarOnLeft : Bool)
    (startUs endUs : ℤ) :
    RowsOf t (windowPoints t sel startUs endUs) ((baseRows t sel startUs endUs).map basePoint) id
      (scalarRow op returnBool scalar scalarOnLeft) (resultName op returnBool) where
  points := by
    rw [List.map_map]
    exact List.Subperm.refl _
  series r hr := by
    obtain ⟨x, hx, rfl⟩ := List.mem_map.mp hr
    exact (mem_baseRows.mp hx).1.2
  name_eq := resultName_eq op returnBool
  at_ _ _ h := (binaryRow_eq_some h).1
  labels _ _ h := (binaryRow_eq_some h).2.1
  metricName _ _ h := (binaryRow_eq_some h).2.2

/-! ### Two selectors -/

theorem vectorVectorRangeViaSql_eq (E : Sql.Engine) (t : Tables F) (lsel rsel : VectorSelector)
    (op : BinOp) (returnBool : Bool) (startUs endUs : ℤ) :
    vectorVectorRangeViaSql E t lsel rsel op returnBool startUs endUs =
      decodeSorted E (fun labels => lsel.postFilter labels && rsel.postFilter labels)
        (fun _ => true) (fun r => (r.1.1, r.2)) (matchedRow op returnBool)
        (joinSeries t (fun r => r.1.seriesId) (matchSides E t
          (((windowPoints t lsel startUs endUs).map Point.plusZero).map Point.seriesId).dedup
          ((windowPoints t lsel startUs endUs).map Point.plusZero)
          (((windowPoints t rsel startUs endUs).map Point.plusZero).map Point.seriesId).dedup
          ((windowPoints t rsel startUs endUs).map Point.plusZero))) := rfl

theorem PointsApart.plusZero {accept : Labels → Bool} {points : List (Point τ F)}
    (h : PointsApart t accept points) : PointsApart t accept (points.map Point.plusZero) := by
  rw [PointsApart, List.pairwise_map]
  exact h

theorem PointsSampled.plusZero {points : List (Point τ F)} (h : PointsSampled t sel points) :
    PointsSampled t sel (points.map Point.plusZero) := by
  intro x hx
  obtain ⟨y, hy, rfl⟩ := List.mem_map.mp hx
  exact h y hy

theorem LabelsTell.plusZero {accept : Labels → Bool} {points : List (Point τ F)}
    (h : LabelsTell t accept points) : LabelsTell t accept (points.map Point.plusZero) := by
  refine h.mono (fun x hx => ?_) fun _ => id
  obtain ⟨y, hy, rfl⟩ := List.mem_map.mp hx
  exact ⟨y, hy, rfl⟩

section Match

variable [DecidableEq τ] {lsids rsids : List ℤ} {lpoints rpoints : List (Point τ F)}

/-- A matched point is one of the left side. -/
theorem mem_of_mem_matchSides {x : Point τ F × F}
    (hx : x ∈ matchSides E t lsids lpoints rsids rpoints) : x.1 ∈ lpoints := by
  obtain ⟨z, hz, rfl⟩ := List.mem_map.mp hx
  obtain ⟨w, hw, hwz⟩ := List.mem_map.mp (Sql.mem_join.mp hz).1
  rw [← hwz]
  exact (Sql.mem_join.mp hw).1

theorem PointsSampled.matchSides (h : PointsSampled t lsel lpoints) :
    PointsSampled t lsel
      ((Prometheus.matchSides E t lsids lpoints rsids rpoints).map Prod.fst) := by
  intro x hx
  obtain ⟨y, hy, rfl⟩ := List.mem_map.mp hx
  exact h y.1 (mem_of_mem_matchSides hy)

theorem LabelsTell.matchSides {accept accept' : Labels → Bool} (h : LabelsTell t accept lpoints)
    (haccept : ∀ labels, accept' labels = true → accept labels = true) :
    LabelsTell t accept'
      ((Prometheus.matchSides E t lsids lpoints rsids rpoints).map Prod.fst) := by
  refine h.mono (fun x hx => ?_) haccept
  obtain ⟨y, hy, rfl⟩ := List.mem_map.mp hx
  exact ⟨y.1, mem_of_mem_matchSides hy, rfl⟩

omit [F64 F] [DecidableEq τ] in
/-- **Points with the same text are of series with the same labels**, where labels are spelt
apart. -/
theorem labels_eq_of_text (hapart : SpeltApart t)
    {s s' : Skaldberg.SeriesRow} (hs : s ∈ sampledSeries t) (hs' : s' ∈ sampledSeries t)
    {text : String} (h : groupText [] s = some text) (h' : groupText [] s' = some text) :
    s.labels = s'.labels := by
  rw [groupText] at h h'
  split_ifs at h h'
  have hlabels := hapart (fun _ => true) s hs s' hs'
    ((Option.some.inj h).trans (Option.some.inj h').symm)
  rwa [keepLabels_true, keepLabels_true] at hlabels

/-- **A left point is matched once**, where the right points are apart, and labels tell their
series. -/
theorem pointsApart_matchSides (hrow : OneRowPerSeries t) (hapart : SpeltApart t)
    (hlsids : lsids.Nodup) (hrsids : rsids.Nodup)
    (hl : PointsApart t lsel.postFilter lpoints) (hls : PointsSampled t lsel lpoints)
    (hr : PointsApart t rsel.postFilter rpoints) (hrs : PointsSampled t rsel rpoints)
    (htell : LabelsTell t rsel.postFilter rpoints) :
    PointsApart t (fun labels => lsel.postFilter labels && rsel.postFilter labels)
      ((Prometheus.matchSides E t lsids lpoints rsids rpoints).map Prod.fst) := by
  let L := joinGk E t [] lsids lpoints
  let R := joinGk E t [] rsids rpoints
  have hL : L.Pairwise fun l l' => (∃ s ∈ t.series, s.seriesId = l.1.seriesId ∧
      lsel.postFilter s.labels = true) → l.1.seriesId = l'.1.seriesId → l.1.at_ ≠ l'.1.at_ :=
    List.pairwise_map.mp (hl.sublist (joinGk_fst_sublist E t [] lsids lpoints))
  have hR : R.Pairwise fun r r' => (∃ s ∈ t.series, s.seriesId = r.1.seriesId ∧
      rsel.postFilter s.labels = true) → r.1.seriesId = r'.1.seriesId → r.1.at_ ≠ r'.1.at_ :=
    List.pairwise_map.mp (hr.sublist (joinGk_fst_sublist E t [] rsids rpoints))
  have hmem : ∀ {sids : List ℤ} {points : List (Point τ F)},
      ∀ x ∈ joinGk E t [] sids points, x.1 ∈ points := fun x hx =>
    (joinGk_fst_sublist E t [] _ _).subset (List.mem_map_of_mem hx)
  rw [PointsApart, Prometheus.matchSides, List.map_map, List.pairwise_map, Sql.join,
    List.pairwise_flatMap]
  constructor
  · -- two samples of the right side that match a point are of one series
    intro l hlmem
    rw [List.pairwise_map, List.pairwise_filter]
    refine hR.imp_of_mem fun {r r'} hrmem hrmem' hne hon hon' hacc _ => ?_
    obtain ⟨s, hs, hid, hacc⟩ := hacc
    rw [Bool.and_eq_true] at hacc
    obtain ⟨htext, hat⟩ := of_decide_eq_true hon
    obtain ⟨htext', hat'⟩ := of_decide_eq_true hon'
    obtain ⟨x, hx, hxid⟩ := exists_series_of_mem_joinGk hrmem
    obtain ⟨x', hx', hxid'⟩ := exists_series_of_mem_joinGk hrmem'
    have hstext := groupText_of_mem_joinGk hrow hlsids hlmem hs hid
    have hxtext := groupText_of_mem_joinGk hrow hrsids hrmem hx hxid
    have hxtext' := groupText_of_mem_joinGk hrow hrsids hrmem' hx' hxid'
    have hsampled := hls.sampled hrow (hmem l hlmem) hs hid
    have hlabels : s.labels = x.labels := labels_eq_of_text hapart hsampled
      (hrs.sampled hrow (hmem r hrmem) hx hxid) hstext (htext ▸ hxtext)
    have hlabels' : s.labels = x'.labels := labels_eq_of_text hapart hsampled
      (hrs.sampled hrow (hmem r' hrmem') hx' hxid') hstext (htext' ▸ hxtext')
    have hpost : rsel.postFilter x.labels = true := hlabels ▸ hacc.2
    have hsame := htell r.1 (hmem r hrmem) r'.1 (hmem r' hrmem') x hx x' hx' hxid hxid' hpost
      (hlabels.symm.trans hlabels')
    exact absurd (hat.symm.trans hat') (hne ⟨x, hx, hxid, hpost⟩
      (hxid.symm.trans ((congrArg Skaldberg.SeriesRow.seriesId hsame).trans hxid')))
  · refine hL.imp fun {l l'} hne x hx y hy hacc hid => ?_
    obtain ⟨r, -, rfl⟩ := List.mem_map.mp hx
    obtain ⟨r', -, rfl⟩ := List.mem_map.mp hy
    obtain ⟨s, hs, hsid, hacc⟩ := hacc
    rw [Bool.and_eq_true] at hacc
    exact hne ⟨s, hs, hsid, hacc.1⟩ hid

omit [DecidableEq τ] in
/-- The matched points, with their series, are the rows of an operator. -/
theorem rowsOf_matchedRow (hrow : OneRowPerSeries t) (joined : List (Point τ F × F)) (op : BinOp)
    (returnBool : Bool) :
    RowsOf t (joined.map Prod.fst) (joinSeries t (fun r => r.1.seriesId) joined)
      (fun r => (r.1.1, r.2)) (matchedRow op returnBool) (resultName op returnBool) where
  points := by
    have hsub := (joinSeries_fst_sublist hrow (fun r : Point τ F × F => r.1.seriesId)
      joined).map Prod.fst
    rw [List.map_map] at hsub
    exact hsub.subperm
  series r hr := by
    obtain ⟨-, hs, hon⟩ := Sql.mem_join.mp hr
    exact ⟨hs, beq_iff_eq.mp hon⟩
  name_eq := resultName_eq op returnBool
  at_ _ _ h := (binaryRow_eq_some h).1
  labels _ _ h := (binaryRow_eq_some h).2.1
  metricName _ _ h := (binaryRow_eq_some h).2.2

end Match

/-! ### The answers -/

section Answers

variable {xxh3 : List UInt8 → UInt64} (op : BinOp) (returnBool : Bool) (E : Sql.Engine)
  (startUs endUs : ℤ)

theorem OfSeries.scalarVectorRangeViaSql (hrow : OneRowPerSeries t) (sel : VectorSelector)
    (scalar : F) (scalarOnLeft : Bool) :
    OfSeries t (Prometheus.scalarVectorRangeViaSql E t scalar sel op returnBool scalarOnLeft
      startUs endUs) := by
  rw [scalarVectorRangeViaSql_eq]
  exact .decodeSorted hrow (pointsSampled_windowPoints t sel startUs endUs)
    (rowsOf_scalarRow scalar op returnBool scalarOnLeft startUs endUs) E

theorem OfSeries.vectorVectorRangeViaSql (hrow : OneRowPerSeries t) (lsel rsel : VectorSelector) :
    OfSeries t (Prometheus.vectorVectorRangeViaSql E t lsel rsel op returnBool startUs endUs) := by
  rw [vectorVectorRangeViaSql_eq]
  exact .decodeSorted hrow
    (pointsSampled_windowPoints t lsel startUs endUs).plusZero.matchSides
    (rowsOf_matchedRow hrow _ op returnBool) E

variable {once labelled : Prop} (hvalid : ValidatedTables xxh3 t) (hapart : SpeltApart t)
include hvalid hapart

/-- **What a query makes of a selector and a scalar** is told as far as its names stay or labels
tell the series of the selector. -/
theorem told_scalarVectorRangeViaSql (hone : once → OneSample t sel)
    (hname : labelled → OneName t sel) (hkeep : op.isFilter returnBool = true ∨ labelled)
    (scalar : F) (scalarOnLeft : Bool) :
    Told once labelled (scalarVectorRangeViaSql E t scalar sel op returnBool scalarOnLeft
      startUs endUs) := by
  rw [scalarVectorRangeViaSql_eq]
  have hsampled := pointsSampled_windowPoints t sel startUs endUs
  exact told_decodeSorted hvalid hapart
    (fun hlabelled => hsampled.labelsTell hvalid.oneRow (hname hlabelled))
    (hkeep.imp_left resultName_of_isFilter)
    (fun honce => pointsApart_windowPoints hvalid.oneRow (hone honce) startUs endUs) hsampled
    (rowsOf_scalarRow scalar op returnBool scalarOnLeft startUs endUs) E

/-- **What a query makes of two selectors** is told in the same way; each of its points is there
once if labels tell the series on the right. -/
theorem told_vectorVectorRangeViaSql (hl : once → OneSample t lsel) (hr : once → OneSample t rsel)
    (hright : once → OneName t rsel) (hname : labelled → OneName t lsel)
    (hkeep : op.isFilter returnBool = true ∨ labelled) :
    Told once labelled (vectorVectorRangeViaSql E t lsel rsel op returnBool startUs endUs) := by
  rw [vectorVectorRangeViaSql_eq]
  have hls := (pointsSampled_windowPoints t lsel startUs endUs).plusZero
  have hrs := (pointsSampled_windowPoints t rsel startUs endUs).plusZero
  refine told_decodeSorted hvalid hapart
    (fun hlabelled => (hls.labelsTell hvalid.oneRow (hname hlabelled)).matchSides
      fun _ h => ((Bool.and_eq_true _ _).mp h).1)
    (hkeep.imp_left resultName_of_isFilter) (fun honce => ?_) hls.matchSides
    (rowsOf_matchedRow hvalid.oneRow _ op returnBool) E
  exact pointsApart_matchSides hvalid.oneRow hapart (List.nodup_dedup _) (List.nodup_dedup _)
    (pointsApart_windowPoints hvalid.oneRow (hl honce) startUs endUs).plusZero hls
    (pointsApart_windowPoints hvalid.oneRow (hr honce) startUs endUs).plusZero hrs
    (hrs.labelsTell hvalid.oneRow (hright honce))

end Answers

end Skaldberg.Prometheus
