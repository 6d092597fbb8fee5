import Skaldberg.Prometheus.InstantShape
import Skaldberg.Prometheus.SelectorSemantics

/-!
# Well-formed instant vectors

Which instant queries are answered with a well-formed vector
(`Skaldberg.Prometheus.WellFormedVector`). Every expression is told by its labels as soon as the
selectors it stands on (`Reaches`) are, and the range functions of these, at the time of the query
(`ToldAt`); and as an infinite literal strips the names, this is also what it takes
(`wellFormedVector_iff`). Samples at one timestamp are no trouble here: of a series the latest
sample is taken, whichever it is.

In particular a selector that names its metric is told by its labels at any time
(`toldAt_of_named`).
-/

namespace Skaldberg.Prometheus

variable {F : Type} [F64 F] {xxh3 : List UInt8 → UInt64} {t : Tables F} {E : Sql.Engine}
  {sel : VectorSelector} {timeUs : ℤ}

/-- At a time, what a selector is answered with is told by its labels, and so are the values of its
range functions. -/
structure ToldAt (E : Sql.Engine) (t : Tables F) (sel : VectorSelector) (timeUs : ℤ) : Prop where
  /-- The selector. -/
  selector : ToldVector (instantSelector E t sel timeUs)
  /-- A range function of it. -/
  rangeFn : ∀ (range : ℕ) op, ToldVector (instantRangeFnViaSql E t sel (asI64 range) op timeUs)

/-! ### The latest samples -/

omit [F64 F] in
theorem pointsSampled_latestPoints (E : Sql.Engine) (t : Tables F) (sel : VectorSelector)
    (timeUs : ℤ) : PointsSampled t sel (latestPoints E t sel timeUs) := by
  intro x hx
  obtain ⟨r, hr, rfl⟩ := List.mem_map.mp hx
  have hbase := E.mem_rowNumber (List.mem_of_mem_filter hr)
  obtain ⟨hjoin, hpush, hwindow⟩ := mem_baseRows.mp hbase
  exact ⟨r.1, Sql.mem_join.mpr ⟨hjoin.1, hjoin.2.1, beq_iff_eq.mpr hjoin.2.2⟩, hjoin.2.2.symm,
    hpush, inRangeMicros_of_timestampBetween hwindow⟩

omit [F64 F] in
theorem pointsApart_latestPoints (E : Sql.Engine) (t : Tables F) (sel : VectorSelector)
    (accept : Labels → Bool) (timeUs : ℤ) :
    PointsApart t accept (latestPoints E t sel timeUs) := by
  refine .of_nodup (List.Nodup.of_map Prod.snd ?_)
  rw [List.map_map]
  exact nodup_seriesId_latestPoints E t sel timeUs

omit [F64 F] in
/-- An accepted series with a latest sample has a point. -/
theorem exists_mem_instantSelector_of_latest (hvalid : ValidatedTables xxh3 t)
    (hapart : SpeltApart t) {x : Point Unit F} (hx : x ∈ latestPoints E t sel timeUs)
    {s : Skaldberg.SeriesRow} (hs : s ∈ t.series) (hid : s.seriesId = x.seriesId)
    (hpost : sel.postFilter s.labels = true) :
    ∃ p ∈ instantSelector E t sel timeUs, p.metricName = s.metricName ∧ p.labels = s.labels := by
  obtain ⟨r, hr, rfl⟩ := List.mem_map.mp hx
  have hbase := E.mem_rowNumber (List.mem_of_mem_filter hr)
  have hrs : s = r.1.2 := series_eq hvalid.oneRow hs (mem_baseRows.mp hbase).1.2.1
    (hid.trans (mem_baseRows.mp hbase).1.2.2)
  rw [hrs] at hpost
  have hqueried : r.1 ∈ queriedRows t sel (asI64 (timeUs - lookbackUs)) timeUs :=
    List.mem_filter.mpr ⟨hbase, hpost⟩
  obtain ⟨row, hget⟩ := exists_get?_kept (E := E) hqueried
  obtain ⟨q, hq, rfl, hkey, -⟩ := exists_row_of_get?_kept hget
  have hqbase := List.mem_of_mem_filter hq
  obtain ⟨hname, hlabels⟩ := ((partOf_series (snd_mem_sampledSeries hqbase)).seriesKey_eq_iff hvalid
    hapart (partOf_series (snd_mem_sampledSeries hbase))).mp hkey
  refine ⟨instantPoint q, mem_instantSelector_iff_get?_kept.mpr ⟨_, _, hget, rfl⟩, ?_⟩
  rw [hrs]
  exact ⟨hname, hlabels⟩

namespace ToldAt

variable (hvalid : ValidatedTables xxh3 t) (hapart : SpeltApart t) (h : ToldAt E t sel timeUs)
include hvalid hapart h

theorem labelsTell : LabelsTell t sel.postFilter (latestPoints E t sel timeUs) := by
  intro x hx y hy s hs s' hs' hid hid' hpost hlabels
  obtain ⟨p, hp, hname, hl⟩ := exists_mem_instantSelector_of_latest hvalid hapart hx hs hid hpost
  obtain ⟨p', hp', hname', hl'⟩ :=
    exists_mem_instantSelector_of_latest hvalid hapart hy hs' hid' (hlabels ▸ hpost)
  have hsame : p = p' := List.inj_on_of_nodup_map h.selector hp hp' (by rw [hl, hl', hlabels])
  refine hvalid.series_eq hs hs' ?_ hlabels
  rw [← hname, ← hname', hsame]

/-- **What can be pushed into a query** is told by its labels. -/
theorem pushdown {inner : Pushdown} (hsel : inner.sel = sel)
    (hrange : ∀ sel rangeUs op, inner = .rangeFn sel rangeUs op →
      ∃ range : ℕ, rangeUs = asI64 range) :
    ToldVector (decodeInstantRows sel.postFilter inner.keep timeUs
      (joinSeries t Point.seriesId (inner.instantPoints E t timeUs))) := by
  cases inner with
  | selector sel' =>
    obtain rfl : sel' = sel := hsel
    have hrows : RowsOf t (latestPoints E t sel' timeUs)
        (joinSeries t Point.seriesId (latestPoints E t sel' timeUs)) id some id :=
      .of_points (joinSeries_fst_sublist hvalid.oneRow _ _).subperm fun r hr =>
        ⟨(Sql.mem_join.mp hr).2.1, beq_iff_eq.mp (Sql.mem_join.mp hr).2.2⟩
    have htold : ToldVector (decodeInstantRows sel'.postFilter (fun _ => true) timeUs
        ((joinSeries t Point.seriesId (latestPoints E t sel' timeUs)).filterMap some)) :=
      told_decodeInstantRows hrows (pointsApart_latestPoints E t sel' sel'.postFilter timeUs)
        (h.labelsTell hvalid hapart)
    rwa [List.filterMap_some] at htold
  | rangeFn sel' rangeUs op =>
    obtain rfl : sel' = sel := hsel
    obtain ⟨range, hrange⟩ := hrange _ _ _ rfl
    rw [hrange]
    exact h.rangeFn range op

end ToldAt

/-! ### Selectors that are told by their labels at any time -/

/-- A point that a range function makes belongs to a series with a sample. -/
theorem pointsSampled_rangefnCtes (E : Sql.Engine) (t : Tables F) (sel : VectorSelector)
    (op : RangeFnOp) (rangeUs timeUs : ℤ) :
    PointsSampled t sel (perSeriesRangefnCtes E t sel op rangeUs timeUs) := by
  intro x hx
  obtain ⟨b, hb, -, hbid⟩ := exists_base_of_mem_perSeries hx
  obtain ⟨r, hr, rfl⟩ := List.mem_map.mp hb
  obtain ⟨hjoin, hpush, hwindow⟩ := mem_baseRows.mp hr
  exact ⟨r, Sql.mem_join.mpr ⟨hjoin.1, hjoin.2.1, beq_iff_eq.mpr hjoin.2.2⟩,
    hjoin.2.2.symm.trans hbid, hpush, inRangeMicros_of_timestampBetween hwindow⟩

/-- **A selector that accepts one series with given labels** is told by its labels. -/
theorem toldAt_of_oneName (hvalid : ValidatedTables xxh3 t)
    (hone : ∀ r ∈ selectedRows t sel, ∀ r' ∈ selectedRows t sel, r.2.labels = r'.2.labels →
      r.2 = r'.2) (E : Sql.Engine) (timeUs : ℤ) : ToldAt E t sel timeUs := by
  constructor
  · have hrow : ∀ p ∈ instantSelector E t sel timeUs, ∃ r ∈ selectedRows t sel,
        p.metricName = r.2.metricName ∧ p.labels = r.2.labels := by
      intro p hp
      obtain ⟨k, row, hget, rfl⟩ := mem_instantSelector_iff_get?_kept.mp hp
      obtain ⟨r, hr, rfl, -, -⟩ := exists_row_of_get?_kept hget
      obtain ⟨hbase, hpost⟩ := List.mem_filter.mp hr
      exact ⟨r, mem_selectedRows_of_mem_baseRows hbase hpost, rfl, rfl⟩
    rw [ToldVector, List.Nodup, List.pairwise_map]
    refine (List.pairwise_map.mp (nodup_keys_instantSelector E)).imp_of_mem
      fun {p p'} hp hp' hne hlabels => hne ?_
    obtain ⟨r, hr, hname, hl⟩ := hrow p hp
    obtain ⟨r', hr', hname', hl'⟩ := hrow p' hp'
    rw [hname, hname', hone r hr r' hr' (hl.symm.trans (hlabels.trans hl')), hlabels]
  · intro range op
    let points := perSeriesRangefnCtes E t sel op (asI64 range) timeUs
    have hrows : RowsOf t points (joinSeries t Point.seriesId points) id some id :=
      .of_points (joinSeries_fst_sublist hvalid.oneRow _ _).subperm fun r hr =>
        ⟨(Sql.mem_join.mp hr).2.1, beq_iff_eq.mp (Sql.mem_join.mp hr).2.2⟩
    have htold : ToldVector (decodeInstantRows sel.postFilter F64.isFinite timeUs
        ((joinSeries t Point.seriesId points).filterMap some)) :=
      told_decodeInstantRows hrows (.of_nodup (nodup_perSeriesRangefn E _ op))
        ((pointsSampled_rangefnCtes E t sel op _ timeUs).labelsTell hvalid.oneRow hone)
    rwa [List.filterMap_some] at htold

/-- **A selector that names its metric** is told by its labels. -/
theorem toldAt_of_named (hvalid : ValidatedTables xxh3 t) {name : String}
    (hname : effectiveMetricName sel = some name) (E : Sql.Engine) (timeUs : ℤ) :
    ToldAt E t sel timeUs := by
  refine toldAt_of_oneName hvalid (fun r hr r' hr' hlabels => ?_) E timeUs
  obtain ⟨⟨-, hs, -⟩, hpush, -⟩ := mem_selectedRows.mp hr
  obtain ⟨⟨-, hs', -⟩, hpush', -⟩ := mem_selectedRows.mp hr'
  refine hvalid.series_eq hs hs' ?_ hlabels
  rw [(pushed_iff.mp hpush).1 name hname, (pushed_iff.mp hpush').1 name hname]

/-! ### Operators in the query -/

section Operators

theorem vectorVectorInstantViaSql_eq (E : Sql.Engine) (t : Tables F) (lsel rsel : VectorSelector)
    (op : BinOp) (returnBool : Bool) (timeUs : ℤ) :
    vectorVectorInstantViaSql E t lsel rsel op returnBool timeUs =
      decodeInstantRows (fun labels => lsel.postFilter labels && rsel.postFilter labels)
        (fun _ => true) timeUs
        ((joinSeries t (fun r => r.1.seriesId) (matchSides E t
          (((latestPoints E t lsel timeUs).map Point.plusZero).map Point.seriesId)
          ((latestPoints E t lsel timeUs).map Point.plusZero)
          (((latestPoints E t rsel timeUs).map Point.plusZero).map Point.seriesId)
          ((latestPoints E t rsel timeUs).map Point.plusZero))).filterMap
            (matchedRow op returnBool)) := rfl

variable (hvalid : ValidatedTables xxh3 t) (hapart : SpeltApart t) (op : BinOp) (returnBool : Bool)
include hvalid hapart

/-- **What a query makes of a selector and a scalar** is told by its labels. -/
theorem told_scalarVectorInstantViaSql (h : ToldAt E t sel timeUs) (scalar : F)
    (scalarOnLeft : Bool) :
    ToldVector (scalarVectorInstantViaSql E t scalar sel op returnBool scalarOnLeft timeUs) := by
  have hrows : RowsOf t (latestPoints E t sel timeUs)
      (joinSeries t Point.seriesId (latestPoints E t sel timeUs)) id
      (scalarRow op returnBool scalar scalarOnLeft) (resultName op returnBool) := by
    refine ⟨(joinSeries_fst_sublist hvalid.oneRow _ _).subperm, fun r hr => ?_,
      resultName_eq op returnBool, fun _ _ h => (binaryRow_eq_some h).1,
      fun _ _ h => (binaryRow_eq_some h).2.1, fun _ _ h => (binaryRow_eq_some h).2.2⟩
    exact ⟨(Sql.mem_join.mp hr).2.1, beq_iff_eq.mp (Sql.mem_join.mp hr).2.2⟩
  exact told_decodeInstantRows hrows (pointsApart_latestPoints E t sel _ timeUs)
    (h.labelsTell hvalid hapart)

/-- **What a query makes of two selectors** is told by its labels. -/
theorem told_vectorVectorInstantViaSql {lsel rsel : VectorSelector} (hl : ToldAt E t lsel timeUs)
    (hr : ToldAt E t rsel timeUs) :
    ToldVector (vectorVectorInstantViaSql E t lsel rsel op returnBool timeUs) := by
  have hids : ∀ sel, (((latestPoints E t sel timeUs).map Point.plusZero).map
      Point.seriesId).Nodup := by
    intro sel
    rw [List.map_map]
    exact nodup_seriesId_latestPoints E t sel timeUs
  have hls := (pointsSampled_latestPoints E t lsel timeUs).plusZero
  have hrs := (pointsSampled_latestPoints E t rsel timeUs).plusZero
  rw [vectorVectorInstantViaSql_eq]
  refine told_decodeInstantRows (rowsOf_matchedRow hvalid.oneRow _ op returnBool) ?_
    ((hl.labelsTell hvalid hapart).plusZero.matchSides fun _ h =>
      ((Bool.and_eq_true _ _).mp h).1)
  exact pointsApart_matchSides hvalid.oneRow hapart (hids lsel) (hids rsel)
    (pointsApart_latestPoints E t lsel _ timeUs).plusZero hls
    (pointsApart_latestPoints E t rsel _ timeUs).plusZero hrs
    (hr.labelsTell hvalid hapart).plusZero

end Operators

/-! ### Every expression -/

/-- The range of a range function is one of 64 bits. -/
theorem exists_range_of_rangeFn {e : Expr F} {rangeUs : ℤ} {op : RangeFnOp}
    (h : detectQueryKind e = some (.rangeFn sel rangeUs op)) :
    ∃ range : ℕ, rangeUs = asI64 range := by
  rcases detectQueryKind_eq_some h with h | ⟨sel', -, hselector⟩
  · rcases detectShape_eq_some h with ⟨_, _, _, _, -, ⟨_, _, h⟩ | ⟨_, h⟩⟩ |
      ⟨_, _, _, _, _, _, -, h⟩ | ⟨_, _, _, -, h⟩ | ⟨_, _, range, _, _, -, h⟩
    · cases h
    · cases h
    · cases h
    · cases h
    · cases h
      exact ⟨range, rfl⟩
  · cases hselector

/-- The range of what is pushed into a query is one of 64 bits. -/
theorem exists_range_of_pushdown {modifier : Option LabelModifier} {e : Expr F} {inner : Pushdown}
    (h : pushdown modifier e = some inner) (sel : VectorSelector) (rangeUs : ℤ) (op : RangeFnOp)
    (hinner : inner = .rangeFn sel rangeUs op) : ∃ range : ℕ, rangeUs = asI64 range := by
  subst hinner
  rw [pushdown] at h
  split_ifs at h
  split at h
  · cases h
  · split at h
    · rename_i hkind
      cases h
      exact exists_range_of_rangeFn hkind
    · cases h

section Evaluation

variable {e : Expr F} {l : List (InstantPoint F)}

/-- **A pushed aggregation, quantile or cut** is told by its labels. -/
theorem told_evalInstant (hvalid : ValidatedTables xxh3 t) (hapart : SpeltApart t)
    {shape : PushedShape F} (h : pushedShape e = some shape)
    (hsel : ∀ sel, Reaches e sel → ToldAt E t sel timeUs) :
    ToldVector (shape.evalInstant E t timeUs) := by
  have hids : ∀ inner : Pushdown, ((inner.instantPoints E t timeUs).map Point.seriesId).Nodup := by
    intro inner
    cases inner with
    | selector sel => exact nodup_seriesId_latestPoints E t sel timeUs
    | rangeFn sel rangeUs op =>
      have hnodup := nodup_perSeriesRangefn E (instantBase t sel rangeUs timeUs) op
      refine List.Nodup.of_map (fun id => ((), id)) ?_
      rw [List.map_map]
      exact hnodup
  rw [pushedShape] at h
  split at h
  · obtain ⟨inner, -, rfl⟩ := Option.map_eq_some_iff.mp h
    exact told_instantAggregateOf hvalid.oneRow (hids inner) E _ _ _ _
  · rename_i n top modifier e' hkind
    obtain ⟨inner, hpush, rfl⟩ := Option.map_eq_some_iff.mp h
    rw [PushedShape.evalInstant]
    split_ifs
    · exact .nil
    · have hat := hsel inner.sel (.topK hkind (reaches_of_pushdown hpush))
      refine (hat.pushdown hvalid hapart rfl (exists_range_of_pushdown hpush)).subperm
        (decodeInstantRows_subperm (subperm_joinSeries (hids inner).of_map ?_ fun r =>
          series_of_mem_topkOf))
      exact topkOf_subperm hvalid.oneRow (joinSeries_fst_sublist hvalid.oneRow _ _)
  · obtain ⟨⟨sel, rangeUs, fnOp⟩, -, rfl⟩ := Option.map_eq_some_iff.mp h
    rw [PushedShape.evalInstant, instantHistogramQuantileViaSql]
    exact told_histogramQuantileOf hvalid.oneRow (hids (.rangeFn sel rangeUs fnOp)) E _ _ _
  · cases h

/-- **An operator** is told by its labels if its operands are. -/
theorem told_binary (hvalid : ValidatedTables xxh3 t) (hapart : SpeltApart t) {op : BinOp}
    {lhs rhs : Expr F} {returnBool : Bool}
    (hkind : detectQueryKind e = some (.binary op lhs rhs returnBool))
    (h : evaluateInstant E t timeUs e = .ok l)
    (hsel : ∀ sel, Reaches e sel → ToldAt E t sel timeUs)
    (ih : ∀ side, side = lhs ∨ side = rhs → ∀ {l}, evaluateInstant E t timeUs side = .ok l →
      (∀ sel, Reaches side sel → ToldAt E t sel timeUs) → ToldVector l) : ToldVector l := by
  have hside : ∀ side, side = lhs ∨ side = rhs → ∀ sel, Reaches side sel → ToldAt E t sel timeUs :=
    fun side hside sel hreach => hsel sel (.binary hkind hside hreach)
  rw [evaluateInstant_binary hkind] at h
  cases hpush : binaryPushdown lhs rhs with
  | some x =>
    rw [hpush] at h
    rw [binaryPushdown] at hpush
    split at hpush
    · rename_i scalar sel scalarOnLeft hpair
      cases hpush
      obtain rfl : scalarVectorInstantViaSql E t scalar sel op returnBool scalarOnLeft timeUs = l :=
        Except.ok.inj h
      obtain ⟨side, hs, hreach⟩ := reaches_of_scalarVectorPair hpair
      exact told_scalarVectorInstantViaSql hvalid hapart op returnBool (hside side hs _ hreach) _ _
    · split at hpush
      · rename_i lsel rsel hl hr
        cases hpush
        obtain rfl : vectorVectorInstantViaSql E t lsel rsel op returnBool timeUs = l :=
          Except.ok.inj h
        exact told_vectorVectorInstantViaSql hvalid hapart op returnBool
          (hside lhs (Or.inl rfl) _ (.selector (detectQueryKind_of_pureSelector hl)))
          (hside rhs (Or.inr rfl) _ (.selector (detectQueryKind_of_pureSelector hr)))
      · cases hpush
  | none =>
    rw [hpush] at h
    obtain ⟨left, hleft, h⟩ := bind_eq_ok_iff.mp h
    obtain ⟨right, hright, h⟩ := bind_eq_ok_iff.mp h
    cases h
    refine told_combineInstant op returnBool left right ?_ ?_
    · rintro l rfl
      exact ih lhs (Or.inl rfl) (evalSide_eq_vector hleft) (hside lhs (Or.inl rfl))
    · rintro l rfl
      exact ih rhs (Or.inr rfl) (evalSide_eq_vector hright) (hside rhs (Or.inr rfl))

/-- **Every expression is told by its labels** at a time at which the selectors that it reaches
are. -/
theorem told_evaluateInstant (hvalid : ValidatedTables xxh3 t) (hapart : SpeltApart t)
    (e : Expr F) : ∀ {l}, evaluateInstant E t timeUs e = .ok l →
      (∀ sel, Reaches e sel → ToldAt E t sel timeUs) → ToldVector l := by
  induction e using plan_induction with
  | step e ih =>
    intro l h hsel
    have hpushed : ∀ {shape}, pushedShape e = some shape → ToldVector l := by
      intro shape hshape
      rw [evaluateInstant_of_pushedShape hshape] at h
      cases h
      exact told_evalInstant hvalid hapart hshape hsel
    cases hkind : detectQueryKind e with
    | none =>
      rw [evaluateInstant_none hkind] at h
      cases h
      exact .nil
    | some kind =>
      have ih := ih kind hkind
      cases kind with
      | selector sel =>
        rw [evaluateInstant_selector hkind] at h
        cases h
        exact (hsel sel (.selector hkind)).selector
      | rangeFn sel rangeUs op =>
        obtain ⟨range, hrange⟩ := exists_range_of_rangeFn hkind
        rw [evaluateInstant_rangeFn hkind] at h
        cases h
        rw [hrange]
        exact (hsel sel (.rangeFn hkind)).rangeFn range op
      | aggregate op modifier inner =>
        cases hpush : pushdown modifier inner with
        | some x =>
          refine hpushed (?_ : pushedShape e = some (.aggregate op modifier x))
          rw [pushedShape, hkind]
          exact congrArg (Option.map _) hpush
        | none =>
          rw [evaluateInstant_aggregate hkind, hpush] at h
          obtain ⟨points, -, h⟩ := bind_eq_ok_iff.mp h
          cases h
          exact told_aggregateInstantPoints points op modifier timeUs
      | histogramQuantile q inner =>
        cases hpush : quantilePushdown q inner with
        | some x =>
          refine hpushed (?_ : pushedShape e = some (.quantile q x.1 x.2.1 x.2.2))
          rw [pushedShape, hkind]
          exact congrArg (Option.map _) hpush
        | none =>
          rw [evaluateInstant_histogramQuantile hkind, hpush] at h
          obtain ⟨points, -, h⟩ := bind_eq_ok_iff.mp h
          cases h
          exact told_histogramQuantileInstant points q timeUs
      | topK n top modifier inner =>
        cases hpush : pushdown modifier inner with
        | some x =>
          refine hpushed (?_ : pushedShape e = some (.topK n top modifier x))
          rw [pushedShape, hkind]
          exact congrArg (Option.map _) hpush
        | none =>
          rw [evaluateInstant_topK hkind, hpush] at h
          obtain ⟨points, hinner, h⟩ := bind_eq_ok_iff.mp h
          cases h
          refine (ih inner (List.mem_singleton_self _) hinner fun sel hreach =>
            hsel sel (.topK hkind hreach)).subperm ?_
          exact topkInstantPoints_subperm points n top modifier
      | binary op lhs rhs returnBool =>
        exact told_binary hvalid hapart hkind h hsel fun side hside => ih side (by
          rcases hside with rfl | rfl <;> simp [QueryKind.inners])

end Evaluation

/-! ### When every answer is well formed -/

/-- The name of a range function. -/
def RangeFnOp.name : RangeFnOp → String
  | .rate => "rate"
  | .irate => "irate"
  | .increase => "increase"
  | .delta => "delta"

/-- A range function of a selector. -/
def RangeFnOp.call (op : RangeFnOp) (sel : VectorSelector) (range : ℕ) : Expr F :=
  .call op.name [.matrixSelector sel range]

theorem detectQueryKind_call (op : RangeFnOp) (sel : VectorSelector) (range : ℕ) :
    detectQueryKind (F := F) (op.call sel range) = some (.rangeFn sel (asI64 range) op) := by
  have hop : parseRangeFnOp op.name = some op := by
    cases op <;> decide +kernel
  have hshape : detectShape (F := F) (op.call sel range) =
      some (.rangeFn sel (asI64 range) op) := by
    rw [RangeFnOp.call, detectShape, detectRangeFn, hop]
    rfl
  rw [detectQueryKind, hshape]
  rfl

theorem reaches_call {op : RangeFnOp} {sel sel' : VectorSelector} {range : ℕ}
    (h : Reaches (F := F) (op.call sel range) sel') : sel' = sel := by
  have hkind := detectQueryKind_call (F := F) op sel range
  cases h with
  | selector h => cases hkind.symm.trans h
  | rangeFn h => exact (QueryKind.rangeFn.inj (Option.some.inj (hkind.symm.trans h))).1.symm
  | topK h => cases hkind.symm.trans h
  | binary h => cases hkind.symm.trans h

/-- **A sum with an infinite literal** is the vector without its names. -/
theorem evaluateInstant_add_inf (hinf : F64.isFinite (F64.inf : F) = false) {e : Expr F}
    {l : List (InstantPoint F)} (hne : ∀ v, e ≠ .numberLiteral v)
    (h : evaluateInstant E t timeUs e = .ok l) :
    evaluateInstant E t timeUs (.binary .add e (.numberLiteral F64.inf) none) =
      .ok (applyScalarVectorInstant F64.inf l .add false false) := by
  have hside : evalSide (F := F) e (.ok l) = .ok (.vector l) := by
    rw [evalSide.eq_def]
    split
    · rename_i v
      exact absurd rfl (hne v)
    · rfl
  rw [evaluateInstant_binary rfl, binaryPushdown_inf hinf, h, hside]
  rfl

/-- A vector whose names are stripped is well formed if its labels tell its points. -/
theorem told_of_wellFormed_add {l : List (InstantPoint F)} {scalar : F}
    (h : WellFormedVector (applyScalarVectorInstant scalar l .add false false)) :
    ToldVector l := by
  have hmap : (applyScalarVectorInstant scalar l .add false false).map
      (fun p => (p.metricName, p.labels)) = l.map fun p => ("", p.labels) := by
    rw [applyScalarVectorInstant, List.map_filterMap]
    exact congrFun (List.filterMap_eq_map (f := fun p : InstantPoint F => ("", p.labels))) l
  rw [WellFormedVector, hmap] at h
  refine List.Nodup.of_map (fun labels => ("", labels)) ?_
  rw [List.map_map]
  exact h

/-- **The vector of every expression on some selectors is well formed at a time exactly when these
selectors and their range functions are told by their labels then**, where labels are spelt
apart. -/
theorem wellFormedVector_iff (hvalid : ValidatedTables xxh3 t) (hapart : SpeltApart t)
    (hinf : F64.isFinite (F64.inf : F) = false) (E : Sql.Engine) (S : Set VectorSelector)
    (timeUs : ℤ) :
    (∀ e : Expr F, (∀ sel, Reaches e sel → sel ∈ S) → ∀ l,
      evaluateInstant E t timeUs e = .ok l → WellFormedVector l) ↔
        ∀ sel ∈ S, ToldAt E t sel timeUs := by
  constructor
  · intro h sel hsel
    have hstripped : ∀ (e : Expr F) (l : List (InstantPoint F)),
        (∀ sel', Reaches e sel' → sel' = sel) → (∀ v, e ≠ .numberLiteral v) →
          evaluateInstant E t timeUs e = .ok l → ToldVector l := by
      intro e l hreach hne hl
      refine told_of_wellFormed_add (h _ (fun sel' hs => ?_) _
        (evaluateInstant_add_inf hinf hne hl))
      rwa [hreach sel' (reaches_add_literal hs)]
    constructor
    · exact hstripped (.vectorSelector sel) _ (fun sel' => reaches_vectorSelector) nofun
        (evaluateInstant_selector rfl)
    · intro range op
      exact hstripped (op.call sel range) _ (fun sel' => reaches_call) nofun
        (evaluateInstant_rangeFn (detectQueryKind_call op sel range))
  · intro h e hreach l hl
    exact (told_evaluateInstant hvalid hapart e hl fun sel hs => h sel (hreach sel hs)).wellFormed

/-- What stands on `up` alone is well formed over two jobs, at any time. -/
theorem wellFormedVector_iff_two_jobs :
    ValidatedTables sumHash twoJobs ∧ ∀ (E : Sql.Engine) (timeUs : ℤ) (e : Expr Whole),
      (∀ sel, Reaches e sel → sel ∈ ({anyUp} : Set VectorSelector)) → ∀ l,
        evaluateInstant E twoJobs timeUs e = .ok l → WellFormedVector l := by
  have hvalid : ValidatedTables sumHash twoJobs :=
    validatedTables_twoSeries (by decide +kernel) (by decide +kernel) (by decide +kernel)
  have hapart : SpeltApart twoJobs := speltApart_of_commaFree hvalid (by decide +kernel)
  refine ⟨hvalid, fun E timeUs =>
    (wellFormedVector_iff hvalid hapart (by decide) E {anyUp} timeUs).mpr ?_⟩
  rintro _ rfl
  exact toldAt_of_named hvalid rfl E timeUs

end Skaldberg.Prometheus
