import Skaldberg.Prometheus.BinaryMatrices
import Skaldberg.Prometheus.OneResult

/-!
# Well-formed matrices

Which matrix queries are answered with a well-formed matrix (`Skaldberg.Prometheus.WellFormed`).
The answer of an expression comes from those of its parts in one of a few ways
(`AnswerOf`, `answerOf_evaluateRange`). An aggregation and a quantile make new series, told by their
labels whatever they are made of; anything else keeps series of the selectors it stands on
(`Reaches`). Samples are answered as they are stored, so that a timestamp comes as often as a series
has samples at it; otherwise the matrix is well formed, as long as labels tell the series that lose
their names (`ordered_evaluateRange`). And the answers of all expressions on some selectors are well
formed exactly when these selectors are unambiguous: they accept one sample of a series at a
timestamp, and one series with given labels (`wellFormed_iff`).

The second condition is about the name. A raw answer tells two series of one label map by their
names, and so is well formed without it; but an operator strips the names, and an infinite literal,
which is not handed to the query, is all it takes to have it do so in the program
(`oneName_of_wellFormed`).
-/

namespace Skaldberg.Prometheus

variable {F : Type} [F64 F] {t : Tables F} {E : Sql.Engine} {startUs endUs stepUs : ℤ}

/-! ### Where an answer comes from -/

/-- The selectors whose series an answer keeps: those of the plan that stand under no aggregation
and no quantile. -/
inductive Reaches : Expr F → VectorSelector → Prop
  /-- A selector. -/
  | selector {e : Expr F} {sel : VectorSelector} (h : detectQueryKind e = some (.selector sel)) :
      Reaches e sel
  /-- The selector of a range function. -/
  | rangeFn {e : Expr F} {sel : VectorSelector} {rangeUs : ℤ} {op : RangeFnOp}
      (h : detectQueryKind e = some (.rangeFn sel rangeUs op)) : Reaches e sel
  /-- A selector under a cut. -/
  | topK {e inner : Expr F} {n : ℕ} {top : Bool} {modifier : Option LabelModifier}
      {sel : VectorSelector} (h : detectQueryKind e = some (.topK n top modifier inner))
      (hinner : Reaches inner sel) : Reaches e sel
  /-- A selector under an operator. -/
  | binary {e lhs rhs side : Expr F} {op : BinOp} {returnBool : Bool} {sel : VectorSelector}
      (h : detectQueryKind e = some (.binary op lhs rhs returnBool))
      (hside : side = lhs ∨ side = rhs)
      (hinner : Reaches side sel) : Reaches e sel

theorem Reaches.of_binary {e lhs rhs : Expr F} {op : BinOp} {returnBool : Bool}
    {sel : VectorSelector} (h : Reaches e sel)
    (hkind : detectQueryKind e = some (.binary op lhs rhs returnBool)) :
    ∃ side, (side = lhs ∨ side = rhs) ∧ Reaches side sel := by
  cases h with
  | selector h => cases h.symm.trans hkind
  | rangeFn h => cases h.symm.trans hkind
  | topK h => cases h.symm.trans hkind
  | binary h hside hinner =>
    cases h.symm.trans hkind
    exact ⟨_, hside, hinner⟩

/-- Those of them whose series have to be told without their names: an operator strips the names, or
the query matches the series by their labels, on the right side of an operator. -/
inductive LosesName : Expr F → VectorSelector → Prop
  /-- The names are stripped. -/
  | operator {e lhs rhs side : Expr F} {op : BinOp} {returnBool : Bool} {sel : VectorSelector}
      (h : detectQueryKind e = some (.binary op lhs rhs returnBool))
      (hstrip : op.isFilter returnBool = false) (hside : side = lhs ∨ side = rhs)
      (hsel : Reaches side sel) : LosesName e sel
  /-- The series are matched. -/
  | matched {e lhs rhs : Expr F} {op : BinOp} {returnBool : Bool} {lsel sel : VectorSelector}
      (h : detectQueryKind e = some (.binary op lhs rhs returnBool))
      (hl : pureSelector lhs = some lsel) (hr : pureSelector rhs = some sel) : LosesName e sel
  /-- Under a cut. -/
  | topK {e inner : Expr F} {n : ℕ} {top : Bool} {modifier : Option LabelModifier}
      {sel : VectorSelector} (h : detectQueryKind e = some (.topK n top modifier inner))
      (hinner : LosesName inner sel) : LosesName e sel
  /-- Under an operator. -/
  | binary {e lhs rhs side : Expr F} {op : BinOp} {returnBool : Bool} {sel : VectorSelector}
      (h : detectQueryKind e = some (.binary op lhs rhs returnBool))
      (hside : side = lhs ∨ side = rhs) (hinner : LosesName side sel) : LosesName e sel

theorem detectQueryKind_of_pureSelector {e : Expr F} {sel : VectorSelector}
    (h : pureSelector e = some sel) : detectQueryKind e = some (.selector sel) := by
  have hextract := extractSelector_of_pureSelector h
  cases e with
  | vectorSelector vs => rw [detectQueryKind_of_no_shape rfl, hextract]; rfl
  | paren e => rw [detectQueryKind_of_no_shape rfl, hextract]; rfl
  | _ => cases h

theorem LosesName.reaches {e : Expr F} {sel : VectorSelector} (h : LosesName e sel) :
    Reaches e sel := by
  induction h with
  | operator h _ hside hsel => exact .binary h hside hsel
  | matched h _ hr =>
    exact .binary h (Or.inr rfl) (.selector (detectQueryKind_of_pureSelector hr))
  | topK h _ ih => exact .topK h ih
  | binary h hside _ ih => exact .binary h hside ih

theorem reaches_vectorSelector {sel sel' : VectorSelector}
    (h : Reaches (F := F) (.vectorSelector sel) sel') : sel' = sel := by
  have hkind : detectQueryKind (F := F) (.vectorSelector sel) = some (.selector sel) := rfl
  cases h with
  | selector h => exact (QueryKind.selector.inj (Option.some.inj (hkind.symm.trans h))).symm
  | rangeFn h => cases hkind.symm.trans h
  | topK h => cases hkind.symm.trans h
  | binary h => cases hkind.symm.trans h

theorem reaches_add_literal {e : Expr F} {sel : VectorSelector} {v : F}
    (h : Reaches (.binary .add e (.numberLiteral v) none) sel) : Reaches e sel := by
  have hkind : detectQueryKind (.binary .add e (.numberLiteral v) none) =
      some (.binary .add e (.numberLiteral v) false) := rfl
  have hliteral : detectQueryKind (.numberLiteral v) = none := rfl
  cases h with
  | selector h => cases hkind.symm.trans h
  | rangeFn h => cases hkind.symm.trans h
  | topK h => cases hkind.symm.trans h
  | binary h hside hinner =>
    cases hkind.symm.trans h
    rcases hside with rfl | rfl
    · exact hinner
    · cases hinner with
      | selector h => cases hliteral.symm.trans h
      | rangeFn h => cases hliteral.symm.trans h
      | topK h => cases hliteral.symm.trans h
      | binary h => cases hliteral.symm.trans h

/-- The answers that an expression may get. -/
inductive AnswerOf (E : Sql.Engine) (t : Tables F) : Expr F → List (RangePoints F) → Prop
  /-- None. -/
  | nothing (e : Expr F) : AnswerOf E t e []
  /-- The samples of a selector. -/
  | selector {e : Expr F} {sel : VectorSelector} (startUs endUs : ℤ)
      (h : detectQueryKind e = some (.selector sel)) :
      AnswerOf E t e (rangeSelector E t sel startUs endUs)
  /-- A range function. -/
  | rangeFn {e : Expr F} {sel : VectorSelector} {rangeUs : ℤ} {op : RangeFnOp} (startUs endUs : ℤ)
      (evals : List ℤ) (h : detectQueryKind e = some (.rangeFn sel rangeUs op)) :
      AnswerOf E t e (decodeRangeRows sel.postFilter F64.isFinite (orderByNameTime E
        ((Pushdown.rangeFn sel rangeUs op).rangeRows E t startUs endUs evals)))
  /-- An aggregation in the query. -/
  | aggregateOf {e : Expr F} (inner : Pushdown) (startUs endUs : ℤ) (evals : List ℤ) (op : AggOp)
      (modifier : Option LabelModifier) :
      AnswerOf E t e (rangeAggregateOf E t inner.keep op modifier
        (inner.rangePoints E t startUs endUs evals))
  /-- An aggregation in the program. -/
  | aggregate {e inner : Expr F} {l : List (RangePoints F)} (op : AggOp)
      (modifier : Option LabelModifier) (hinner : AnswerOf E t inner l) :
      AnswerOf E t e (aggregateRangePoints l op modifier)
  /-- A quantile in the query. -/
  | quantileOf {e : Expr F} (sel : VectorSelector) (rangeUs : ℤ) (fnOp : RangeFnOp) (q : F)
      (startUs endUs : ℤ) (evals : List ℤ) :
      AnswerOf E t e (decodeRange F64.isFinite (orderByTime E (histogramQuantileOf E t q
        (perSeriesRangefnRangeCtes E t sel fnOp rangeUs evals startUs endUs))))
  /-- A quantile in the program. -/
  | quantile {e inner : Expr F} {l : List (RangePoints F)} (q : F)
      (hinner : AnswerOf E t inner l) : AnswerOf E t e (histogramQuantileRange l q)
  /-- A cut in the query. -/
  | topkOf {e : Expr F} {inner : Pushdown} (startUs endUs : ℤ) (evals : List ℤ) (n : ℕ)
      (top : Bool) (modifier : Option LabelModifier) (hsel : Reaches e inner.sel) :
      AnswerOf E t e (decodeRangeRows inner.sel.postFilter inner.keep (orderByNameTime E
        (Prometheus.topkOf E t n top modifier
          ((inner.rangePoints E t startUs endUs evals).map Point.seriesId).dedup
          (inner.rangePoints E t startUs endUs evals) (inner.rangeRows E t startUs endUs evals))))
  /-- A cut in the program. -/
  | topK {e inner : Expr F} {l : List (RangePoints F)} {n : ℕ} {top : Bool}
      {modifier : Option LabelModifier} (h : detectQueryKind e = some (.topK n top modifier inner))
      (hinner : AnswerOf E t inner l) : AnswerOf E t e (topkRangePoints l n top modifier)
  /-- A scalar and a selector in the query. -/
  | scalarVector {e lhs rhs side : Expr F} {op : BinOp} {returnBool : Bool} {sel : VectorSelector}
      (h : detectQueryKind e = some (.binary op lhs rhs returnBool))
      (hside : side = lhs ∨ side = rhs) (scalar : F) (scalarOnLeft : Bool) (startUs endUs : ℤ)
      (hsel : Reaches side sel) : AnswerOf E t e
        (scalarVectorRangeViaSql E t scalar sel op returnBool scalarOnLeft startUs endUs)
  /-- Two selectors in the query. -/
  | vectorVector {e lhs rhs : Expr F} {op : BinOp} {returnBool : Bool} {lsel rsel : VectorSelector}
      (h : detectQueryKind e = some (.binary op lhs rhs returnBool)) (startUs endUs : ℤ)
      (hl : pureSelector lhs = some lsel) (hr : pureSelector rhs = some rsel) :
      AnswerOf E t e (vectorVectorRangeViaSql E t lsel rsel op returnBool startUs endUs)
  /-- An operator in the program. -/
  | binary {e lhs rhs side : Expr F} {op : BinOp} {returnBool : Bool} {l l' : List (RangePoints F)}
      (h : detectQueryKind e = some (.binary op lhs rhs returnBool))
      (hside : side = lhs ∨ side = rhs) (hinner : AnswerOf E t side l)
      (hmade : MadeOf (resultName op returnBool) l l') : AnswerOf E t e l'

/-- What is pushed into a query is a selector of the expression. -/
theorem reaches_of_pushdown {modifier : Option LabelModifier} {e : Expr F} {inner : Pushdown}
    (h : pushdown modifier e = some inner) : Reaches e inner.sel := by
  rw [pushdown] at h
  split_ifs at h
  split at h
  · rename_i sel hpure
    cases h
    exact .selector (detectQueryKind_of_pureSelector hpure)
  · split at h
    · rename_i hkind
      cases h
      exact .rangeFn hkind
    · cases h

/-- The scalar and the selector of an operator. -/
theorem reaches_of_scalarVectorPair {lhs rhs : Expr F} {scalar : F} {sel : VectorSelector}
    {scalarOnLeft : Bool} (h : scalarVectorPair lhs rhs = some (scalar, sel, scalarOnLeft)) :
    ∃ side, (side = lhs ∨ side = rhs) ∧ Reaches side sel := by
  rw [scalarVectorPair] at h
  split at h
  · rename_i hpure
    cases h
    exact ⟨rhs, Or.inr rfl, .selector (detectQueryKind_of_pureSelector hpure)⟩
  · split at h
    · rename_i hpure
      cases h
      exact ⟨lhs, Or.inl rfl, .selector (detectQueryKind_of_pureSelector hpure)⟩
    · cases h

/-- A computation that goes through, goes through in both parts. -/
theorem bind_eq_ok_iff {ε α β : Type} {x : Except ε α} {f : α → Except ε β} {b : β} :
    x >>= f = .ok b ↔ ∃ a, x = .ok a ∧ f a = .ok b := by
  cases x with
  | error err => exact ⟨(nomatch ·), fun ⟨_, h, _⟩ => nomatch h⟩
  | ok a => exact ⟨fun h => ⟨a, rfl, h⟩, fun ⟨_, ha, h⟩ => Except.ok.inj ha ▸ h⟩

omit [F64 F] in
/-- An answer over a grid is the one at some timestamps, or nothing. -/
theorem Pushdown.of_overGrid {inner : Pushdown} {answer : List ℤ → List (RangePoints F)}
    {l : List (RangePoints F)} (h : inner.overGrid startUs endUs stepUs answer = .ok l) :
    l = [] ∨ ∃ evals, l = answer evals := by
  cases inner with
  | selector sel =>
    cases h
    exact Or.inr ⟨[], rfl⟩
  | rangeFn sel rangeUs op =>
    obtain ⟨evals, -, h⟩ := bind_eq_ok_iff.mp h
    split_ifs at h
    · cases h
      exact Or.inl rfl
    · cases h
      exact Or.inr ⟨evals, rfl⟩

omit [F64 F] in
/-- An operand that is a vector is what its expression is evaluated to. -/
theorem evalSide_eq_vector {α : Type} {e : Expr F} {evaluated : Except PromError α} {l : α}
    (h : evalSide e evaluated = .ok (.vector l)) : evaluated = .ok l := by
  rw [evalSide.eq_def] at h
  split at h
  · cases h
  · cases evaluated with
    | error err => cases h
    | ok l => cases h; rfl

section Plans

variable {e inner lhs rhs : Expr F} {l : List (RangePoints F)}
  (h : evaluateRange E t startUs endUs stepUs e = .ok l)
include h

theorem answerOf_rangeFn {sel : VectorSelector} {rangeUs : ℤ} {op : RangeFnOp}
    (hkind : detectQueryKind e = some (.rangeFn sel rangeUs op)) : AnswerOf E t e l := by
  rw [evaluateRange_rangeFn hkind] at h
  have hgrid : (Pushdown.rangeFn sel rangeUs op).overGrid startUs endUs stepUs (fun evals =>
      decodeRangeRows sel.postFilter F64.isFinite (orderByNameTime E
        ((Pushdown.rangeFn sel rangeUs op).rangeRows E t startUs endUs evals))) = .ok l := h
  rcases Pushdown.of_overGrid hgrid with rfl | ⟨evals, rfl⟩
  · exact .nothing e
  · exact .rangeFn startUs endUs evals hkind

theorem answerOf_aggregate {op : AggOp} {modifier : Option LabelModifier}
    (hkind : detectQueryKind e = some (.aggregate op modifier inner))
    (ih : ∀ {l}, evaluateRange E t startUs endUs stepUs inner = .ok l → AnswerOf E t inner l) :
    AnswerOf E t e l := by
  cases hpush : pushdown modifier inner with
  | some x =>
    have hshape : pushedShape e = some (.aggregate op modifier x) := by
      rw [pushedShape, hkind]
      exact congrArg (Option.map _) hpush
    rw [evaluateRange_of_pushedShape hshape, PushedShape.evalRange] at h
    rcases Pushdown.of_overGrid h with rfl | ⟨evals, rfl⟩
    · exact .nothing e
    · exact .aggregateOf x startUs endUs evals op modifier
  | none =>
    rw [evaluateRange_aggregate hkind, hpush] at h
    obtain ⟨series, hinner, h⟩ := bind_eq_ok_iff.mp h
    cases h
    exact .aggregate op modifier (ih hinner)

theorem answerOf_histogramQuantile {q : F}
    (hkind : detectQueryKind e = some (.histogramQuantile q inner))
    (ih : ∀ {l}, evaluateRange E t startUs endUs stepUs inner = .ok l → AnswerOf E t inner l) :
    AnswerOf E t e l := by
  cases hpush : quantilePushdown q inner with
  | some x =>
    have hshape : pushedShape e = some (.quantile q x.1 x.2.1 x.2.2) := by
      rw [pushedShape, hkind]
      exact congrArg (Option.map _) hpush
    rw [evaluateRange_of_pushedShape hshape, PushedShape.evalRange,
      rangeHistogramQuantileViaSql_eq] at h
    rcases Pushdown.of_overGrid h with rfl | ⟨evals, rfl⟩
    · exact .nothing e
    · exact .quantileOf x.1 x.2.1 x.2.2 q startUs endUs evals
  | none =>
    rw [evaluateRange_histogramQuantile hkind, hpush] at h
    obtain ⟨series, hinner, h⟩ := bind_eq_ok_iff.mp h
    cases h
    exact .quantile q (ih hinner)

theorem answerOf_topK {n : ℕ} {top : Bool} {modifier : Option LabelModifier}
    (hkind : detectQueryKind e = some (.topK n top modifier inner))
    (ih : ∀ {l}, evaluateRange E t startUs endUs stepUs inner = .ok l → AnswerOf E t inner l) :
    AnswerOf E t e l := by
  cases hpush : pushdown modifier inner with
  | some x =>
    have hshape : pushedShape e = some (.topK n top modifier x) := by
      rw [pushedShape, hkind]
      exact congrArg (Option.map _) hpush
    rw [evaluateRange_of_pushedShape hshape, PushedShape.evalRange] at h
    split_ifs at h
    · cases h
      exact .nothing e
    · rcases Pushdown.of_overGrid h with rfl | ⟨evals, rfl⟩
      · exact .nothing e
      · exact .topkOf startUs endUs evals n top modifier (.topK hkind (reaches_of_pushdown hpush))
  | none =>
    rw [evaluateRange_topK hkind, hpush] at h
    obtain ⟨series, hinner, h⟩ := bind_eq_ok_iff.mp h
    cases h
    exact .topK hkind (ih hinner)

theorem answerOf_binary {op : BinOp} {returnBool : Bool}
    (hkind : detectQueryKind e = some (.binary op lhs rhs returnBool))
    (ih : ∀ side, side = lhs ∨ side = rhs → ∀ {l},
      evaluateRange E t startUs endUs stepUs side = .ok l → AnswerOf E t side l) :
    AnswerOf E t e l := by
  rw [evaluateRange_binary hkind] at h
  cases hpush : binaryPushdown lhs rhs with
  | some x =>
    rw [hpush] at h
    rw [binaryPushdown] at hpush
    split at hpush
    · rename_i hpair
      cases hpush
      cases h
      obtain ⟨side, hside, hsel⟩ := reaches_of_scalarVectorPair hpair
      exact .scalarVector hkind hside _ _ startUs endUs hsel
    · split at hpush
      · rename_i hl hr
        cases hpush
        cases h
        exact .vectorVector hkind startUs endUs hl hr
      · cases hpush
  | none =>
    rw [hpush] at h
    obtain ⟨left, hleft, h⟩ := bind_eq_ok_iff.mp h
    obtain ⟨right, hright, h⟩ := bind_eq_ok_iff.mp h
    cases h
    rcases madeOf_combineRange op returnBool left right with hnil | ⟨l, rfl | ⟨-, rfl⟩, hmade⟩
    · rw [hnil]
      exact .nothing e
    · exact .binary hkind (Or.inl rfl) (ih lhs (Or.inl rfl) (evalSide_eq_vector hleft)) hmade
    · exact .binary hkind (Or.inr rfl) (ih rhs (Or.inr rfl) (evalSide_eq_vector hright)) hmade

end Plans

/-- **How an expression is answered**: in one of these ways. -/
theorem answerOf_evaluateRange (e : Expr F) : ∀ {l},
    evaluateRange E t startUs endUs stepUs e = .ok l → AnswerOf E t e l := by
  induction e using plan_induction with
  | step e ih =>
    intro l h
    cases hkind : detectQueryKind e with
    | none =>
      rw [evaluateRange_none hkind] at h
      cases h
      exact .nothing e
    | some kind =>
      have ih := ih kind hkind
      cases kind with
      | selector sel =>
        rw [evaluateRange_selector hkind] at h
        cases h
        exact .selector startUs endUs hkind
      | rangeFn sel rangeUs op => exact answerOf_rangeFn h hkind
      | aggregate op modifier inner =>
        exact answerOf_aggregate h hkind (ih inner (List.mem_singleton_self _))
      | histogramQuantile q inner =>
        exact answerOf_histogramQuantile h hkind (ih inner (List.mem_singleton_self _))
      | topK n top modifier inner =>
        exact answerOf_topK h hkind (ih inner (List.mem_singleton_self _))
      | binary op lhs rhs returnBool =>
        exact answerOf_binary h hkind fun side hside => ih side (by
          rcases hside with rfl | rfl <;> simp [QueryKind.inners])

/-! ### Answers are told by their labels -/

section Told

variable {e : Expr F} {l : List (RangePoints F)}

/-- **The series of an answer are parts of sampled series.** -/
theorem AnswerOf.ofSeries (hrow : OneRowPerSeries t) (h : AnswerOf E t e l) : OfSeries t l := by
  induction h with
  | nothing e => exact .nil t
  | selector startUs endUs hkind => exact .rangeSelector E startUs endUs
  | rangeFn startUs endUs evals hkind =>
    rw [← decodeSorted_of_points]
    exact .decodeSorted hrow Pushdown.pointsSampled (.of_points
      (Pushdown.rangeRows_sublist hrow).subperm fun r => Pushdown.series_of_mem_rangeRows) E
  | aggregateOf inner startUs endUs evals op modifier =>
    exact .rangeAggregateOf hrow inner.pointsSampled E _ op modifier
  | aggregate op modifier hinner ih => exact ih.aggregateRangePoints op modifier
  | quantileOf sel rangeUs fnOp q startUs endUs evals =>
    exact .histogramQuantileOf hrow (nodup_perSeriesRangefn E _ fnOp)
      (pointsSampled_rangefn E fnOp rangeUs evals startUs endUs) q
  | quantile q hinner ih => exact ih.histogramQuantileRange q
  | topkOf startUs endUs evals n top modifier hsel =>
    rw [← decodeSorted_of_points]
    exact .decodeSorted hrow Pushdown.pointsSampled (.of_points
      (topkOf_subperm hrow (Pushdown.rangeRows_sublist hrow)) fun r => series_of_mem_topkOf) E
  | topK hkind hinner ih => exact ih.topkRangePoints _ _ _
  | @scalarVector _ _ _ _ op returnBool sel h hside scalar scalarOnLeft startUs endUs hsel =>
    exact .scalarVectorRangeViaSql op returnBool E startUs endUs hrow sel scalar scalarOnLeft
  | @vectorVector _ _ _ op returnBool lsel rsel h startUs endUs hl hr =>
    exact .vectorVectorRangeViaSql op returnBool E startUs endUs hrow lsel rsel
  | @binary _ _ _ _ op returnBool _ _ h hside hinner hmade ih =>
    exact ih.madeOf hmade (resultName_eq op returnBool)

/-- An operator that is no filter strips the names of all series that it keeps. -/
theorem isFilter_or_oneName {lhs rhs : Expr F} {op : BinOp} {returnBool : Bool}
    (hkind : detectQueryKind e = some (.binary op lhs rhs returnBool))
    (hnames : ∀ sel, LosesName e sel → OneName t sel) :
    op.isFilter returnBool = true ∨ ∀ sel, Reaches e sel → OneName t sel := by
  cases hfilter : op.isFilter returnBool with
  | true => exact Or.inl rfl
  | false =>
    refine Or.inr fun sel hsel => ?_
    obtain ⟨side, hside, hsel⟩ := hsel.of_binary hkind
    exact hnames sel (.operator hkind hfilter hside hsel)

/-- **How far an answer is told**: by its names and labels, if labels tell the series that lose
their names; by its labels alone, if they tell all series that the answer keeps. -/
theorem AnswerOf.told {xxh3 : List UInt8 → UInt64} {once : Prop} (hvalid : ValidatedTables xxh3 t)
    (hapart : SpeltApart t) (h : AnswerOf E t e l)
    (hone : once → ∀ sel, Reaches e sel → OneSample t sel)
    (hnames : ∀ sel, LosesName e sel → OneName t sel) :
    Told once (∀ sel, Reaches e sel → OneName t sel) l := by
  induction h with
  | nothing e => exact .nil
  | selector startUs endUs hkind =>
    exact told_rangeSelector hvalid hapart (fun honce => hone honce _ (.selector hkind))
      (fun hlabelled => hlabelled _ (.selector hkind)) E startUs endUs
  | @rangeFn _ sel rangeUs op startUs endUs evals hkind =>
    let inner : Pushdown := .rangeFn sel rangeUs op
    have hsel : Reaches _ inner.sel := .rangeFn hkind
    have hsampled : PointsSampled t inner.sel (inner.rangePoints E t startUs endUs evals) :=
      Pushdown.pointsSampled
    rw [← decodeSorted_of_points]
    exact told_decodeSorted hvalid hapart
      (fun hlabelled => hsampled.labelsTell hvalid.oneRow (hlabelled _ hsel)) (Or.inl fun _ => rfl)
      (fun honce => Pushdown.pointsApart hvalid.oneRow (hone honce _ hsel)) hsampled (.of_points
        (Pushdown.rangeRows_sublist hvalid.oneRow).subperm
        fun r => Pushdown.series_of_mem_rangeRows) E
  | aggregateOf inner startUs endUs evals op modifier =>
    exact told_rangeAggregateOf hvalid.oneRow E _ op modifier _
  | aggregate op modifier hinner ih => exact (grouped_aggregateRangePoints _ op modifier).told
  | quantileOf sel rangeUs fnOp q startUs endUs evals =>
    exact told_orderByTime E (pairwise_histogramQuantileOf hvalid.oneRow
      (nodup_perSeriesRangefn E _ fnOp) q)
  | quantile q hinner ih => exact told_histogramQuantileRange _ q
  | topkOf startUs endUs evals n top modifier hreach =>
    rw [← decodeSorted_of_points]
    exact told_decodeSorted hvalid hapart
      (fun hlabelled => Pushdown.pointsSampled.labelsTell hvalid.oneRow (hlabelled _ hreach))
      (Or.inl fun _ => rfl)
      (fun honce => Pushdown.pointsApart hvalid.oneRow (hone honce _ hreach))
      Pushdown.pointsSampled (.of_points
        (topkOf_subperm hvalid.oneRow (Pushdown.rangeRows_sublist hvalid.oneRow))
        fun r => series_of_mem_topkOf) E
  | topK hkind hinner ih =>
    have htold := ih (fun honce sel hsel => hone honce sel (.topK hkind hsel))
      fun sel hsel => hnames sel (.topK hkind hsel)
    exact (htold.topkRangePoints hvalid hapart (hinner.ofSeries hvalid.oneRow) _ _ _).imp
      fun hlabelled sel hsel => hlabelled sel (.topK hkind hsel)
  | @scalarVector _ _ _ _ op returnBool _ hkind hside scalar scalarOnLeft startUs endUs hsel =>
    exact told_scalarVectorRangeViaSql op returnBool E startUs endUs hvalid hapart
      (fun honce => hone honce _ (.binary hkind hside hsel))
      (fun hlabelled => hlabelled _ (.binary hkind hside hsel))
      (isFilter_or_oneName hkind hnames) scalar scalarOnLeft
  | @vectorVector _ _ _ op returnBool _ _ hkind startUs endUs hl hr =>
    have hlsel := Reaches.binary hkind (Or.inl rfl)
      (.selector (detectQueryKind_of_pureSelector hl))
    exact told_vectorVectorRangeViaSql op returnBool E startUs endUs hvalid hapart
      (fun honce => hone honce _ hlsel)
      (fun honce => hone honce _ (LosesName.matched hkind hl hr).reaches)
      (fun _ => hnames _ (.matched hkind hl hr)) (fun hlabelled => hlabelled _ hlsel)
      (isFilter_or_oneName hkind hnames)
  | @binary _ _ _ side op returnBool _ _ hkind hside hinner hmade ih =>
    have htold := ih (fun honce sel hsel => hone honce sel (.binary hkind hside hsel))
      fun sel hsel => hnames sel (.binary hkind hside hsel)
    have hname : (∀ n, resultName op returnBool n = n) ∨ ∀ sel, Reaches side sel → OneName t sel :=
      (isFilter_or_oneName hkind hnames).imp resultName_of_isFilter
        fun hlabelled sel hsel => hlabelled sel (.binary hkind hside hsel)
    exact (htold.madeOf hmade hname).imp
      fun hlabelled sel hsel => hlabelled sel (.binary hkind hside hsel)

end Told

/-! ### What every answer has -/

/-- A series with two samples at the epoch and one a second on. -/
def sentTwice : Tables Whole :=
  let up := registeredUp (.ofList [("job", "api")])
  ⟨[⟨up.seriesId, 0, .num 1⟩, ⟨up.seriesId, 0, .num 2⟩, ⟨up.seriesId, 1000000, .num 3⟩], [up]⟩

theorem validatedTables_sentTwice : ValidatedTables sumHash sentTwice := by
  refine ⟨by simp [OneRowPerSeries, sentTwice], fun s hs => ?_⟩
  rw [List.mem_singleton.mp hs]
  exact ⟨by decide, by decide +kernel, rfl⟩

/-- The first microsecond with a date. -/
def firstUs : ℤ := minSecs * 1000000

/-- The last microsecond with a date. -/
def lastUs : ℤ := (maxSecs + 1) * 1000000 - 1

section Necessary

variable {sel : VectorSelector}

omit [F64 F] in
/-- **What a selector accepts over all windows** is what it accepts in the greatest one. -/
theorem runSelectorQuery_perm_selectedRows (E : Sql.Engine) (t : Tables F)
    (sel : VectorSelector) :
    (runSelectorQuery E t sel firstUs lastUs).Perm ((selectedRows t sel).map seriesRow) := by
  refine (runSelectorQuery_perm E t sel firstUs lastUs).trans (List.Perm.of_eq ?_)
  refine congrArg (List.map seriesRow) (List.filter_congr fun r _ => ?_)
  have hwindow : (timestampBetween firstUs lastUs r.1).holds =
      decide (InRangeMicros r.1.timestamp) := by
    rw [Bool.eq_iff_iff, timestampBetween_holds, usToTsLit_micros, usToTsLit_micros,
      if_pos (by decide), if_pos (by decide), decide_eq_true_eq, InRangeMicros]
    exact and_congr_right fun _ => Int.le_sub_one_iff
  rw [selectorWhere_holds, hwindow, Bool.and_right_comm]

omit [F64 F] in
/-- **Rows that are collected into well-formed series** are at different timestamps where they have
one key. -/
theorem pairwise_of_byTime {rows : List (SeriesRow F)}
    (h : ∀ s ∈ (groupRowsBySeries rows).values, (s.points.map Prod.fst).Pairwise (· < ·)) :
    rows.Pairwise fun a b => seriesKey a.metricName a.labels = seriesKey b.metricName b.labels →
      a.tsUs ≠ b.tsUs := by
  refine List.pairwise_iff_forall_sublist.mpr fun {a b} hab hkey => ?_
  have ha : a ∈ rows := hab.subset (List.mem_cons_self ..)
  have htimes := h _ (mem_groupRowsBySeries.mpr ⟨a, ha, rfl⟩)
  rw [map_fst_points_collected, List.pairwise_map] at htimes
  have hsub := hab.filter fun r => decide
    (seriesKey r.metricName r.labels = seriesKey a.metricName a.labels)
  rw [List.filter_eq_self.mpr (by simp [hkey])] at hsub
  exact (List.pairwise_iff_forall_sublist.mp htimes hsub).ne

omit [F64 F] in
/-- **One sample of a series at a timestamp** is what keeps the samples of a selector well
formed. -/
theorem oneSample_of_wellFormed (h : WellFormed (rangeSelector E t sel firstUs lastUs)) :
    OneSample t sel := by
  have hrows := (pairwise_of_byTime h.byTime).perm (runSelectorQuery_perm_selectedRows E t sel)
    fun {a b} hab hkey => (hab hkey.symm).symm
  refine (List.pairwise_map.mp hrows).imp fun {r r'} hne hseries => hne ?_
  rw [seriesRow, seriesRow, hseries]

/-- **An infinite literal** is not handed to the query. -/
theorem binaryPushdown_inf (hinf : F64.isFinite (F64.inf : F) = false) (e : Expr F) :
    binaryPushdown e (.numberLiteral (F64.inf : F)) = none := by
  have hscalar : pickScalar (.numberLiteral (F64.inf : F)) = none := by
    rw [pickScalar, hinf]
    rfl
  have hpure : pureSelector (.numberLiteral (F64.inf : F)) = none := rfl
  rw [binaryPushdown, scalarVectorPair, hscalar, hpure]
  cases pickScalar e <;> cases pureSelector e <;> rfl

/-- **An infinite literal** is added in the program, and strips the names. -/
theorem evaluateRange_add_inf (hinf : F64.isFinite (F64.inf : F) = false) (E : Sql.Engine)
    (t : Tables F) (sel : VectorSelector) (startUs endUs stepUs : ℤ) :
    evaluateRange E t startUs endUs stepUs
        (.binary .add (.vectorSelector sel) (.numberLiteral F64.inf) none) =
      .ok (applyScalarVectorRange F64.inf (rangeSelector E t sel startUs endUs) .add false
        false) := by
  have hselector : detectQueryKind (F := F) (.vectorSelector sel) = some (.selector sel) := rfl
  rw [evaluateRange_binary rfl, binaryPushdown_inf hinf, evaluateRange_selector hselector]
  rfl

omit [F64 F] in
/-- A series of the rows of a selector has its name and its labels. -/
theorem exists_mem_rangeSelector {xxh3 : List UInt8 → UInt64} (hvalid : ValidatedTables xxh3 t)
    (hapart : SpeltApart t) (E : Sql.Engine) {r : SampleRow F × Skaldberg.SeriesRow}
    (hr : r ∈ selectedRows t sel) :
    ∃ s ∈ rangeSelector E t sel firstUs lastUs, s.metricName = r.2.metricName ∧
      s.labels = r.2.labels := by
  have hperm := runSelectorQuery_perm_selectedRows E t sel
  have hpart : ∀ x ∈ selectedRows t sel,
      PartOf t (fun _ => true) x.2.metricName x.2.labels := by
    intro x hx
    obtain ⟨⟨hsample, hs, hid⟩, -, -, hrange⟩ := mem_selectedRows.mp hx
    exact partOf_series (mem_sampledSeries.mpr ⟨hs, x.1, hsample, hid, hrange⟩)
  have hrow : seriesRow r ∈ runSelectorQuery E t sel firstUs lastUs :=
    hperm.mem_iff.mpr (List.mem_map_of_mem hr)
  obtain ⟨row, hmem, hkey, hcollected⟩ := exists_row_of_collected hrow
  obtain ⟨x, hx, rfl⟩ := List.mem_map.mp (hperm.mem_iff.mp hmem)
  obtain ⟨hname, hlabels⟩ := ((hpart r hr).seriesKey_eq_iff hvalid hapart (hpart x hx)).mp hkey
  exact ⟨_, mem_groupRowsBySeries.mpr ⟨_, hrow, hcollected.symm⟩, hname.symm, hlabels.symm⟩

/-- A sum keeps all series with points, without their names. -/
theorem map_name_labels_add {l : List (RangePoints F)} (h : ∀ s ∈ l, s.points ≠ []) (scalar : F) :
    (applyScalarVectorRange scalar l .add false false).map (fun s => (s.metricName, s.labels)) =
      l.map fun s => ("", s.labels) := by
  rw [applyScalarVectorRange, List.filter_eq_self.mpr, List.map_map]
  · rfl
  · intro s hs
    obtain ⟨s', hs', rfl⟩ := List.mem_map.mp hs
    obtain ⟨p, points, hpoints⟩ := List.exists_cons_of_ne_nil (h s' hs')
    rw [hpoints]
    rfl

/-- **One series with given labels** is what keeps a sum with an infinite literal well formed. -/
theorem oneName_of_wellFormed {xxh3 : List UInt8 → UInt64} (hvalid : ValidatedTables xxh3 t)
    (hapart : SpeltApart t) (h : WellFormed (applyScalarVectorRange F64.inf
      (rangeSelector E t sel firstUs lastUs) .add false false)) : OneName t sel := by
  intro r hr r' hr' hlabels
  have hnodup : ((rangeSelector E t sel firstUs lastUs).map RangePoints.labels).Nodup := by
    have hdistinct := h.distinct
    rw [map_name_labels_add] at hdistinct
    · refine List.Nodup.of_map (fun labels => ("", labels)) ?_
      rw [List.map_map]
      exact hdistinct
    · intro s hs
      obtain ⟨-, -, -, -, hpoints⟩ := exists_row_of_mem_groupRowsBySeries hs
      exact hpoints
  obtain ⟨s, hs, hname, hl⟩ := exists_mem_rangeSelector hvalid hapart E hr
  obtain ⟨s', hs', hname', hl'⟩ := exists_mem_rangeSelector hvalid hapart E hr'
  have hsame : s = s' := List.inj_on_of_nodup_map hnodup hs hs' (by rw [hl, hl', hlabels])
  refine hvalid.series_eq (mem_selectedRows.mp hr).1.2.1 (mem_selectedRows.mp hr').1.2.1 ?_ hlabels
  rw [← hname, ← hname', hsame]

end Necessary

/-! ### When every answer is well formed -/

section Matrices

variable {xxh3 : List UInt8 → UInt64} (hvalid : ValidatedTables xxh3 t) (hapart : SpeltApart t)
include hvalid hapart

/-- **Unambiguous selectors are answered with well-formed matrices.** -/
theorem wellFormed_evaluateRange {e : Expr F} {l : List (RangePoints F)}
    (hl : evaluateRange E t startUs endUs stepUs e = .ok l)
    (hsel : ∀ sel, Reaches e sel → Unambiguous t sel) : WellFormed l :=
  ((answerOf_evaluateRange e hl).told hvalid hapart (fun _ sel h => (hsel sel h).oneSample)
    fun sel h => (hsel sel h.reaches).oneName).wellFormed trivial

/-- **A selector that is not unambiguous** is answered with a matrix that is not well formed, or its
sum with an infinite literal is. -/
theorem unambiguous_of_wellFormed (hinf : F64.isFinite (F64.inf : F) = false)
    {sel : VectorSelector} (h : ∀ e : Expr F, (∀ sel', Reaches e sel' → sel' = sel) →
      ∀ startUs endUs stepUs l, evaluateRange E t startUs endUs stepUs e = .ok l → WellFormed l) :
    Unambiguous t sel := by
  refine ⟨oneSample_of_wellFormed (E := E) ?_, oneName_of_wellFormed (E := E) hvalid hapart ?_⟩
  · exact h _ (fun sel' => reaches_vectorSelector) firstUs lastUs 1 _ (evaluateRange_selector rfl)
  · exact h _ (fun sel' hreach => reaches_vectorSelector (reaches_add_literal hreach)) firstUs
      lastUs 1 _ (evaluateRange_add_inf hinf E t sel firstUs lastUs 1)

end Matrices

/-- **The matrix of every expression on some selectors is well formed exactly when these selectors
are unambiguous**, where labels are spelt apart. -/
theorem wellFormed_iff {xxh3 : List UInt8 → UInt64} (hvalid : ValidatedTables xxh3 t)
    (hapart : SpeltApart t) (hinf : F64.isFinite (F64.inf : F) = false) (E : Sql.Engine)
    (S : Set VectorSelector) :
    (∀ e : Expr F, (∀ sel, Reaches e sel → sel ∈ S) → ∀ startUs endUs stepUs l,
      evaluateRange E t startUs endUs stepUs e = .ok l → WellFormed l) ↔
        ∀ sel ∈ S, Unambiguous t sel := by
  constructor
  · intro h sel hsel
    refine unambiguous_of_wellFormed (E := E) hvalid hapart hinf fun e hreach => ?_
    exact h e fun sel' hs => hreach sel' hs ▸ hsel
  · intro h e hreach startUs endUs stepUs l hl
    exact wellFormed_evaluateRange hvalid hapart hl fun sel hs => h sel (hreach sel hs)

/-- What stands on `up` alone is well formed over two jobs. -/
theorem wellFormed_iff_two_jobs :
    ValidatedTables sumHash twoJobs ∧ ∀ (E : Sql.Engine) (e : Expr Whole),
      (∀ sel, Reaches e sel → sel ∈ ({anyUp} : Set VectorSelector)) →
        ∀ startUs endUs stepUs l, evaluateRange E twoJobs startUs endUs stepUs e = .ok l →
          WellFormed l := by
  have hvalid : ValidatedTables sumHash twoJobs :=
    validatedTables_twoSeries (by decide +kernel) (by decide +kernel) (by decide +kernel)
  refine ⟨hvalid, fun E => (wellFormed_iff hvalid ?_ (by decide) E {anyUp}).mpr ?_⟩
  · exact speltApart_of_commaFree hvalid (by decide +kernel)
  · rintro _ rfl
    decide +kernel

end Skaldberg.Prometheus
