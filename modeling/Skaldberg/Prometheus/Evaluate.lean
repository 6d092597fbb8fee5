import Skaldberg.Prometheus.Binary

/-!
# Evaluation

The evaluators of an expression, at one timestamp and over a range. Each looks at the plan of
the node (`Skaldberg.Prometheus.detectQueryKind`) and, for an aggregation, a cut or a quantile, at
whether what stands inside can be evaluated by the same query (`pushdown`); otherwise it evaluates
the inner expression and works on the points. The recursion is through the plan: an inner
expression is a part of the node (`sizeOf_inner_lt`).

An instant query is never refused; a matrix query over a range function is, when it has too many
evaluation timestamps. Failures of the query engine itself are not part of the model.
-/

namespace Skaldberg.Prometheus

variable {F : Type}

/-! ### The inner expressions of a plan -/

/-- The expressions that a plan may evaluate. -/
def QueryKind.inners : QueryKind F → List (Expr F)
  | .selector _ => []
  | .rangeFn _ _ _ => []
  | .aggregate _ _ inner => [inner]
  | .histogramQuantile _ inner => [inner]
  | .topK _ _ _ inner => [inner]
  | .binary _ lhs rhs _ => [lhs, rhs]

variable [F64 F]

/-- **What a shape is planned as**: the four nodes that have a plan of their own, each with the
plans it may get. -/
theorem detectShape_eq_some {e : Expr F} {kind : QueryKind F} (h : detectShape e = some kind) :
    (∃ op inner param modifier, e = .aggregate op inner param modifier ∧
      ((∃ n top, kind = .topK n top modifier inner) ∨
        ∃ op', kind = .aggregate op' modifier inner)) ∨
    (∃ op lhs rhs modifier op' returnBool, e = .binary op lhs rhs modifier ∧
      kind = .binary op' lhs rhs returnBool) ∨
    (∃ func q inner, e = .call func [.numberLiteral q, inner] ∧
      kind = .histogramQuantile q inner) ∨
    ∃ func vs range args op, e = .call func (.matrixSelector vs range :: args) ∧
      kind = .rangeFn vs (asI64 range) op := by
  cases e with
  | aggregate op inner param modifier =>
    refine Or.inl ⟨op, inner, param, modifier, rfl, ?_⟩
    rcases Option.or_eq_some_iff.mp h with h | ⟨-, h⟩
    · rw [detectTopK.eq_def] at h
      split at h
      · obtain ⟨-, hkind⟩ := Option.ite_none_right_eq_some.mp h
        cases hkind
        exact Or.inl ⟨_, _, rfl⟩
      · cases h
    · obtain ⟨op', -, rfl⟩ := Option.map_eq_some_iff.mp h
      exact Or.inr ⟨op', rfl⟩
  | binary op lhs rhs modifier =>
    obtain ⟨op', -, rfl⟩ := Option.map_eq_some_iff.mp h
    exact Or.inr (Or.inl ⟨op, lhs, rhs, modifier, op', _, rfl, rfl⟩)
  | call func args =>
    rcases Option.or_eq_some_iff.mp h with h | ⟨-, h⟩
    · rw [detectHistogramQuantile.eq_def] at h
      split at h
      · obtain ⟨-, hkind⟩ := Option.ite_none_right_eq_some.mp h
        cases hkind
        exact Or.inr (Or.inr (Or.inl ⟨func, _, _, rfl, rfl⟩))
      · cases h
    · rw [detectRangeFn.eq_def] at h
      split at h
      · obtain ⟨op, -, rfl⟩ := Option.map_eq_some_iff.mp h
        exact Or.inr (Or.inr (Or.inr ⟨func, _, _, _, op, rfl, rfl⟩))
      · cases h
  | _ => cases h

/-- **A plan evaluates parts of the node.** -/
theorem sizeOf_inner_lt {e e' : Expr F} {kind : QueryKind F} (h : detectQueryKind e = some kind)
    (he' : e' ∈ kind.inners) : sizeOf e' < sizeOf e := by
  rcases detectQueryKind_eq_some h with h | ⟨sel, -, rfl⟩
  · rcases detectShape_eq_some h with ⟨op, inner, param, modifier, rfl, hkind⟩ |
      ⟨op, lhs, rhs, modifier, op', returnBool, rfl, rfl⟩ | ⟨func, q, inner, rfl, rfl⟩ |
      ⟨func, vs, range, args, op, rfl, rfl⟩
    · have hinners : kind.inners = [inner] := by
        rcases hkind with ⟨n, top, rfl⟩ | ⟨op', rfl⟩ <;> rfl
      rw [hinners, List.mem_singleton] at he'
      simp only [he', Expr.aggregate.sizeOf_spec]
      omega
    · simp only [QueryKind.inners, List.mem_cons, List.not_mem_nil, or_false] at he'
      simp only [Expr.binary.sizeOf_spec]
      rcases he' with rfl | rfl <;> omega
    · rw [QueryKind.inners, List.mem_singleton] at he'
      simp only [he', Expr.call.sizeOf_spec, List.cons.sizeOf_spec]
      omega
    · cases he'
  · cases he'

/-- **Induction along plans**: what holds of an expression as soon as it holds of those its plan
evaluates holds of every expression. -/
theorem plan_induction {P : Expr F → Prop}
    (step : ∀ e, (∀ kind, detectQueryKind e = some kind → ∀ e' ∈ kind.inners, P e') → P e)
    (e : Expr F) : P e :=
  step e fun _ hkind e' he' =>
    have : sizeOf e' < sizeOf e := sizeOf_inner_lt hkind he'
    plan_induction step e'
termination_by sizeOf e

/-- A plan that is a selector is the first one below. -/
theorem extractSelector_of_selector {e : Expr F} {sel : VectorSelector}
    (h : detectQueryKind e = some (.selector sel)) : extractSelector e = some sel := by
  rcases detectQueryKind_eq_some h with hshape | ⟨sel', hsel, hk⟩
  · rcases detectShape_eq_some hshape with ⟨_, _, _, _, -, ⟨_, _, hk⟩ | ⟨_, hk⟩⟩ |
      ⟨_, _, _, _, _, _, -, hk⟩ | ⟨_, _, _, -, hk⟩ | ⟨_, _, _, _, _, -, hk⟩ <;> cases hk
  · cases hk
    exact hsel

/-! ### Pushing an inner expression into the query -/

/-- What a query can evaluate besides the outer operation. -/
inductive Pushdown
  /-- A selector. -/
  | selector (sel : VectorSelector)
  /-- A range function of a selector. -/
  | rangeFn (sel : VectorSelector) (rangeUs : ℤ) (op : RangeFnOp)

/-- What is pushed into the query of an aggregation or a cut. -/
def pushdown (modifier : Option LabelModifier) (inner : Expr F) : Option Pushdown :=
  if aggregateCanPushDown modifier then
    match pureSelector inner with
    | some sel => some (.selector sel)
    | none =>
      match detectQueryKind inner with
      | some (.rangeFn sel rangeUs op) => some (.rangeFn sel rangeUs op)
      | _ => none
  else none

/-- What is pushed into the query of a quantile: a range function, for a quantile strictly
between 0 and 1. -/
def quantilePushdown (quantile : F) (inner : Expr F) : Option (VectorSelector × ℤ × RangeFnOp) :=
  if F64.isFinite quantile && F64.lt (F64.ofInt 0) quantile && F64.lt quantile (F64.ofInt 1) then
    match detectQueryKind inner with
    | some (.rangeFn sel rangeUs op) => some (sel, rangeUs, op)
    | _ => none
  else none

/-- What is pushed into the query of a binary operator. -/
inductive BinaryPushdown (F : Type)
  /-- A scalar and a selector. -/
  | scalarVector (scalar : F) (sel : VectorSelector) (scalarOnLeft : Bool)
  /-- Two selectors. -/
  | vectorVector (lsel rsel : VectorSelector)

/-- What is pushed into the query of a binary operator between two expressions. -/
def binaryPushdown (lhs rhs : Expr F) : Option (BinaryPushdown F) :=
  match scalarVectorPair lhs rhs with
  | some (scalar, sel, scalarOnLeft) => some (.scalarVector scalar sel scalarOnLeft)
  | none =>
    match pureSelector lhs, pureSelector rhs with
    | some lsel, some rsel => some (.vectorVector lsel rsel)
    | _, _ => none

/-! ### Operands -/

/-- The value of an operand of a binary operator. -/
inductive Side (F α : Type)
  /-- A literal. -/
  | scalar (v : F)
  /-- The points of an expression. -/
  | vector (points : α)

/-- `eval_side_instant`, `eval_side_range`: a literal is a scalar, anything else is evaluated. -/
def evalSide {α : Type} (expr : Expr F) (evaluated : Except PromError α) :
    Except PromError (Side F α) :=
  match expr with
  | .numberLiteral val => .ok (.scalar val)
  | _ => evaluated.map .vector

/-- The operator on two operands at one timestamp; two scalars make no series. -/
def combineInstant (op : BinOp) (returnBool : Bool) :
    Side F (List (InstantPoint F)) → Side F (List (InstantPoint F)) → List (InstantPoint F)
  | .scalar s, .vector pts => applyScalarVectorInstant s pts op returnBool true
  | .vector pts, .scalar s => applyScalarVectorInstant s pts op returnBool false
  | .vector l, .vector r => applyVectorVectorInstant l r op returnBool
  | .scalar _, .scalar _ => []

/-- The operator on two operands over a range. -/
def combineRange (op : BinOp) (returnBool : Bool) :
    Side F (List (RangePoints F)) → Side F (List (RangePoints F)) → List (RangePoints F)
  | .scalar s, .vector series => applyScalarVectorRange s series op returnBool true
  | .vector series, .scalar s => applyScalarVectorRange s series op returnBool false
  | .vector l, .vector r => applyVectorVectorRange l r op returnBool
  | .scalar _, .scalar _ => []

/-! ### The evaluators -/

/-- `evaluate_instant`. -/
def evaluateInstant (E : Sql.Engine) (t : Tables F) (timeUs : ℤ) (expr : Expr F) :
    Except PromError (List (InstantPoint F)) :=
  match _h : detectQueryKind expr with
  | some (.selector sel) => .ok (instantSelector E t sel timeUs)
  | some (.rangeFn sel rangeUs op) => .ok (instantRangeFnViaSql E t sel rangeUs op timeUs)
  | some (.aggregate op modifier inner) =>
    match pushdown modifier inner with
    | some (.selector sel) => .ok (instantAggregateViaSql E t sel op modifier timeUs)
    | some (.rangeFn sel rangeUs fnOp) =>
      .ok (instantAggregateOverRangefnViaSql E t sel rangeUs fnOp op modifier timeUs)
    | none => do
      let points ← evaluateInstant E t timeUs inner
      return aggregateInstantPoints points op modifier timeUs
  | some (.histogramQuantile quantile inner) =>
    match quantilePushdown quantile inner with
    | some (sel, rangeUs, fnOp) =>
      .ok (instantHistogramQuantileViaSql E t sel rangeUs fnOp quantile timeUs)
    | none => do
      let points ← evaluateInstant E t timeUs inner
      return histogramQuantileInstant points quantile timeUs
  | some (.topK n top modifier inner) =>
    match pushdown modifier inner with
    | some (.selector sel) => .ok (instantTopkViaSql E t sel n top modifier timeUs)
    | some (.rangeFn sel rangeUs fnOp) =>
      .ok (instantTopkOverRangefnViaSql E t sel rangeUs fnOp n top modifier timeUs)
    | none => do
      let points ← evaluateInstant E t timeUs inner
      return topkInstantPoints points n top modifier
  | some (.binary op lhs rhs returnBool) =>
    match binaryPushdown lhs rhs with
    | some (.scalarVector scalar sel scalarOnLeft) =>
      .ok (scalarVectorInstantViaSql E t scalar sel op returnBool scalarOnLeft timeUs)
    | some (.vectorVector lsel rsel) =>
      .ok (vectorVectorInstantViaSql E t lsel rsel op returnBool timeUs)
    | none => do
      let left ← evalSide lhs (evaluateInstant E t timeUs lhs)
      let right ← evalSide rhs (evaluateInstant E t timeUs rhs)
      return combineInstant op returnBool left right
  | none => .ok []
termination_by sizeOf expr
decreasing_by all_goals exact sizeOf_inner_lt ‹_› (by simp [QueryKind.inners])

/-- `evaluate_range`. -/
def evaluateRange (E : Sql.Engine) (t : Tables F) (startUs endUs stepUs : ℤ) (expr : Expr F) :
    Except PromError (List (RangePoints F)) :=
  match _h : detectQueryKind expr with
  | some (.selector sel) => .ok (rangeSelector E t sel startUs endUs)
  | some (.rangeFn sel rangeUs op) => rangeRangeFnViaSql E t sel rangeUs op startUs endUs stepUs
  | some (.aggregate op modifier inner) =>
    match pushdown modifier inner with
    | some (.selector sel) => .ok (rangeAggregateViaSql E t sel op modifier startUs endUs)
    | some (.rangeFn sel rangeUs fnOp) =>
      rangeAggregateOverRangefnViaSql E t sel rangeUs fnOp op modifier startUs endUs stepUs
    | none => do
      let series ← evaluateRange E t startUs endUs stepUs inner
      return aggregateRangePoints series op modifier
  | some (.histogramQuantile quantile inner) =>
    match quantilePushdown quantile inner with
    | some (sel, rangeUs, fnOp) =>
      rangeHistogramQuantileViaSql E t sel rangeUs fnOp quantile startUs endUs stepUs
    | none => do
      let series ← evaluateRange E t startUs endUs stepUs inner
      return histogramQuantileRange series quantile
  | some (.topK n top modifier inner) =>
    match pushdown modifier inner with
    | some (.selector sel) => .ok (rangeTopkViaSql E t sel n top modifier startUs endUs)
    | some (.rangeFn sel rangeUs fnOp) =>
      rangeTopkOverRangefnViaSql E t sel rangeUs fnOp n top modifier startUs endUs stepUs
    | none => do
      let series ← evaluateRange E t startUs endUs stepUs inner
      return topkRangePoints series n top modifier
  | some (.binary op lhs rhs returnBool) =>
    match binaryPushdown lhs rhs with
    | some (.scalarVector scalar sel scalarOnLeft) =>
      .ok (scalarVectorRangeViaSql E t scalar sel op returnBool scalarOnLeft startUs endUs)
    | some (.vectorVector lsel rsel) =>
      .ok (vectorVectorRangeViaSql E t lsel rsel op returnBool startUs endUs)
    | none => do
      let left ← evalSide lhs (evaluateRange E t startUs endUs stepUs lhs)
      let right ← evalSide rhs (evaluateRange E t startUs endUs stepUs rhs)
      return combineRange op returnBool left right
  | none => .ok []
termination_by sizeOf expr
decreasing_by all_goals exact sizeOf_inner_lt ‹_› (by simp [QueryKind.inners])

/-! ### One equation for each plan -/

section Equations

variable {E : Sql.Engine} {t : Tables F} {timeUs startUs endUs stepUs : ℤ} {e inner : Expr F}

theorem evaluateInstant_none (h : detectQueryKind e = none) :
    evaluateInstant E t timeUs e = .ok [] := by
  rw [evaluateInstant]
  split <;> rename_i h' <;> rw [h] at h' <;> cases h'

theorem evaluateInstant_selector {sel : VectorSelector}
    (h : detectQueryKind e = some (.selector sel)) :
    evaluateInstant E t timeUs e = .ok (instantSelector E t sel timeUs) := by
  rw [evaluateInstant]
  split <;> rename_i h' <;> rw [h] at h' <;> cases h'
  rfl

theorem evaluateInstant_rangeFn {sel : VectorSelector} {rangeUs : ℤ} {op : RangeFnOp}
    (h : detectQueryKind e = some (.rangeFn sel rangeUs op)) :
    evaluateInstant E t timeUs e = .ok (instantRangeFnViaSql E t sel rangeUs op timeUs) := by
  rw [evaluateInstant]
  split <;> rename_i h' <;> rw [h] at h' <;> cases h'
  rfl

theorem evaluateInstant_aggregate {op : AggOp} {modifier : Option LabelModifier}
    (h : detectQueryKind e = some (.aggregate op modifier inner)) :
    evaluateInstant E t timeUs e =
      match pushdown modifier inner with
      | some (.selector sel) => .ok (instantAggregateViaSql E t sel op modifier timeUs)
      | some (.rangeFn sel rangeUs fnOp) =>
        .ok (instantAggregateOverRangefnViaSql E t sel rangeUs fnOp op modifier timeUs)
      | none => do
        let points ← evaluateInstant E t timeUs inner
        return aggregateInstantPoints points op modifier timeUs := by
  rw [evaluateInstant]
  split <;> rename_i h' <;> rw [h] at h' <;> cases h'
  rfl

theorem evaluateInstant_histogramQuantile {quantile : F}
    (h : detectQueryKind e = some (.histogramQuantile quantile inner)) :
    evaluateInstant E t timeUs e =
      match quantilePushdown quantile inner with
      | some (sel, rangeUs, fnOp) =>
        .ok (instantHistogramQuantileViaSql E t sel rangeUs fnOp quantile timeUs)
      | none => do
        let points ← evaluateInstant E t timeUs inner
        return histogramQuantileInstant points quantile timeUs := by
  rw [evaluateInstant]
  split <;> rename_i h' <;> rw [h] at h' <;> cases h'
  rfl

theorem evaluateInstant_topK {n : ℕ} {top : Bool} {modifier : Option LabelModifier}
    (h : detectQueryKind e = some (.topK n top modifier inner)) :
    evaluateInstant E t timeUs e =
      match pushdown modifier inner with
      | some (.selector sel) => .ok (instantTopkViaSql E t sel n top modifier timeUs)
      | some (.rangeFn sel rangeUs fnOp) =>
        .ok (instantTopkOverRangefnViaSql E t sel rangeUs fnOp n top modifier timeUs)
      | none => do
        let points ← evaluateInstant E t timeUs inner
        return topkInstantPoints points n top modifier := by
  rw [evaluateInstant]
  split <;> rename_i h' <;> rw [h] at h' <;> cases h'
  rfl

theorem evaluateInstant_binary {op : BinOp} {lhs rhs : Expr F} {returnBool : Bool}
    (h : detectQueryKind e = some (.binary op lhs rhs returnBool)) :
    evaluateInstant E t timeUs e =
      match binaryPushdown lhs rhs with
      | some (.scalarVector scalar sel scalarOnLeft) =>
        .ok (scalarVectorInstantViaSql E t scalar sel op returnBool scalarOnLeft timeUs)
      | some (.vectorVector lsel rsel) =>
        .ok (vectorVectorInstantViaSql E t lsel rsel op returnBool timeUs)
      | none => do
        let left ← evalSide lhs (evaluateInstant E t timeUs lhs)
        let right ← evalSide rhs (evaluateInstant E t timeUs rhs)
        return combineInstant op returnBool left right := by
  rw [evaluateInstant]
  split <;> rename_i h' <;> rw [h] at h' <;> cases h'
  rfl


theorem evaluateRange_none (h : detectQueryKind e = none) :
    evaluateRange E t startUs endUs stepUs e = .ok [] := by
  rw [evaluateRange]
  split <;> rename_i h' <;> rw [h] at h' <;> cases h'

theorem evaluateRange_selector {sel : VectorSelector}
    (h : detectQueryKind e = some (.selector sel)) :
    evaluateRange E t startUs endUs stepUs e = .ok (rangeSelector E t sel startUs endUs) := by
  rw [evaluateRange]
  split <;> rename_i h' <;> rw [h] at h' <;> cases h'
  rfl

theorem evaluateRange_rangeFn {sel : VectorSelector} {rangeUs : ℤ} {op : RangeFnOp}
    (h : detectQueryKind e = some (.rangeFn sel rangeUs op)) :
    evaluateRange E t startUs endUs stepUs e =
      rangeRangeFnViaSql E t sel rangeUs op startUs endUs stepUs := by
  rw [evaluateRange]
  split <;> rename_i h' <;> rw [h] at h' <;> cases h'
  rfl

theorem evaluateRange_aggregate {op : AggOp} {modifier : Option LabelModifier}
    (h : detectQueryKind e = some (.aggregate op modifier inner)) :
    evaluateRange E t startUs endUs stepUs e =
      match pushdown modifier inner with
      | some (.selector sel) => .ok (rangeAggregateViaSql E t sel op modifier startUs endUs)
      | some (.rangeFn sel rangeUs fnOp) =>
        rangeAggregateOverRangefnViaSql E t sel rangeUs fnOp op modifier startUs endUs stepUs
      | none => do
        let series ← evaluateRange E t startUs endUs stepUs inner
        return aggregateRangePoints series op modifier := by
  rw [evaluateRange]
  split <;> rename_i h' <;> rw [h] at h' <;> cases h'
  rfl

theorem evaluateRange_histogramQuantile {quantile : F}
    (h : detectQueryKind e = some (.histogramQuantile quantile inner)) :
    evaluateRange E t startUs endUs stepUs e =
      match quantilePushdown quantile inner with
      | some (sel, rangeUs, fnOp) =>
        rangeHistogramQuantileViaSql E t sel rangeUs fnOp quantile startUs endUs stepUs
      | none => do
        let series ← evaluateRange E t startUs endUs stepUs inner
        return histogramQuantileRange series quantile := by
  rw [evaluateRange]
  split <;> rename_i h' <;> rw [h] at h' <;> cases h'
  rfl

theorem evaluateRange_topK {n : ℕ} {top : Bool} {modifier : Option LabelModifier}
    (h : detectQueryKind e = some (.topK n top modifier inner)) :
    evaluateRange E t startUs endUs stepUs e =
      match pushdown modifier inner with
      | some (.selector sel) => .ok (rangeTopkViaSql E t sel n top modifier startUs endUs)
      | some (.rangeFn sel rangeUs fnOp) =>
        rangeTopkOverRangefnViaSql E t sel rangeUs fnOp n top modifier startUs endUs stepUs
      | none => do
        let series ← evaluateRange E t startUs endUs stepUs inner
        return topkRangePoints series n top modifier := by
  rw [evaluateRange]
  split <;> rename_i h' <;> rw [h] at h' <;> cases h'
  rfl

theorem evaluateRange_binary {op : BinOp} {lhs rhs : Expr F} {returnBool : Bool}
    (h : detectQueryKind e = some (.binary op lhs rhs returnBool)) :
    evaluateRange E t startUs endUs stepUs e =
      match binaryPushdown lhs rhs with
      | some (.scalarVector scalar sel scalarOnLeft) =>
        .ok (scalarVectorRangeViaSql E t scalar sel op returnBool scalarOnLeft startUs endUs)
      | some (.vectorVector lsel rsel) =>
        .ok (vectorVectorRangeViaSql E t lsel rsel op returnBool startUs endUs)
      | none => do
        let left ← evalSide lhs (evaluateRange E t startUs endUs stepUs lhs)
        let right ← evalSide rhs (evaluateRange E t startUs endUs stepUs rhs)
        return combineRange op returnBool left right := by
  rw [evaluateRange]
  split <;> rename_i h' <;> rw [h] at h' <;> cases h'
  rfl

/-- **An expression is evaluated by its plan.** -/
theorem evaluateInstant_congr {e e' : Expr F} (h : detectQueryKind e = detectQueryKind e') :
    evaluateInstant E t timeUs e = evaluateInstant E t timeUs e' := by
  cases hkind : detectQueryKind e' with
  | none => rw [evaluateInstant_none hkind, evaluateInstant_none (h.trans hkind)]
  | some kind =>
    cases kind with
    | selector sel =>
      rw [evaluateInstant_selector hkind, evaluateInstant_selector (h.trans hkind)]
    | rangeFn sel rangeUs op =>
      rw [evaluateInstant_rangeFn hkind, evaluateInstant_rangeFn (h.trans hkind)]
    | aggregate op modifier inner =>
      rw [evaluateInstant_aggregate hkind, evaluateInstant_aggregate (h.trans hkind)]
    | histogramQuantile quantile inner =>
      rw [evaluateInstant_histogramQuantile hkind,
        evaluateInstant_histogramQuantile (h.trans hkind)]
    | topK n top modifier inner =>
      rw [evaluateInstant_topK hkind, evaluateInstant_topK (h.trans hkind)]
    | binary op lhs rhs returnBool =>
      rw [evaluateInstant_binary hkind, evaluateInstant_binary (h.trans hkind)]

theorem evaluateRange_congr {e e' : Expr F} (h : detectQueryKind e = detectQueryKind e') :
    evaluateRange E t startUs endUs stepUs e = evaluateRange E t startUs endUs stepUs e' := by
  cases hkind : detectQueryKind e' with
  | none => rw [evaluateRange_none hkind, evaluateRange_none (h.trans hkind)]
  | some kind =>
    cases kind with
    | selector sel => rw [evaluateRange_selector hkind, evaluateRange_selector (h.trans hkind)]
    | rangeFn sel rangeUs op =>
      rw [evaluateRange_rangeFn hkind, evaluateRange_rangeFn (h.trans hkind)]
    | aggregate op modifier inner =>
      rw [evaluateRange_aggregate hkind, evaluateRange_aggregate (h.trans hkind)]
    | histogramQuantile quantile inner =>
      rw [evaluateRange_histogramQuantile hkind, evaluateRange_histogramQuantile (h.trans hkind)]
    | topK n top modifier inner =>
      rw [evaluateRange_topK hkind, evaluateRange_topK (h.trans hkind)]
    | binary op lhs rhs returnBool =>
      rw [evaluateRange_binary hkind, evaluateRange_binary (h.trans hkind)]

end Equations

end Skaldberg.Prometheus
