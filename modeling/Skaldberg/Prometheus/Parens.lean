import Skaldberg.Prometheus.Evaluate

/-!
# Parentheses

Parentheses should not change what an expression means. `Skaldberg.Prometheus.detectQueryKind` has
no case for them, so an aggregation, a cut, a quantile, a range function or an operator in
parentheses is not recognised any more, and the raw points of its first selector are returned in
its place (`evaluateInstant_paren`, `parens_change_sum`). A number in parentheses is no scalar any
more, and an operator between it and a selector returns nothing.

Parentheses are harmless where the plan is that of the first selector anyway, around a selector in
particular, and where there is no selector to fall back to (`ParenSafe`). To say this in every
place of a larger expression (`Frame`, `plugAll`), two expressions are compared in all that the
evaluators look at (`Alike`), which an aggregation, a quantile, an operator or another pair of
parentheses around them preserves (`Alike.plug`).
-/

namespace Skaldberg.Prometheus

variable {F : Type} [F64 F]

/-- **Parentheses are planned as the first selector below them**, whatever is there. -/
theorem evaluateInstant_paren {E : Sql.Engine} {t : Tables F} {timeUs : ℤ} {e : Expr F}
    {sel : VectorSelector} (h : extractSelector e = some sel) :
    evaluateInstant E t timeUs (.paren e) = .ok (instantSelector E t sel timeUs) :=
  evaluateInstant_selector (by rw [detectQueryKind_paren, h]; rfl)

/-! ### Expressions without a selector -/

/-- What a plan of an expression without a selector evaluates has no selector either. -/
theorem extractSelector_inner {e e' : Expr F} {kind : QueryKind F}
    (h : detectQueryKind e = some kind) (hnone : extractSelector e = none)
    (he' : e' ∈ kind.inners) : extractSelector e' = none := by
  rcases detectQueryKind_eq_some h with h | ⟨sel, hsel, -⟩
  · rcases detectShape_eq_some h with ⟨op, inner, param, modifier, rfl, hkind⟩ |
      ⟨op, lhs, rhs, modifier, op', returnBool, rfl, rfl⟩ | ⟨func, q, inner, rfl, rfl⟩ |
      ⟨func, vs, range, args, op, rfl, rfl⟩
    · have hinners : kind.inners = [inner] := by
        rcases hkind with ⟨n, top, rfl⟩ | ⟨op', rfl⟩ <;> rfl
      rw [hinners, List.mem_singleton] at he'
      rw [extractSelector] at hnone
      exact he' ▸ hnone
    · rw [extractSelector, Option.or_eq_none_iff] at hnone
      simp only [QueryKind.inners, List.mem_cons, List.not_mem_nil, or_false] at he'
      rcases he' with rfl | rfl
      · exact hnone.1
      · exact hnone.2
    · rw [QueryKind.inners, List.mem_singleton] at he'
      simpa [extractSelector, extractSelectorArgs, he'] using hnone
    · cases he'
  · rw [hnone] at hsel
    cases hsel

omit [F64 F] in
/-- An expression without a selector is not a selector. -/
theorem pureSelector_eq_none {e : Expr F} (h : extractSelector e = none) :
    pureSelector e = none := by
  cases hpure : pureSelector e with
  | none => rfl
  | some sel => rw [extractSelector_of_pureSelector hpure] at h; cases h

/-- The range function of a plan that is one. -/
def asRangeFn : Option (QueryKind F) → Option (VectorSelector × ℤ × RangeFnOp)
  | some (.rangeFn sel rangeUs op) => some (sel, rangeUs, op)
  | _ => none

/-- What is pushed down is a selector or a range function. -/
theorem pushdown_eq (modifier : Option LabelModifier) (e : Expr F) :
    pushdown modifier e = ((pureSelector e).map .selector).or
      ((asRangeFn (detectQueryKind e)).map fun x => .rangeFn x.1 x.2.1 x.2.2) := by
  have hcan : aggregateCanPushDown modifier = true := by rcases modifier with _ | _ | _ <;> rfl
  rw [pushdown, if_pos hcan]
  cases pureSelector e with
  | some sel => rfl
  | none =>
    rcases detectQueryKind e with _ | _ | _ | _ | _ | _ | _ <;> rfl

theorem quantilePushdown_eq (q : F) (e : Expr F) :
    quantilePushdown q e =
      if F64.isFinite q && F64.lt (F64.ofInt 0) q && F64.lt q (F64.ofInt 1) then
        asRangeFn (detectQueryKind e)
      else none := by
  rw [quantilePushdown]
  rcases detectQueryKind e with _ | _ | _ | _ | _ | _ | _ <;> rfl

/-- An expression without a selector is not planned as a range function. -/
theorem asRangeFn_eq_none {e : Expr F} (h : extractSelector e = none) :
    asRangeFn (detectQueryKind e) = none := by
  cases hkind : detectQueryKind e with
  | none => rfl
  | some kind =>
    rcases detectQueryKind_eq_some hkind with hshape | ⟨sel', hsel, -⟩
    · rcases detectShape_eq_some hshape with ⟨_, _, _, _, -, ⟨_, _, rfl⟩ | ⟨_, rfl⟩⟩ |
        ⟨_, _, _, _, _, _, -, rfl⟩ | ⟨_, _, _, -, rfl⟩ | ⟨func, vs, range, args, op', rfl, -⟩
      · rfl
      · rfl
      · rfl
      · rfl
      · simp [extractSelector, extractSelectorArgs] at h
    · rw [h] at hsel
      cases hsel

theorem pushdown_eq_none {e : Expr F} (h : extractSelector e = none)
    (modifier : Option LabelModifier) : pushdown modifier e = none := by
  rw [pushdown_eq, pureSelector_eq_none h, asRangeFn_eq_none h]
  rfl

theorem quantilePushdown_eq_none {e : Expr F} (h : extractSelector e = none) (q : F) :
    quantilePushdown q e = none := by
  rw [quantilePushdown_eq, asRangeFn_eq_none h, ite_self]

theorem binaryPushdown_eq_none {lhs rhs : Expr F} (hl : extractSelector lhs = none)
    (hr : extractSelector rhs = none) : binaryPushdown lhs rhs = none := by
  have hpair : scalarVectorPair lhs rhs = none := by
    rw [scalarVectorPair, pureSelector_eq_none hl, pureSelector_eq_none hr]
    cases pickScalar lhs <;> cases pickScalar rhs <;> rfl
  rw [binaryPushdown, hpair, pureSelector_eq_none hl]

omit [F64 F] in
/-- An operand is a literal or what it evaluates to. -/
theorem evalSide_ok {α : Type} (e : Expr F) (a : α) :
    (∃ v, evalSide e (.ok a) = .ok (.scalar v)) ∨ evalSide e (.ok a) = .ok (.vector a) := by
  rw [evalSide.eq_def]
  split
  · exact Or.inl ⟨_, rfl⟩
  · exact Or.inr rfl

/-- **An expression without a selector has no series.** -/
theorem evaluateInstant_of_no_selector (E : Sql.Engine) (t : Tables F) (timeUs : ℤ) :
    ∀ e : Expr F, extractSelector e = none → evaluateInstant E t timeUs e = .ok [] := by
  refine plan_induction fun e ih h => ?_
  cases hkind : detectQueryKind e with
  | none => exact evaluateInstant_none hkind
  | some kind =>
    have hinner : ∀ e' ∈ kind.inners, extractSelector e' = none := fun e' he' =>
      extractSelector_inner hkind h he'
    have ih : ∀ e' ∈ kind.inners, evaluateInstant E t timeUs e' = .ok [] := fun e' he' =>
      ih kind hkind e' he' (hinner e' he')
    cases kind with
    | selector sel => rw [extractSelector_of_selector hkind] at h; cases h
    | rangeFn sel rangeUs op =>
      have hnone := asRangeFn_eq_none h
      rw [hkind] at hnone
      cases hnone
    | aggregate op modifier inner =>
      have hmem : inner ∈ (QueryKind.aggregate op modifier inner).inners :=
        List.mem_singleton_self _
      rw [evaluateInstant_aggregate hkind, pushdown_eq_none (hinner _ hmem), ih _ hmem]
      rfl
    | histogramQuantile quantile inner =>
      have hmem : inner ∈ (QueryKind.histogramQuantile quantile inner).inners :=
        List.mem_singleton_self _
      rw [evaluateInstant_histogramQuantile hkind, quantilePushdown_eq_none (hinner _ hmem),
        ih _ hmem]
      rfl
    | topK n top modifier inner =>
      have hmem : inner ∈ (QueryKind.topK n top modifier inner).inners :=
        List.mem_singleton_self _
      rw [evaluateInstant_topK hkind, pushdown_eq_none (hinner _ hmem), ih _ hmem]
      exact congrArg Except.ok (ite_self _)
    | binary op lhs rhs returnBool =>
      have hl : lhs ∈ (QueryKind.binary op lhs rhs returnBool).inners := List.mem_cons_self ..
      have hr : rhs ∈ (QueryKind.binary op lhs rhs returnBool).inners :=
        List.mem_cons_of_mem _ (List.mem_singleton_self _)
      rw [evaluateInstant_binary hkind, binaryPushdown_eq_none (hinner _ hl) (hinner _ hr),
        ih _ hl, ih _ hr]
      rcases evalSide_ok lhs [] with ⟨v, hv⟩ | hv <;>
        rcases evalSide_ok rhs [] with ⟨w, hw⟩ | hw <;> rw [hv, hw] <;> rfl

theorem evaluateRange_of_no_selector (E : Sql.Engine) (t : Tables F) (startUs endUs stepUs : ℤ) :
    ∀ e : Expr F, extractSelector e = none →
      evaluateRange E t startUs endUs stepUs e = .ok [] := by
  refine plan_induction fun e ih h => ?_
  cases hkind : detectQueryKind e with
  | none => exact evaluateRange_none hkind
  | some kind =>
    have hinner : ∀ e' ∈ kind.inners, extractSelector e' = none := fun e' he' =>
      extractSelector_inner hkind h he'
    have ih : ∀ e' ∈ kind.inners, evaluateRange E t startUs endUs stepUs e' = .ok [] :=
      fun e' he' => ih kind hkind e' he' (hinner e' he')
    cases kind with
    | selector sel => rw [extractSelector_of_selector hkind] at h; cases h
    | rangeFn sel rangeUs op =>
      have hnone := asRangeFn_eq_none h
      rw [hkind] at hnone
      cases hnone
    | aggregate op modifier inner =>
      have hmem : inner ∈ (QueryKind.aggregate op modifier inner).inners :=
        List.mem_singleton_self _
      rw [evaluateRange_aggregate hkind, pushdown_eq_none (hinner _ hmem), ih _ hmem]
      rfl
    | histogramQuantile quantile inner =>
      have hmem : inner ∈ (QueryKind.histogramQuantile quantile inner).inners :=
        List.mem_singleton_self _
      rw [evaluateRange_histogramQuantile hkind, quantilePushdown_eq_none (hinner _ hmem),
        ih _ hmem]
      rfl
    | topK n top modifier inner =>
      have hmem : inner ∈ (QueryKind.topK n top modifier inner).inners :=
        List.mem_singleton_self _
      rw [evaluateRange_topK hkind, pushdown_eq_none (hinner _ hmem), ih _ hmem]
      exact congrArg Except.ok (ite_self _)
    | binary op lhs rhs returnBool =>
      have hl : lhs ∈ (QueryKind.binary op lhs rhs returnBool).inners := List.mem_cons_self ..
      have hr : rhs ∈ (QueryKind.binary op lhs rhs returnBool).inners :=
        List.mem_cons_of_mem _ (List.mem_singleton_self _)
      rw [evaluateRange_binary hkind, binaryPushdown_eq_none (hinner _ hl) (hinner _ hr),
        ih _ hl, ih _ hr]
      rcases evalSide_ok lhs [] with ⟨v, hv⟩ | hv <;>
        rcases evalSide_ok rhs [] with ⟨w, hw⟩ | hw <;> rw [hv, hw] <;> rfl

/-! ### Places -/

/-- A place of an expression in a larger one, one level up. -/
inductive Frame (F : Type)
  /-- Inside an aggregation or a cut. -/
  | aggregate (op : TokenId) (param : Option (Expr F)) (modifier : Option LabelModifier)
  /-- The second argument of a call whose first one is a literal. -/
  | quantile (func : String) (q : F)
  /-- The left operand of an operator. -/
  | binaryLeft (op : TokenId) (rhs : Expr F) (modifier : Option BinModifier)
  /-- The right operand of an operator. -/
  | binaryRight (op : TokenId) (lhs : Expr F) (modifier : Option BinModifier)
  /-- In parentheses. -/
  | paren

/-- An expression in a place. -/
def Frame.plug (e : Expr F) : Frame F → Expr F
  | .aggregate op param modifier => .aggregate op e param modifier
  | .quantile func q => .call func [.numberLiteral q, e]
  | .binaryLeft op rhs modifier => .binary op e rhs modifier
  | .binaryRight op lhs modifier => .binary op lhs e modifier
  | .paren => .paren e

/-- An expression in a context, a list of places from the inside out. -/
def plugAll (e : Expr F) (frames : List (Frame F)) : Expr F := frames.foldl Frame.plug e

/-- Whether an expression is a number. -/
def Expr.isLiteral : Expr F → Bool
  | .numberLiteral _ => true
  | _ => false

/-- The other operand, for a place next to an operator. -/
def Frame.otherOperand : Frame F → Option (Expr F)
  | .binaryLeft _ rhs _ => some rhs
  | .binaryRight _ lhs _ => some lhs
  | _ => none

/-- Where parentheses around an expression change nothing: where its plan is the first selector
below it, or there is none; and around a number, unless it is an operand of an operator whose
other operand has a selector. -/
def ParenSafe (e : Expr F) (frames : List (Frame F)) : Prop :=
  if e.isLiteral then
    ∀ frame ∈ frames.head?, ∀ other ∈ frame.otherOperand, extractSelector other = none
  else detectShape e = none ∨ extractSelector e = none

/-! ### Expressions that the evaluators cannot tell apart -/

/-- Two expressions are alike when they evaluate to the same and look the same to whatever stands
around them: as a selector, as a range function, and in the first selector below. -/
structure Alike (E : Sql.Engine) (t : Tables F) (e e' : Expr F) : Prop where
  /-- The same result at every timestamp. -/
  instant : ∀ timeUs, evaluateInstant E t timeUs e = evaluateInstant E t timeUs e'
  /-- The same result over every range. -/
  range : ∀ startUs endUs stepUs,
    evaluateRange E t startUs endUs stepUs e = evaluateRange E t startUs endUs stepUs e'
  /-- The same selector, where they are one. -/
  pure : pureSelector e = pureSelector e'
  /-- The same first selector. -/
  extract : extractSelector e = extractSelector e'
  /-- The same range function, where they are one. -/
  rangeFn : asRangeFn (detectQueryKind e) = asRangeFn (detectQueryKind e')

section Alike

variable {E : Sql.Engine} {t : Tables F} {e e' : Expr F}

/-- Expressions with the same plan are alike. -/
theorem Alike.of_kind (hkind : detectQueryKind e = detectQueryKind e')
    (hpure : pureSelector e = pureSelector e') (hext : extractSelector e = extractSelector e') :
    Alike E t e e' where
  instant _ := evaluateInstant_congr hkind
  range _ _ _ := evaluateRange_congr hkind
  pure := hpure
  extract := hext
  rangeFn := by rw [hkind]

/-- Expressions without a selector are alike. -/
theorem Alike.of_no_selector (h : extractSelector e = none) (h' : extractSelector e' = none) :
    Alike E t e e' where
  instant timeUs := by
    rw [evaluateInstant_of_no_selector E t timeUs e h,
      evaluateInstant_of_no_selector E t timeUs e' h']
  range startUs endUs stepUs := by
    rw [evaluateRange_of_no_selector E t startUs endUs stepUs e h,
      evaluateRange_of_no_selector E t startUs endUs stepUs e' h']
  pure := by rw [pureSelector_eq_none h, pureSelector_eq_none h']
  extract := h.trans h'.symm
  rangeFn := by rw [asRangeFn_eq_none h, asRangeFn_eq_none h']

/-- **What is pushed down is the same for expressions that are alike.** -/
theorem Alike.pushdown (h : Alike E t e e') (modifier : Option LabelModifier) :
    pushdown modifier e = Prometheus.pushdown modifier e' := by
  rw [pushdown_eq, pushdown_eq, h.pure, h.rangeFn]

theorem Alike.quantilePushdown (h : Alike E t e e') (q : F) :
    quantilePushdown q e = Prometheus.quantilePushdown q e' := by
  rw [quantilePushdown_eq, quantilePushdown_eq, h.rangeFn]

/-- The plan of an aggregation does not depend on what is inside. -/
theorem detectShape_aggregate (op : TokenId) (param : Option (Expr F))
    (modifier : Option LabelModifier) :
    (∃ n top, ∀ e : Expr F, detectShape (.aggregate op e param modifier) =
      some (.topK n top modifier e)) ∨
    (∃ op', ∀ e : Expr F, detectShape (.aggregate op e param modifier) =
      some (.aggregate op' modifier e)) ∨
    ∀ e : Expr F, detectShape (.aggregate op e param modifier) = none := by
  have hparse : (∀ e : Expr F, detectTopK op e modifier param = none) →
      (∃ op', ∀ e : Expr F, detectShape (.aggregate op e param modifier) =
        some (.aggregate op' modifier e)) ∨
      ∀ e : Expr F, detectShape (.aggregate op e param modifier) = none := by
    intro hnone
    cases hop : parseAggOp op with
    | none => exact Or.inr fun e => by rw [detectShape, hnone, hop]; rfl
    | some op' => exact Or.inl ⟨op', fun e => by rw [detectShape, hnone, hop]; rfl⟩
  rcases param with _ | param
  · exact Or.inr (hparse fun _ => rfl)
  · cases param with
    | numberLiteral val =>
      by_cases hop : op = .topk ∨ op = .bottomk
      · refine Or.inl
          ⟨if F64.isFinite val && F64.lt (F64.ofInt 0) val then F64.toUsize val else 0,
            decide (op = .topk), fun e => ?_⟩
        rw [detectShape, detectTopK, if_pos hop]
        rfl
      · exact Or.inr (hparse fun _ => if_neg hop)
    | _ => exact Or.inr (hparse fun _ => rfl)

omit [F64 F] in
theorem evalSide_of_not_literal {α : Type} (h : e.isLiteral = false) (x : Except PromError α) :
    evalSide e x = x.map .vector := by
  cases e <;> first | rfl | cases h

theorem pickScalar_of_not_literal (h : e.isLiteral = false) : pickScalar e = none := by
  cases e <;> first | rfl | cases h

/-- **Alike inside an aggregation.** -/
theorem Alike.aggregate (h : Alike E t e e') (op : TokenId) (param : Option (Expr F))
    (modifier : Option LabelModifier) :
    Alike E t (.aggregate op e param modifier) (.aggregate op e' param modifier) := by
  have hext : extractSelector (.aggregate op e param modifier) =
      extractSelector (.aggregate op e' param modifier) := by
    rw [extractSelector, extractSelector, h.extract]
  rcases detectShape_aggregate op param modifier with ⟨n, top, hshape⟩ | ⟨op', hshape⟩ | hshape
  · have hkind := fun e => detectQueryKind_of_shape (hshape e)
    refine ⟨fun timeUs => ?_, fun startUs endUs stepUs => ?_, rfl, hext, by rw [hkind, hkind]; rfl⟩
    · rw [evaluateInstant_topK (hkind e), evaluateInstant_topK (hkind e'), h.pushdown, h.instant]
    · rw [evaluateRange_topK (hkind e), evaluateRange_topK (hkind e'), h.pushdown, h.range]
  · have hkind := fun e => detectQueryKind_of_shape (hshape e)
    refine ⟨fun timeUs => ?_, fun startUs endUs stepUs => ?_, rfl, hext, by rw [hkind, hkind]; rfl⟩
    · rw [evaluateInstant_aggregate (hkind e), evaluateInstant_aggregate (hkind e'), h.pushdown,
        h.instant]
    · rw [evaluateRange_aggregate (hkind e), evaluateRange_aggregate (hkind e'), h.pushdown,
        h.range]
  · refine Alike.of_kind ?_ rfl hext
    rw [detectQueryKind_of_no_shape (hshape e), detectQueryKind_of_no_shape (hshape e'), hext]

/-- **Alike inside a quantile.** -/
theorem Alike.quantile (h : Alike E t e e') (func : String) (q : F) :
    Alike E t (.call func [.numberLiteral q, e]) (.call func [.numberLiteral q, e']) := by
  have hext : extractSelector (.call func [.numberLiteral q, e]) =
      extractSelector (.call func [.numberLiteral q, e']) := by
    simp only [extractSelector, extractSelectorArgs, h.extract]
  by_cases hfunc : func.toLower = "histogram_quantile"
  · have hkind : ∀ e : Expr F, detectQueryKind (.call func [.numberLiteral q, e]) =
        some (.histogramQuantile q e) := by
      intro e
      refine detectQueryKind_of_shape ?_
      rw [detectShape, detectHistogramQuantile, if_pos hfunc]
      rfl
    refine ⟨fun timeUs => ?_, fun startUs endUs stepUs => ?_, rfl, hext, by rw [hkind, hkind]; rfl⟩
    · rw [evaluateInstant_histogramQuantile (hkind e), evaluateInstant_histogramQuantile (hkind e'),
        h.quantilePushdown, h.instant]
    · rw [evaluateRange_histogramQuantile (hkind e), evaluateRange_histogramQuantile (hkind e'),
        h.quantilePushdown, h.range]
  · have hshape : ∀ e : Expr F, detectShape (.call func [.numberLiteral q, e]) = none := by
      intro e
      rw [detectShape, detectHistogramQuantile, if_neg hfunc]
      rfl
    refine Alike.of_kind ?_ rfl hext
    rw [detectQueryKind_of_no_shape (hshape e), detectQueryKind_of_no_shape (hshape e'), hext]

theorem scalarVectorPair_congr {lhs lhs' rhs rhs' : Expr F}
    (hl : pickScalar lhs = pickScalar lhs') (hr : pickScalar rhs = pickScalar rhs')
    (hpl : pureSelector lhs = pureSelector lhs') (hpr : pureSelector rhs = pureSelector rhs') :
    scalarVectorPair lhs rhs = scalarVectorPair lhs' rhs' := by
  rw [scalarVectorPair, scalarVectorPair, hl, hr, hpl, hpr]

/-- **Alike on either side of an operator**: both sides may be replaced, a number by itself
only. -/
theorem Alike.binary {lhs lhs' rhs rhs' : Expr F} (hl : Alike E t lhs lhs')
    (hr : Alike E t rhs rhs') (hll : lhs = lhs' ∨ lhs.isLiteral = false ∧ lhs'.isLiteral = false)
    (hrl : rhs = rhs' ∨ rhs.isLiteral = false ∧ rhs'.isLiteral = false) (op : TokenId)
    (modifier : Option BinModifier) :
    Alike E t (.binary op lhs rhs modifier) (.binary op lhs' rhs' modifier) := by
  have hext : extractSelector (.binary op lhs rhs modifier) =
      extractSelector (.binary op lhs' rhs' modifier) := by
    rw [extractSelector, extractSelector, hl.extract, hr.extract]
  have hpick : ∀ {e e' : Expr F}, e = e' ∨ e.isLiteral = false ∧ e'.isLiteral = false →
      pickScalar e = pickScalar e' := by
    rintro e e' (rfl | ⟨hlit, hlit'⟩)
    · rfl
    · rw [pickScalar_of_not_literal hlit, pickScalar_of_not_literal hlit']
  have hside : ∀ {α : Type} {e e' : Expr F},
      e = e' ∨ e.isLiteral = false ∧ e'.isLiteral = false →
        ∀ x : Except PromError α, evalSide e x = evalSide e' x := by
    rintro α e e' (rfl | ⟨hlit, hlit'⟩) x
    · rfl
    · rw [evalSide_of_not_literal hlit, evalSide_of_not_literal hlit']
  have hpush : binaryPushdown lhs rhs = binaryPushdown lhs' rhs' := by
    rw [binaryPushdown, binaryPushdown, hl.pure, hr.pure,
      scalarVectorPair_congr (hpick hll) (hpick hrl) hl.pure hr.pure]
  cases hop : parseBinOp op with
  | none =>
    refine Alike.of_kind ?_ rfl hext
    have hshape : ∀ lhs rhs : Expr F, detectShape (.binary op lhs rhs modifier) = none := by
      intro lhs rhs
      rw [detectShape, hop]
      rfl
    rw [detectQueryKind_of_no_shape (hshape _ _), detectQueryKind_of_no_shape (hshape _ _), hext]
  | some op' =>
    have hkind : ∀ lhs rhs : Expr F, detectQueryKind (.binary op lhs rhs modifier) =
        some (.binary op' lhs rhs ((modifier.map BinModifier.returnBool).getD false)) := by
      intro lhs rhs
      refine detectQueryKind_of_shape ?_
      rw [detectShape, hop]
      rfl
    refine ⟨fun timeUs => ?_, fun startUs endUs stepUs => ?_, rfl, hext, by rw [hkind, hkind]; rfl⟩
    · rw [evaluateInstant_binary (hkind lhs rhs), evaluateInstant_binary (hkind lhs' rhs'), hpush,
        hl.instant, hr.instant, hside hll, hside hrl]
    · rw [evaluateRange_binary (hkind lhs rhs), evaluateRange_binary (hkind lhs' rhs'), hpush,
        hl.range, hr.range, hside hll, hside hrl]

theorem Alike.refl (e : Expr F) : Alike E t e e := Alike.of_kind rfl rfl rfl

/-- **Alike in parentheses.** -/
theorem Alike.paren (h : Alike E t e e') : Alike E t (.paren e) (.paren e') := by
  refine Alike.of_kind ?_ ?_ ?_
  · rw [detectQueryKind_paren, detectQueryKind_paren, h.extract]
  · rw [pureSelector, pureSelector, h.pure]
  · rw [extractSelector, extractSelector, h.extract]

/-- **Alike in a place** next to no operator, or where neither is a number. -/
theorem Alike.plug (h : Alike E t e e') (frame : Frame F)
    (hlit : frame.otherOperand = none ∨ e.isLiteral = false ∧ e'.isLiteral = false) :
    Alike E t (frame.plug e) (frame.plug e') := by
  cases frame with
  | aggregate op param modifier => exact h.aggregate op param modifier
  | quantile func q => exact h.quantile func q
  | binaryLeft op rhs modifier =>
    have hlit := hlit.resolve_left (by rintro ⟨⟩)
    exact h.binary (Alike.refl rhs) (Or.inr hlit) (Or.inl rfl) op modifier
  | binaryRight op lhs modifier =>
    have hlit := hlit.resolve_left (by rintro ⟨⟩)
    exact (Alike.refl lhs).binary h (Or.inl rfl) (Or.inr hlit) op modifier
  | paren => exact h.paren

omit [F64 F] in
theorem isLiteral_plug (frame : Frame F) (e : Expr F) : (frame.plug e).isLiteral = false := by
  cases frame <;> rfl

/-- **Alike in a context**, where neither is a number. -/
theorem Alike.plugAll (frames : List (Frame F)) :
    ∀ {e e' : Expr F}, Alike E t e e' → e.isLiteral = false → e'.isLiteral = false →
      Alike E t (plugAll e frames) (plugAll e' frames) := by
  induction frames with
  | nil => exact fun h _ _ => h
  | cons frame frames ih =>
    intro e e' h hlit hlit'
    exact ih (h.plug frame (Or.inr ⟨hlit, hlit'⟩)) (isLiteral_plug frame e)
      (isLiteral_plug frame e')

end Alike

/-! ### Parentheses in a context -/

/-- **Parentheses change nothing where they are safe**, at whatever depth and with both
evaluators. -/
theorem evaluate_paren_of_safe {e : Expr F} {frames : List (Frame F)} (h : ParenSafe e frames)
    (E : Sql.Engine) (t : Tables F) :
    (∀ timeUs, evaluateInstant E t timeUs (plugAll (.paren e) frames) =
      evaluateInstant E t timeUs (plugAll e frames)) ∧
    ∀ startUs endUs stepUs, evaluateRange E t startUs endUs stepUs (plugAll (.paren e) frames) =
      evaluateRange E t startUs endUs stepUs (plugAll e frames) := by
  have halike : Alike E t (plugAll (.paren e) frames) (plugAll e frames) := by
    rw [ParenSafe] at h
    split_ifs at h with hlit
    · obtain ⟨val, rfl⟩ : ∃ val, e = .numberLiteral val := by
        cases e <;> first | exact ⟨_, rfl⟩ | cases hlit
      cases frames with
      | nil => exact Alike.of_no_selector rfl rfl
      | cons frame frames =>
        refine Alike.plugAll frames ?_ (isLiteral_plug _ _) (isLiteral_plug _ _)
        cases hother : frame.otherOperand with
        | none => exact Alike.plug (Alike.of_no_selector rfl rfl) frame (Or.inl hother)
        | some other =>
          -- next to an operand without a selector, there is no selector at all
          have hnone := h frame rfl other hother
          cases frame with
          | binaryLeft op rhs modifier =>
            cases hother
            refine Alike.of_no_selector ?_ ?_ <;> simp [Frame.plug, extractSelector, hnone]
          | binaryRight op lhs modifier =>
            cases hother
            refine Alike.of_no_selector ?_ ?_ <;> simp [Frame.plug, extractSelector, hnone]
          | _ => cases hother
    · have hlit : e.isLiteral = false := by simpa using hlit
      refine Alike.plugAll frames ?_ rfl hlit
      rcases h with hshape | hnone
      · refine Alike.of_kind ?_ rfl ?_
        · rw [detectQueryKind_paren, detectQueryKind_of_no_shape hshape]
        · rw [extractSelector]
      · exact Alike.of_no_selector (by rw [extractSelector, hnone]) hnone
  exact ⟨halike.instant, halike.range⟩

/-! ### The sum in parentheses -/

/-- The selector `up`. -/
def upAll : VectorSelector := ⟨some "up", []⟩

/-- One series of `up`, and one sample. -/
def upTables : Tables Whole := ⟨[⟨1, 0, .num 1⟩], [⟨1, "up", SortedMap.empty.insert "job" "a"⟩]⟩

/-- A selector in parentheses, in a sum. -/
theorem evaluate_paren_of_safe_selector :
    evaluateInstant Sql.Engine.stable upTables 0
        (.aggregate .sum (.paren (.vectorSelector upAll)) none none) =
      evaluateInstant Sql.Engine.stable upTables 0
        (.aggregate .sum (.vectorSelector upAll) none none) :=
  have hsafe : ParenSafe (.vectorSelector upAll) [Frame.aggregate (F := Whole) .sum none none] :=
    Or.inl rfl
  (evaluate_paren_of_safe hsafe Sql.Engine.stable upTables).1 0

/-- **`(sum(up))` is not `sum(up)`**: it keeps the name and the labels of the series. -/
theorem parens_change_sum :
    evaluateInstant Sql.Engine.stable upTables 0
        (.paren (.aggregate .sum (.vectorSelector upAll) none none)) ≠
      evaluateInstant Sql.Engine.stable upTables 0
        (.aggregate .sum (.vectorSelector upAll) none none) := by
  have hkind : detectQueryKind (.aggregate .sum (.vectorSelector upAll) none none : Expr Whole) =
      some (.aggregate .sum none (.vectorSelector upAll)) := rfl
  rw [evaluateInstant_paren rfl, evaluateInstant_aggregate hkind]
  decide +kernel

end Skaldberg.Prometheus
