import Mathlib.Data.String.Basic
import Skaldberg.Prometheus.Float

/-!
# Expressions and query kinds

The syntax tree of a PromQL expression, as the parser hands it to the evaluator, and the
recognisers that look at its shape: which plan a node gets (`Skaldberg.Prometheus.detectQueryKind`),
the first selector below a node (`extractSelector`), and whether a node *is* a selector
(`pureSelector`).

The three treat a pair of parentheses differently, and that is worth knowing before reading
the evaluator: `pureSelector` and `extractSelector` look through it, while `detectQueryKind`
has no case for it and takes the road of the shapes it does not know, the selector below
(`detectQueryKind_paren`).
-/

namespace Skaldberg.Prometheus

/-! ### Syntax -/

/-- How a matcher compares a label with its value. A regular expression is the test it is
compiled to. -/
inductive MatchOp
  /-- `=`. -/
  | equal
  /-- `!=`. -/
  | notEqual
  /-- `=~`. -/
  | re (isMatch : String → Bool)
  /-- `!~`. -/
  | notRe (isMatch : String → Bool)

/-- A matcher of a selector: a label, a comparison, and the text it was written with. -/
structure Matcher where
  /-- The comparison. -/
  op : MatchOp
  /-- The label. -/
  name : String
  /-- The text compared with, for `=` and `!=`. -/
  value : String

/-- An instant selector, `name{matchers}`. -/
structure VectorSelector where
  /-- The name before the braces, if any. -/
  name : Option String
  /-- The matchers between the braces. -/
  matchers : List Matcher

/-- The grouping of an aggregation. -/
inductive LabelModifier
  /-- `by (…)`. -/
  | includes (labels : List String)
  /-- `without (…)`. -/
  | excludes (labels : List String)

/-- The tokens that name an operator or an aggregation; the others keep their number. -/
inductive TokenId
  | add | sub | mul | div | mod | pow
  | eqlc | neq | lss | lte | gtr | gte
  | sum | avg | min | max | count | topk | bottomk
  | other (id : UInt8)
  deriving DecidableEq

/-- The modifier of a binary operation, of which only the `bool` flag is read. -/
structure BinModifier where
  /-- Whether a comparison returns a number rather than filtering. -/
  returnBool : Bool

/-- A PromQL expression. -/
inductive Expr (F : Type)
  /-- `op(param, expr)` with a grouping. -/
  | aggregate (op : TokenId) (expr : Expr F) (param : Option (Expr F))
      (modifier : Option LabelModifier)
  /-- `-expr`. -/
  | unary (expr : Expr F)
  /-- `lhs op rhs`. -/
  | binary (op : TokenId) (lhs rhs : Expr F) (modifier : Option BinModifier)
  /-- `(expr)`. -/
  | paren (expr : Expr F)
  /-- `expr[range:step]`. -/
  | subquery (expr : Expr F)
  /-- A number. -/
  | numberLiteral (val : F)
  /-- A string. -/
  | stringLiteral (val : String)
  /-- A selector. -/
  | vectorSelector (vs : VectorSelector)
  /-- A selector with a range, in microseconds. -/
  | matrixSelector (vs : VectorSelector) (range : ℕ)
  /-- `func(args)`. -/
  | call (func : String) (args : List (Expr F))
  /-- A node of a syntax extension. -/
  | extension

/-! ### Plans -/

/-- The binary operators that are evaluated. -/
inductive BinOp
  | add | sub | mul | div | mod | pow | eq | ne | lt | le | gt | ge
  deriving DecidableEq

/-- Whether an operator is a comparison. -/
def BinOp.isComparison : BinOp → Bool
  | .eq | .ne | .lt | .le | .gt | .ge => true
  | _ => false

/-- The functions of a range that are evaluated. -/
inductive RangeFnOp
  | rate | irate | increase | delta
  deriving DecidableEq

/-- The reductive aggregations that are evaluated. -/
inductive AggOp
  | sum | avg | min | max | count
  deriving DecidableEq

/-- What is planned for an expression. -/
inductive QueryKind (F : Type)
  /-- The raw points of the selector. -/
  | selector (sel : VectorSelector)
  /-- A function of the samples in a range. -/
  | rangeFn (sel : VectorSelector) (rangeUs : ℤ) (op : RangeFnOp)
  /-- An aggregation of the results of the inner expression. -/
  | aggregate (op : AggOp) (modifier : Option LabelModifier) (inner : Expr F)
  /-- A quantile out of the buckets of a histogram. -/
  | histogramQuantile (quantile : F) (inner : Expr F)
  /-- The `n` largest or smallest series of each group. -/
  | topK (n : ℕ) (top : Bool) (modifier : Option LabelModifier) (inner : Expr F)
  /-- A binary operator between two operands. -/
  | binary (op : BinOp) (lhs rhs : Expr F) (returnBool : Bool)

/-! ### Recognisers -/

/-- The range function of a name, whatever its case. -/
def parseRangeFnOp (name : String) : Option RangeFnOp :=
  if name.toLower = "rate" then some .rate
  else if name.toLower = "irate" then some .irate
  else if name.toLower = "increase" then some .increase
  else if name.toLower = "delta" then some .delta
  else none

/-- The operator of a token. -/
def parseBinOp : TokenId → Option BinOp
  | .add => some .add
  | .sub => some .sub
  | .mul => some .mul
  | .div => some .div
  | .mod => some .mod
  | .pow => some .pow
  | .eqlc => some .eq
  | .neq => some .ne
  | .lss => some .lt
  | .lte => some .le
  | .gtr => some .gt
  | .gte => some .ge
  | _ => none

/-- The aggregation of a token. -/
def parseAggOp : TokenId → Option AggOp
  | .sum => some .sum
  | .avg => some .avg
  | .min => some .min
  | .max => some .max
  | .count => some .count
  | _ => none

variable {F : Type}

mutual

/-- The first selector below a node, whatever stands around it. -/
def extractSelector : Expr F → Option VectorSelector
  | .vectorSelector vs => some vs
  | .matrixSelector vs _ => some vs
  | .call _ args => extractSelectorArgs args
  | .aggregate _ expr _ _ => extractSelector expr
  | .binary _ lhs rhs _ => (extractSelector lhs).or (extractSelector rhs)
  | .paren expr => extractSelector expr
  | .unary expr => extractSelector expr
  | .subquery expr => extractSelector expr
  | _ => none

/-- The first selector below the arguments of a call. -/
def extractSelectorArgs : List (Expr F) → Option VectorSelector
  | [] => none
  | arg :: args => (extractSelector arg).or (extractSelectorArgs args)

end

/-- The selector a node is, possibly in parentheses. -/
def pureSelector : Expr F → Option VectorSelector
  | .vectorSelector vs => some vs
  | .paren expr => pureSelector expr
  | _ => none

/-- The selector a node is, is the first below it. -/
theorem extractSelector_of_pureSelector {sel : VectorSelector} :
    ∀ {e : Expr F}, pureSelector e = some sel → extractSelector e = some sel
  | .vectorSelector _, h => h
  | .paren e, h => by
    rw [extractSelector]
    exact extractSelector_of_pureSelector (e := e) h

/-- `as i64`: the low 64 bits, as a signed number. -/
def asI64 (n : ℤ) : ℤ := n.bmod (2 ^ 64)

section Detect

variable [F64 F]

/-- `topk` and `bottomk` carry the number of series to keep as a literal parameter. -/
def detectTopK (op : TokenId) (expr : Expr F) (modifier : Option LabelModifier) :
    Option (Expr F) → Option (QueryKind F)
  | some (.numberLiteral val) =>
    if op = .topk ∨ op = .bottomk then
      some (.topK (if F64.isFinite val && F64.lt (F64.ofInt 0) val then F64.toUsize val else 0)
        (decide (op = .topk)) modifier expr)
    else none
  | _ => none

/-- `histogram_quantile` takes a literal quantile and a vector. -/
def detectHistogramQuantile (func : String) : List (Expr F) → Option (QueryKind F)
  | [.numberLiteral val, inner] =>
    if func.toLower = "histogram_quantile" then some (.histogramQuantile val inner) else none
  | _ => none

/-- A range function takes a range of a selector as its first argument. -/
def detectRangeFn (func : String) : List (Expr F) → Option (QueryKind F)
  | .matrixSelector vs range :: _ =>
    (parseRangeFnOp func).map fun op => .rangeFn vs (asI64 range) op
  | _ => none

/-- The plan of a node, where its own shape has one. -/
def detectShape : Expr F → Option (QueryKind F)
  | .aggregate op expr param modifier =>
    (detectTopK op expr modifier param).or
      ((parseAggOp op).map fun op => .aggregate op modifier expr)
  | .binary op lhs rhs modifier =>
    (parseBinOp op).map fun op =>
      .binary op lhs rhs ((modifier.map BinModifier.returnBool).getD false)
  | .call func args => (detectHistogramQuantile func args).or (detectRangeFn func args)
  | _ => none

/-- The plan of an expression: by its shape, and otherwise the raw points of the first
selector below it. -/
def detectQueryKind (expr : Expr F) : Option (QueryKind F) :=
  (detectShape expr).or ((extractSelector expr).map .selector)

theorem detectQueryKind_of_shape {e : Expr F} {kind : QueryKind F}
    (h : detectShape e = some kind) : detectQueryKind e = some kind := by
  rw [detectQueryKind, h]
  rfl

theorem detectQueryKind_of_no_shape {e : Expr F} (h : detectShape e = none) :
    detectQueryKind e = (extractSelector e).map .selector := by
  rw [detectQueryKind, h]
  rfl

theorem detectQueryKind_eq_some {e : Expr F} {kind : QueryKind F}
    (h : detectQueryKind e = some kind) :
    detectShape e = some kind ∨ ∃ sel, extractSelector e = some sel ∧ kind = .selector sel := by
  rw [detectQueryKind, Option.or_eq_some_iff] at h
  rcases h with h | ⟨-, h⟩
  · exact Or.inl h
  · obtain ⟨sel, hsel, rfl⟩ := Option.map_eq_some_iff.mp h
    exact Or.inr ⟨sel, hsel, rfl⟩

/-- **Parentheses hide the shape below them**: what is planned is the selector. -/
theorem detectQueryKind_paren (e : Expr F) :
    detectQueryKind (.paren e) = (extractSelector e).map .selector := by
  rw [detectQueryKind, extractSelector]
  rfl

/-! ### The expressions a plan evaluates -/

/-- A scalar operand: a finite literal. -/
def pickScalar : Expr F → Option F
  | .numberLiteral val => if F64.isFinite val then some val else none
  | _ => none

/-- A finite literal and a selector, and whether the literal stands on the left. -/
def scalarVectorPair (lhs rhs : Expr F) : Option (F × VectorSelector × Bool) :=
  match pickScalar lhs, pureSelector rhs with
  | some s, some sel => some (s, sel, true)
  | _, _ =>
    match pickScalar rhs, pureSelector lhs with
    | some s, some sel => some (s, sel, false)
    | _, _ => none

end Detect

end Skaldberg.Prometheus
