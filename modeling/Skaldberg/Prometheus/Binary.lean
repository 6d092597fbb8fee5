import Skaldberg.Prometheus.Histogram

/-!
# Binary operators

An operator between a scalar and a vector, or between two vectors matched one to one on their
whole label set. Arithmetic, and a comparison with `bool`, make a new value and strip the name;
a comparison without `bool` is a filter, and keeps the series as it is.

The operators are computed twice: by the program on floats (`Skaldberg.Prometheus.applyBinValue`,
`comparisonPasses`) and in the query (`binopValueSql`, `cmpOpSql`), where an operand is a selector
itself. Matching is by the label map in the program and by the text it spells in the query
(`matchSides`).
-/

namespace Skaldberg.Prometheus

variable {F τ : Type} [F64 F]

/-! ### In the program -/

/-- The number a truth value stands for. -/
def ofBool (b : Bool) : F := F64.ofInt (if b then 1 else 0)

/-- `apply_bin_value`. -/
def applyBinValue (a b : F) : BinOp → F
  | .add => F64.add a b
  | .sub => F64.sub a b
  | .mul => F64.mul a b
  | .div => F64.div a b
  | .mod => F64.rem a b
  | .pow => F64.powf a b
  | .eq => ofBool (F64.eq a b)
  | .ne => ofBool (!F64.eq a b)
  | .lt => ofBool (F64.lt a b)
  | .le => ofBool (F64.le a b)
  | .gt => ofBool (F64.lt b a)
  | .ge => ofBool (F64.le b a)

/-- `comparison_passes`. -/
def comparisonPasses (a b : F) : BinOp → Bool
  | .eq => F64.eq a b
  | .ne => !F64.eq a b
  | .lt => F64.lt a b
  | .le => F64.le a b
  | .gt => F64.lt b a
  | .ge => F64.le b a
  | _ => true

/-- Whether an operator filters rather than computes. -/
def BinOp.isFilter (op : BinOp) (returnBool : Bool) : Bool := op.isComparison && !returnBool

/-- The value an operator leaves of the one it is applied to, if any. -/
def applyOp (op : BinOp) (returnBool : Bool) (a b kept : F) : Option F :=
  if op.isFilter returnBool then if comparisonPasses a b op then some kept else none
  else some (applyBinValue a b op)

/-- The name an operator leaves. -/
def resultName (op : BinOp) (returnBool : Bool) (metricName : String) : String :=
  if op.isFilter returnBool then metricName else ""

/-- The operands in their order, for a scalar on one side. -/
def operands (scalar v : F) (scalarOnLeft : Bool) : F × F :=
  if scalarOnLeft then (scalar, v) else (v, scalar)

/-- `apply_scalar_vector_instant`. -/
def applyScalarVectorInstant (scalar : F) (pts : List (InstantPoint F)) (op : BinOp)
    (returnBool scalarOnLeft : Bool) : List (InstantPoint F) :=
  pts.filterMap fun p =>
    let ab := operands scalar p.value scalarOnLeft
    (applyOp op returnBool ab.1 ab.2 p.value).map fun v =>
      { p with metricName := resultName op returnBool p.metricName, value := v }

/-- `apply_scalar_vector_range`. -/
def applyScalarVectorRange (scalar : F) (series : List (RangePoints F)) (op : BinOp)
    (returnBool scalarOnLeft : Bool) : List (RangePoints F) :=
  (series.map fun s =>
    { s with
      metricName := resultName op returnBool s.metricName
      points := s.points.filterMap fun p =>
        let ab := operands scalar p.2 scalarOnLeft
        (applyOp op returnBool ab.1 ab.2 p.2).map fun v => (p.1, v) }).filter fun s =>
          !s.points.isEmpty

/-- `apply_vector_vector_instant`: of several right points with one label map, the last. -/
def applyVectorVectorInstant (lhs rhs : List (InstantPoint F)) (op : BinOp) (returnBool : Bool) :
    List (InstantPoint F) :=
  let rhsIndex : SortedMap Labels (InstantPoint F) :=
    SortedMap.ofList (rhs.map fun r => (r.labels, r))
  lhs.filterMap fun l =>
    (rhsIndex.get? l.labels).bind fun r =>
      (applyOp op returnBool l.value r.value l.value).map fun v =>
        { l with metricName := resultName op returnBool l.metricName, value := v }

/-- `apply_vector_vector_range`. -/
def applyVectorVectorRange (lhs rhs : List (RangePoints F)) (op : BinOp) (returnBool : Bool) :
    List (RangePoints F) :=
  let rhsIndex : SortedMap Labels (SortedMap ℤ F) :=
    SortedMap.ofList (rhs.map fun r => (r.labels, SortedMap.ofList r.points))
  (lhs.filterMap fun l =>
    (rhsIndex.get? l.labels).map fun rPts =>
      { l with
        metricName := resultName op returnBool l.metricName
        points := l.points.filterMap fun p =>
          (rPts.get? p.1).bind fun rv =>
            (applyOp op returnBool p.2 rv p.2).map fun v => (p.1, v) }).filter fun s =>
              !s.points.isEmpty

/-! ### In a query -/

/-- `cmp_op_sql`: the comparison of the query engine; the arithmetic operators, which are never
asked for one, get `=`. -/
def cmpOpSql (a b : F) : BinOp → Bool
  | .ne => !F64.sqlEq a b
  | .lt => F64.sqlLt a b
  | .le => F64.totalLe a b
  | .gt => F64.sqlLt b a
  | .ge => F64.totalLe b a
  | _ => F64.sqlEq a b

/-- `binop_value_sql`: the comparisons, which are never asked for a value without `bool`, get
zero. -/
def binopValueSql (returnBool : Bool) (a b : F) (op : BinOp) : F :=
  if op.isComparison && returnBool then ofBool (cmpOpSql a b op)
  else
    match op with
    | .add => F64.add a b
    | .sub => F64.sub a b
    | .mul => F64.mul a b
    | .div => F64.div a b
    | .mod => F64.rem a b
    | .pow => F64.powf a b
    | _ => F64.ofInt 0

/-- The row an operator makes of the row of its vector operand, in the query. -/
def binaryRow (op : BinOp) (returnBool : Bool) (a b : F) (r : Point τ F × Skaldberg.SeriesRow) :
    Option (Point τ F × Skaldberg.SeriesRow) :=
  if op.isFilter returnBool then if cmpOpSql a b op then some r else none
  else some ({ r.1 with value := binopValueSql returnBool a b op }, { r.2 with metricName := "" })

/-- A row of a selector, combined with a scalar. -/
def scalarRow (op : BinOp) (returnBool : Bool) (scalar : F) (scalarOnLeft : Bool)
    (r : Point τ F × Skaldberg.SeriesRow) : Option (Point τ F × Skaldberg.SeriesRow) :=
  let ab := operands scalar r.1.value scalarOnLeft
  binaryRow op returnBool ab.1 ab.2 r

/-- `scalar_vector_instant_via_sql`. -/
def scalarVectorInstantViaSql (E : Sql.Engine) (t : Tables F) (scalar : F) (sel : VectorSelector)
    (op : BinOp) (returnBool scalarOnLeft : Bool) (timeUs : ℤ) : List (InstantPoint F) :=
  decodeInstantRows sel.postFilter (fun _ => true) timeUs
    ((joinSeries t Point.seriesId (latestPoints E t sel timeUs)).filterMap
      (scalarRow op returnBool scalar scalarOnLeft))

/-- `scalar_vector_range_via_sql`. The rows are put in the order of their names before an operator
strips them. -/
def scalarVectorRangeViaSql (E : Sql.Engine) (t : Tables F) (scalar : F) (sel : VectorSelector)
    (op : BinOp) (returnBool scalarOnLeft : Bool) (startUs endUs : ℤ) : List (RangePoints F) :=
  decodeRangeRows sel.postFilter (fun _ => true)
    ((orderByNameTime E ((baseRows t sel startUs endUs).map basePoint)).filterMap
      (scalarRow op returnBool scalar scalarOnLeft))

/-- `joined`: the points of the left side with the value of each point of the right side at the
same timestamp whose series spells the same text. -/
def matchSides [DecidableEq τ] (E : Sql.Engine) (t : Tables F) (lsids : List ℤ)
    (lpoints : List (Point τ F)) (rsids : List ℤ) (rpoints : List (Point τ F)) :
    List (Point τ F × F) :=
  (Sql.join (fun l r => decide (l.2 = r.2 ∧ l.1.at_ = r.1.at_)) (joinGk E t [] lsids lpoints)
    (joinGk E t [] rsids rpoints)).map fun x => (x.1.1, x.2.1.value)

/-- A matched row, with the operator applied. -/
def matchedRow (op : BinOp) (returnBool : Bool)
    (r : (Point τ F × F) × Skaldberg.SeriesRow) : Option (Point τ F × Skaldberg.SeriesRow) :=
  binaryRow op returnBool r.1.1.value r.1.2 (r.1.1, r.2)

/-- A point with `value + 0.0`. -/
def Point.plusZero (x : Point τ F) : Point τ F :=
  { x with value := Prometheus.plusZero x.value }

/-- `vector_vector_instant_via_sql`. -/
def vectorVectorInstantViaSql (E : Sql.Engine) (t : Tables F) (lsel rsel : VectorSelector)
    (op : BinOp) (returnBool : Bool) (timeUs : ℤ) : List (InstantPoint F) :=
  let lhs := (latestPoints E t lsel timeUs).map Point.plusZero
  let rhs := (latestPoints E t rsel timeUs).map Point.plusZero
  let joined := matchSides E t (lhs.map Point.seriesId) lhs (rhs.map Point.seriesId) rhs
  decodeInstantRows (fun labels => lsel.postFilter labels && rsel.postFilter labels)
    (fun _ => true) timeUs
    ((joinSeries t (fun r => r.1.seriesId) joined).filterMap (matchedRow op returnBool))

/-- `ORDER BY s.metric_name, j.ts`, for the matched rows of a matrix query. -/
def orderMatched (E : Sql.Engine) (rows : List ((Point ℤ F × F) × Skaldberg.SeriesRow)) :
    List ((Point ℤ F × F) × Skaldberg.SeriesRow) :=
  E.sort (fun a b => nameTimeLe (a.2.metricName, a.1.1.at_) (b.2.metricName, b.1.1.at_)) rows

/-- `vector_vector_range_via_sql`. -/
def vectorVectorRangeViaSql (E : Sql.Engine) (t : Tables F) (lsel rsel : VectorSelector)
    (op : BinOp) (returnBool : Bool) (startUs endUs : ℤ) : List (RangePoints F) :=
  let lhs := (windowPoints t lsel startUs endUs).map Point.plusZero
  let rhs := (windowPoints t rsel startUs endUs).map Point.plusZero
  let joined := matchSides E t (lhs.map Point.seriesId).dedup lhs
    (rhs.map Point.seriesId).dedup rhs
  decodeRangeRows (fun labels => lsel.postFilter labels && rsel.postFilter labels)
    (fun _ => true)
    ((orderMatched E (joinSeries t (fun r => r.1.seriesId) joined)).filterMap
      (matchedRow op returnBool))

end Skaldberg.Prometheus
