import Skaldberg.Prometheus.Binary
import Skaldberg.Prometheus.Epoch
import Skaldberg.Prometheus.GroupKey

/-!
# Vector matching

An operator between two selectors is pushed into a query that joins the points of the left side
with those of the right side whose series spells the same text; the program looks the label map of
a left series up in a map of the right side. The operator itself is the same on numbers
(`Skaldberg.Prometheus.binaryRow_eq`), so that what is left to compare is which points meet.

In the query, two points meet when their series have the same text (`mem_matchedRows`), in the
program when their series have the same labels. The two sides are therefore the same when a text
found on both sides is that of the same labels, which are not empty, as a series without labels has
no text, and of one series on each side, as the program keeps one of several
(`MatchedByText`). No less will do for every table of samples (`vectorVector_refines_iff`).
-/

namespace Skaldberg.Prometheus

variable {τ : Type}

/-! ### The operator -/

theorem plusZero_num {x : Exact} (hx : x.IsNum) : plusZero x = x := by
  obtain ⟨q, rfl⟩ := hx
  rw [plusZero, Exact.ofInt_eq, Exact.add_num, Int.cast_zero, add_zero]

/-- **The query compares numbers as the program does.** -/
theorem cmpOpSql_eq {a b : Exact} (ha : a.IsNum) (hb : b.IsNum) {op : BinOp}
    (hop : op.isComparison = true) : cmpOpSql a b op = comparisonPasses a b op := by
  obtain ⟨p, rfl⟩ := ha
  obtain ⟨q, rfl⟩ := hb
  have heq : F64.sqlEq (Exact.num p) (.num q) = F64.eq (Exact.num p) (.num q) := by
    change (Exact.totalLe (.num p) (.num q) && Exact.totalLe (.num q) (.num p)) =
      Exact.ieee (fun x y => x == y) (.num p) (.num q)
    rw [Exact.totalLe_num, Exact.totalLe_num, Bool.eq_iff_iff, Bool.and_eq_true,
      decide_eq_true_eq, decide_eq_true_eq, ← le_antisymm_iff]
    simp [Exact.ieee]
  have hlt : ∀ p q : ℚ, F64.sqlLt (Exact.num p) (.num q) = F64.lt (Exact.num p) (.num q) := by
    intro p q
    change (!Exact.totalLe (.num q) (.num p)) = _
    rw [Exact.totalLe_num, Exact.lt_num]
    simp [← not_le]
  have hle : ∀ p q : ℚ, F64.totalLe (Exact.num p) (.num q) = F64.le (Exact.num p) (.num q) :=
    fun p q => (Exact.totalLe_num p q).trans (Exact.le_num p q).symm
  cases op with
  | eq => exact heq
  | ne => exact congrArg not heq
  | lt => exact hlt p q
  | le => exact hle p q
  | gt => exact hlt q p
  | ge => exact hle q p
  | add | sub | mul | div | mod | pow => cases hop

/-- **The query makes of a row what the program makes of it.** -/
theorem binaryRow_eq {a b : Exact} (ha : a.IsNum) (hb : b.IsNum) (op : BinOp) (returnBool : Bool)
    {r : Point τ Exact × Skaldberg.SeriesRow} (hr : r.1.value = a) :
    binaryRow op returnBool a b r = (applyOp op returnBool a b a).map fun v =>
      ({ r.1 with value := v },
        { r.2 with metricName := resultName op returnBool r.2.metricName }) := by
  subst hr
  rw [binaryRow, applyOp]
  by_cases hfilter : op.isFilter returnBool = true
  · have hop : op.isComparison = true := (Bool.and_eq_true_iff.mp hfilter).1
    rw [if_pos hfilter, if_pos hfilter, cmpOpSql_eq ha hb hop]
    split_ifs
    · rw [Option.map_some, resultName, if_pos hfilter]
    · rfl
  · have hvalue : binopValueSql returnBool r.1.value b op = applyBinValue r.1.value b op := by
      unfold binopValueSql
      by_cases hop : op.isComparison = true
      · have hbool : returnBool = true := by
          rw [BinOp.isFilter, hop, Bool.true_and, Bool.not_eq_true', Bool.not_eq_false] at hfilter
          exact hfilter
        rw [if_pos (by rw [hop, hbool]; rfl), cmpOpSql_eq ha hb hop]
        cases op with
        | eq | ne | lt | le | gt | ge => rfl
        | add | sub | mul | div | mod | pow => cases hop
      · rw [if_neg (by simp [hop])]
        cases op with
        | eq | ne | lt | le | gt | ge => exact absurd (by rfl) hop
        | add | sub | mul | div | mod | pow => rfl
    rw [if_neg hfilter, if_neg hfilter, Option.map_some, resultName, if_neg hfilter, hvalue]

/-! ### The points that meet in the program -/

/-- What a point says besides its timestamp. -/
def InstantPoint.named {F : Type} (p : InstantPoint F) : String × Labels × F :=
  (p.metricName, p.labels, p.value)

section Program

variable {F : Type} [F64 F] {op : BinOp} {returnBool : Bool}

theorem mem_applyVectorVectorInstant {lhs rhs : List (InstantPoint F)} {x : String × Labels × F} :
    x ∈ (applyVectorVectorInstant lhs rhs op returnBool).map InstantPoint.named ↔
      ∃ p ∈ lhs, ∃ q,
        (SortedMap.ofList (rhs.map fun r => (r.labels, r))).get? p.labels = some q ∧
          ∃ v, applyOp op returnBool p.value q.value p.value = some v ∧
            x = (resultName op returnBool p.metricName, p.labels, v) := by
  simp only [applyVectorVectorInstant, List.mem_map, List.mem_filterMap, Option.bind_eq_some_iff,
    Option.map_eq_some_iff]
  constructor
  · rintro ⟨_, ⟨p, hp, q, hq, v, hv, rfl⟩, rfl⟩
    exact ⟨p, hp, q, hq, v, hv, rfl⟩
  · rintro ⟨p, hp, q, hq, v, hv, rfl⟩
    exact ⟨_, ⟨p, hp, q, hq, v, hv, rfl⟩, rfl⟩

theorem mem_rows_applyVectorVectorRange {lhs rhs : List (RangePoints F)} {row : SeriesRow F} :
    row ∈ (applyVectorVectorRange lhs rhs op returnBool).flatMap RangePoints.rows ↔
      ∃ l ∈ lhs, ∃ pts,
        (SortedMap.ofList (rhs.map fun r => (r.labels, SortedMap.ofList r.points))).get? l.labels =
          some pts ∧ ∃ p ∈ l.points, ∃ rv, pts.get? p.1 = some rv ∧
            ∃ v, applyOp op returnBool p.2 rv p.2 = some v ∧
              row = ⟨resultName op returnBool l.metricName, l.labels, p.1, v⟩ := by
  simp only [List.mem_flatMap, applyVectorVectorRange, List.mem_filter, List.mem_filterMap,
    Option.map_eq_some_iff, RangePoints.rows, List.mem_map]
  constructor
  · rintro ⟨_, ⟨⟨l, hl, pts, hpts, rfl⟩, -⟩, e, he, rfl⟩
    obtain ⟨p, hp, hpe⟩ := List.mem_filterMap.mp he
    obtain ⟨rv, hrv, hrest⟩ := Option.bind_eq_some_iff.mp hpe
    obtain ⟨v, hv, rfl⟩ := Option.map_eq_some_iff.mp hrest
    exact ⟨l, hl, pts, hpts, p, hp, rv, hrv, v, hv, rfl⟩
  · rintro ⟨l, hl, pts, hpts, p, hp, rv, hrv, v, hv, rfl⟩
    have hpoint : (p.1, v) ∈ l.points.filterMap fun p => (pts.get? p.1).bind fun rv =>
        (applyOp op returnBool p.2 rv p.2).map fun v => (p.1, v) := by
      refine List.mem_filterMap.mpr ⟨p, hp, ?_⟩
      rw [hrv, Option.bind_some, hv, Option.map_some]
    -- a series with a point is not dropped
    refine ⟨_, ⟨⟨l, hl, pts, hpts, rfl⟩, ?_⟩, _, hpoint, rfl⟩
    rw [Bool.not_eq_true', List.isEmpty_eq_false_iff_exists_mem]
    exact ⟨_, hpoint⟩

end Program

/-! ### The points that meet in the query -/

/-- Two series have the same text, with all their labels. -/
def SameText (s s' : Skaldberg.SeriesRow) : Prop :=
  ∃ text, groupText [] s = some text ∧ groupText [] s' = some text

theorem map_plusZero {points : List (Point τ Exact)} (hnum : ∀ p ∈ points, p.value.IsNum) :
    points.map Point.plusZero = points := by
  refine (List.map_congr_left fun p hp => ?_).trans (List.map_id _)
  rw [Point.plusZero, plusZero_num (hnum p hp)]
  rfl

section Query

variable [DecidableEq τ] {t : Tables Exact} {E : Sql.Engine} {lsids rsids : List ℤ}

/-- **The rows a query matches**: those at one timestamp of series with one text. -/
theorem mem_matchedRows (h : OneRowPerSeries t) (hlsids : lsids.Nodup) (hrsids : rsids.Nodup)
    {lrows rrows : List (Point τ Exact × Skaldberg.SeriesRow)}
    (hl : ∀ r ∈ lrows, (r.2 ∈ t.series ∧ r.1.seriesId = r.2.seriesId) ∧ r.1.seriesId ∈ lsids)
    (hr : ∀ r ∈ rrows, (r.2 ∈ t.series ∧ r.1.seriesId = r.2.seriesId) ∧ r.1.seriesId ∈ rsids)
    (op : BinOp) (returnBool : Bool) (y : Point τ Exact × Skaldberg.SeriesRow) :
    y ∈ (joinSeries t (fun r => r.1.seriesId) (matchSides E t lsids (lrows.map Prod.fst) rsids
        (rrows.map Prod.fst))).filterMap (matchedRow op returnBool) ↔
      ∃ a ∈ lrows, ∃ b ∈ rrows, a.1.at_ = b.1.at_ ∧ SameText a.2 b.2 ∧
        binaryRow op returnBool a.1.value b.1.value a = some y := by
  have hgk : ∀ {sids : List ℤ} {rows : List (Point τ Exact × Skaldberg.SeriesRow)}, sids.Nodup →
      (∀ r ∈ rows, (r.2 ∈ t.series ∧ r.1.seriesId = r.2.seriesId) ∧ r.1.seriesId ∈ sids) →
        ∀ x, x ∈ joinGk E t [] sids (rows.map Prod.fst) ↔
          ∃ a ∈ rows, groupText [] a.2 = some x.2 ∧ a.1 = x.1 := by
    intro sids rows hsids hrows x
    rw [joinGk_eq h hsids E (fun r hr => (hrows r hr).1) fun r hr => (hrows r hr).2]
    simp only [List.mem_filterMap, Option.map_eq_some_iff]
    constructor
    · rintro ⟨a, ha, text, htext, rfl⟩
      exact ⟨a, ha, htext, rfl⟩
    · rintro ⟨a, ha, htext, hx⟩
      exact ⟨a, ha, x.2, htext, Prod.ext hx rfl⟩
  have hmatch : ∀ x, x ∈ matchSides E t lsids (lrows.map Prod.fst) rsids (rrows.map Prod.fst) ↔
      ∃ a ∈ lrows, ∃ b ∈ rrows, a.1.at_ = b.1.at_ ∧ SameText a.2 b.2 ∧
        x = (a.1, b.1.value) := by
    intro x
    rw [matchSides, List.mem_map]
    constructor
    · rintro ⟨z, hz, rfl⟩
      obtain ⟨hzl, hzr, hon⟩ := Sql.mem_join.mp hz
      obtain ⟨a, ha, htext, hza⟩ := (hgk hlsids hl z.1).mp hzl
      obtain ⟨b, hb, htext', hzb⟩ := (hgk hrsids hr z.2).mp hzr
      obtain ⟨hsame, hat⟩ := of_decide_eq_true hon
      refine ⟨a, ha, b, hb, by rw [hza, hzb, hat], ⟨z.1.2, htext, hsame ▸ htext'⟩, ?_⟩
      rw [hza, hzb]
    · rintro ⟨a, ha, b, hb, hat, ⟨text, htext, htext'⟩, rfl⟩
      exact ⟨((a.1, text), (b.1, text)), Sql.mem_join.mpr ⟨(hgk hlsids hl _).mpr
        ⟨a, ha, htext, rfl⟩, (hgk hrsids hr _).mpr ⟨b, hb, htext', rfl⟩,
          decide_eq_true ⟨rfl, hat⟩⟩, rfl⟩
  rw [List.mem_filterMap]
  constructor
  · rintro ⟨x, hx, hy⟩
    obtain ⟨hxm, hs, hon⟩ := Sql.mem_join.mp hx
    obtain ⟨a, ha, b, hb, hat, htext, hxa⟩ := (hmatch _).mp hxm
    have hseries : x.2 = a.2 := by
      refine series_eq h hs (hl a ha).1.1 ?_
      rw [← (hl a ha).1.2, ← beq_iff_eq.mp hon, hxa]
    refine ⟨a, ha, b, hb, hat, htext, ?_⟩
    rw [matchedRow, hxa, hseries] at hy
    exact hy
  · rintro ⟨a, ha, b, hb, hat, htext, hy⟩
    refine ⟨((a.1, b.1.value), a.2), Sql.mem_join.mpr ⟨(hmatch _).mpr
      ⟨a, ha, b, hb, hat, htext, rfl⟩, (hl a ha).1.1, beq_iff_eq.mpr (hl a ha).1.2⟩, hy⟩

variable {lsel rsel : VectorSelector} {op : BinOp} {returnBool : Bool}

/-- The latest rows with their series, as a side of a query has them. -/
theorem latestSide (h : OneRowPerSeries t) (hplain : Plain t) (sel : VectorSelector) (timeUs : ℤ) :
    ∃ rows : List (Point Unit Exact × Skaldberg.SeriesRow),
      (latestPoints E t sel timeUs).map Point.plusZero = rows.map Prod.fst ∧
        rows.Perm ((latestRows t sel (asI64 (timeUs - lookbackUs)) timeUs).map fun r =>
          (⟨(), r.1.seriesId, r.1.value⟩, r.2)) := by
  refine ⟨joinSeries t Point.seriesId (latestPoints E t sel timeUs), ?_,
    joinSeries_latestPoints_perm h hplain.distinctTimestamps E timeUs⟩
  have hlatest : (latestPoints E t sel timeUs).Perm _ :=
    latestPoints_perm h hplain.distinctTimestamps E timeUs
  have hpoint : ∀ p ∈ latestPoints E t sel timeUs,
      (∃ s ∈ t.series, s.seriesId = p.seriesId) ∧ p.value.IsNum := by
    intro p hp
    obtain ⟨r, hr, rfl⟩ := List.mem_map.mp (hlatest.mem_iff.mp hp)
    obtain ⟨⟨hsa, hs, hon⟩, -⟩ := mem_baseRows.mp (mem_baseRows_of_mem_latestRows hr)
    exact ⟨⟨r.2, hs, hon.symm⟩, hplain.numbers r.1 hsa⟩
  rw [map_fst_joinSeries h fun p hp => (hpoint p hp).1, map_plusZero fun p hp => (hpoint p hp).2]

/-- **What an instant query makes** of the latest rows. -/
theorem mem_vectorVectorInstantViaSql (h : OneRowPerSeries t) (hplain : Plain t)
    (hlsel : lsel.RegexFree) (hrsel : rsel.RegexFree) {timeUs : ℤ} {x : String × Labels × Exact} :
    x ∈ (vectorVectorInstantViaSql E t lsel rsel op returnBool timeUs).map InstantPoint.named ↔
      ∃ a ∈ latestRows t lsel (asI64 (timeUs - lookbackUs)) timeUs,
        ∃ b ∈ latestRows t rsel (asI64 (timeUs - lookbackUs)) timeUs, SameText a.2 b.2 ∧
          ∃ v, applyOp op returnBool a.1.value b.1.value a.1.value = some v ∧
            x = (resultName op returnBool a.2.metricName, a.2.labels, v) := by
  let point (r : SampleRow Exact × Skaldberg.SeriesRow) : Point Unit Exact × Skaldberg.SeriesRow :=
    (⟨(), r.1.seriesId, r.1.value⟩, r.2)
  obtain ⟨lrows, hl, hlperm⟩ := latestSide (E := E) h hplain lsel timeUs
  obtain ⟨rrows, hr, hrperm⟩ := latestSide (E := E) h hplain rsel timeUs
  have hside : ∀ (sel : VectorSelector) {rows : List (Point Unit Exact × Skaldberg.SeriesRow)},
      rows.Perm ((latestRows t sel (asI64 (timeUs - lookbackUs)) timeUs).map point) →
        ∀ r ∈ rows, (r.2 ∈ t.series ∧ r.1.seriesId = r.2.seriesId) ∧
          r.1.seriesId ∈ (rows.map Prod.fst).map Point.seriesId := by
    intro sel rows hperm r hr
    refine ⟨?_, List.mem_map_of_mem (List.mem_map_of_mem hr)⟩
    obtain ⟨r', hr', rfl⟩ := List.mem_map.mp (hperm.mem_iff.mp hr)
    obtain ⟨⟨-, hs, hon⟩, -⟩ := mem_baseRows.mp (mem_baseRows_of_mem_latestRows hr')
    exact ⟨hs, hon⟩
  have hsids : ∀ sel : VectorSelector,
      (((latestPoints E t sel timeUs).map Point.plusZero).map Point.seriesId).Nodup := by
    intro sel
    rw [List.map_map]
    exact nodup_seriesId_latestPoints E t sel timeUs
  have hrows := mem_matchedRows (E := E) h (hl ▸ hsids lsel) (hr ▸ hsids rsel)
    (hside lsel hlperm) (hside rsel hrperm) op returnBool
  rw [vectorVectorInstantViaSql]
  simp only [List.mem_map, decodeInstantRows, hl, hr, hlsel.postFilter, hrsel.postFilter,
    Bool.and_self, List.filter_true, hrows]
  have hnum : ∀ {sel : VectorSelector} {r : SampleRow Exact × Skaldberg.SeriesRow},
      r ∈ latestRows t sel (asI64 (timeUs - lookbackUs)) timeUs → r.1.value.IsNum :=
    fun hr => hplain.numbers _ (mem_baseRows.mp (mem_baseRows_of_mem_latestRows hr)).1.1
  constructor
  · rintro ⟨_, ⟨y, ⟨a, ha, b, hb, -, htext, hy⟩, rfl⟩, rfl⟩
    obtain ⟨ra, hra, rfl⟩ := List.mem_map.mp (hlperm.mem_iff.mp ha)
    obtain ⟨rb, hrb, rfl⟩ := List.mem_map.mp (hrperm.mem_iff.mp hb)
    rw [binaryRow_eq (hnum hra) (hnum hrb) op returnBool rfl] at hy
    obtain ⟨v, hv, rfl⟩ := Option.map_eq_some_iff.mp hy
    exact ⟨ra, hra, rb, hrb, htext, v, hv, rfl⟩
  · rintro ⟨ra, hra, rb, hrb, htext, v, hv, rfl⟩
    let y : Point Unit Exact × Skaldberg.SeriesRow := (⟨(), ra.1.seriesId, v⟩,
      { ra.2 with metricName := resultName op returnBool ra.2.metricName })
    refine ⟨_, ⟨y, ⟨point ra, hlperm.mem_iff.mpr (List.mem_map_of_mem hra), point rb,
      hrperm.mem_iff.mpr (List.mem_map_of_mem hrb), trivial, htext, ?_⟩, rfl⟩, rfl⟩
    rw [binaryRow_eq (hnum hra) (hnum hrb) op returnBool rfl, hv]
    rfl

/-- **What a matrix query makes** of the rows of its windows. -/
theorem mem_rows_vectorVectorRangeViaSql (h : OneRowPerSeries t) (hplain : Plain t)
    (hlsel : lsel.RegexFree) (hrsel : rsel.RegexFree) (op : BinOp) (returnBool : Bool)
    (startUs endUs : ℤ) :
    ∃ rows : List (SeriesRow Exact),
      vectorVectorRangeViaSql E t lsel rsel op returnBool startUs endUs =
        (groupRowsBySeries rows).values ∧ ∀ row, row ∈ rows ↔
          ∃ a ∈ baseRows t lsel startUs endUs, ∃ b ∈ baseRows t rsel startUs endUs,
            a.1.timestamp = b.1.timestamp ∧ SameText a.2 b.2 ∧
              ∃ v, applyOp op returnBool a.1.value b.1.value a.1.value = some v ∧
                row = ⟨resultName op returnBool a.2.metricName, a.2.labels, a.1.timestamp, v⟩ := by
  have hnum : ∀ {sel : VectorSelector} {r : SampleRow Exact × Skaldberg.SeriesRow},
      r ∈ baseRows t sel startUs endUs → r.1.value.IsNum :=
    fun hr => hplain.numbers _ (mem_baseRows.mp hr).1.1
  have hpoints : ∀ sel : VectorSelector, (windowPoints t sel startUs endUs).map Point.plusZero =
      ((baseRows t sel startUs endUs).map basePoint).map Prod.fst := by
    intro sel
    rw [List.map_map]
    refine map_plusZero fun p hp => ?_
    obtain ⟨r, hr, rfl⟩ := List.mem_map.mp hp
    exact hnum hr
  have hside : ∀ (sel : VectorSelector), ∀ r ∈ (baseRows t sel startUs endUs).map basePoint,
      (r.2 ∈ t.series ∧ r.1.seriesId = r.2.seriesId) ∧ r.1.seriesId ∈
        ((((baseRows t sel startUs endUs).map basePoint).map Prod.fst).map
          Point.seriesId).dedup := by
    intro sel r hr
    refine ⟨?_, List.mem_dedup.mpr (List.mem_map_of_mem (List.mem_map_of_mem hr))⟩
    obtain ⟨r', hr', rfl⟩ := List.mem_map.mp hr
    obtain ⟨⟨-, hs, hon⟩, -⟩ := mem_baseRows.mp hr'
    exact ⟨hs, hon⟩
  have hrows := fun y => ((E.sort_perm (fun a b : (Point ℤ Exact × Exact) × Skaldberg.SeriesRow =>
    nameTimeLe (a.2.metricName, a.1.1.at_)
      (b.2.metricName, b.1.1.at_)) _).filterMap _).mem_iff.trans
      (mem_matchedRows (E := E) h (List.nodup_dedup _) (List.nodup_dedup _) (hside lsel)
        (hside rsel) op
        returnBool y)
  refine ⟨_, rfl, fun row => ?_⟩
  simp only [hpoints, hlsel.postFilter, hrsel.postFilter, Bool.and_self, List.filter_true,
    orderMatched]
  have hop : ∀ {ra rb : SampleRow Exact × Skaldberg.SeriesRow},
      ra ∈ baseRows t lsel startUs endUs → rb ∈ baseRows t rsel startUs endUs →
        binaryRow op returnBool (basePoint ra).1.value (basePoint rb).1.value (basePoint ra) =
          (applyOp op returnBool ra.1.value rb.1.value ra.1.value).map fun v =>
            (⟨ra.1.timestamp, ra.1.seriesId, v⟩,
              { ra.2 with metricName := resultName op returnBool ra.2.metricName }) :=
    fun hra hrb => binaryRow_eq (hnum hra) (hnum hrb) op returnBool rfl
  rw [List.mem_map]
  constructor
  · rintro ⟨y, hy, rfl⟩
    obtain ⟨a, ha, b, hb, htime, htext, hrow⟩ := (hrows y).mp hy
    obtain ⟨ra, hra, rfl⟩ := List.mem_map.mp ha
    obtain ⟨rb, hrb, rfl⟩ := List.mem_map.mp hb
    rw [hop hra hrb] at hrow
    obtain ⟨v, hv, rfl⟩ := Option.map_eq_some_iff.mp hrow
    exact ⟨ra, hra, rb, hrb, htime, htext, v, hv, rfl⟩
  · rintro ⟨ra, hra, rb, hrb, htime, htext, v, hv, rfl⟩
    let y : Point ℤ Exact × Skaldberg.SeriesRow := (⟨ra.1.timestamp, ra.1.seriesId, v⟩,
      { ra.2 with metricName := resultName op returnBool ra.2.metricName })
    refine ⟨y, (hrows y).mpr ⟨basePoint ra, List.mem_map_of_mem hra, basePoint rb,
      List.mem_map_of_mem hrb, htime, htext, (hop hra hrb).trans ?_⟩, rfl⟩
    rw [hv]
    rfl

end Query

end Skaldberg.Prometheus
