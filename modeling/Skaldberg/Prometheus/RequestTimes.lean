import Skaldberg.Lib.Utf8
import Skaldberg.Prometheus.EvalGrid
import Skaldberg.Prometheus.Evaluate

/-!
# The times of a request

A matrix query comes with three texts: its start, its end and its step. The step may be a number
with a unit, which is taken off as the last byte of the text, and that byte need not be a
character: the handler panics on a step that ends in a longer one (`parseDurationUs_eq_panics`).

`rangeTimes_answered_iff` says which requests are answered, by times with a positive step or by an
error: those whose step is a number or ends, up to white space, in a character of one byte, and
those that are refused before their step is looked at. In an answer there is a grid
(`isGrid_of_rangeTimes`).
-/

namespace Skaldberg.Prometheus

variable {F : Type}

/-! ### Handlers -/

/-- What a handler comes to: an answer, an error, or a panic. -/
abbrev Handler := ExceptT PromError Option

/-- A handler that returns. -/
def returns {α : Type} (r : Except PromError α) : Handler α := ExceptT.mk (some r)

/-- A handler that panics. -/
def panics {α : Type} : Handler α := ExceptT.mk none

theorem returns_ok_bind {α β : Type} (a : α) (f : α → Handler β) :
    (returns (.ok a) >>= f) = f a := rfl

theorem returns_error_bind {α β : Type} (e : PromError) (f : α → Handler β) :
    (returns (.error e) >>= f) = returns (.error e) := rfl

theorem returns_injective {α : Type} : Function.Injective (@returns α) :=
  fun _ _ h => Option.some.inj h

theorem panics_ne_returns {α : Type} (r : Except PromError α) : panics ≠ returns r := by
  intro h
  have hrun : (none : Option (Except PromError α)) = some r := h
  cases hrun

theorem panics_bind {α β : Type} (f : α → Handler β) : (panics >>= f) = panics := rfl

/-! ### Durations -/

/-- The number of microseconds of a unit. -/
def unitUs (unit : List Char) : Option ℤ :=
  if unit = ['s'] then some 1000000
  else if unit = ['m'] then some 60000000
  else if unit = ['h'] then some 3600000000
  else if unit = ['d'] then some 86400000000
  else none

section Durations

variable [F64 F] (castI64 : F → I64)

/-- `parse_duration_us`: seconds, as a number, or a number and a unit, which is what follows the
last byte but one. The cast is the saturating `as i64` of a double. -/
def parseDurationUs (s : String) : Handler I64 :=
  match (F64.parse s : Option F) with
  | some secs => returns (.ok (castI64 (F64.mul secs (F64.ofInt 1000000))))
  | none =>
    let s := Utf8.trim s.toList
    if s = [] then returns (.error (.badData "empty duration"))
    else
      match Utf8.splitAt (Utf8.length s - 1) s with
      | none => panics
      | some (numStr, unit) =>
        match (F64.parse (String.ofList numStr) : Option F) with
        | none => returns (.error (.badData ("invalid duration: " ++ String.ofList s)))
        | some n =>
          match unitUs unit with
          | none => returns (.error (.badData ("invalid duration unit: " ++ String.ofList s)))
          | some scaleUs => returns (.ok (castI64 (F64.mul n (F64.ofInt scaleUs))))

end Durations

/-- The last character of a text that is not white space, if there is one, takes one byte. -/
def EndsInOneByte (s : String) : Prop :=
  ∀ c, (s.toList.filter fun c => !Utf8.isWhitespace c).getLast? = some c → c.utf8Size = 1

/-! ### Requests -/

/-- The parameters of a matrix query. -/
structure QueryRangeParams where
  /-- The expression. -/
  query : String
  /-- The first instant. -/
  start : String
  /-- The last instant. -/
  end_ : String
  /-- The time between two evaluations. -/
  step : String

section Requests

variable [F64 F] (castI64 : F → I64)
  (parseFromRfc3339 : String → Option {dt : DateTime // IsI64 dt.micros})

/-- `range_query_inner`, up to the expression: the start, the end and the step. -/
def rangeTimes (p : QueryRangeParams) : Handler (I64 × I64 × I64) := do
  let startUs ← returns (parseTimestamp castI64 parseFromRfc3339 p.start)
  let endUs ← returns (parseTimestamp castI64 parseFromRfc3339 p.end_)
  let stepUs ← parseDurationUs castI64 p.step
  if stepUs.1 ≤ 0 then returns (.error (.badData "step must be positive"))
  else return (startUs, endUs, stepUs)

/-- `range_query_inner`. -/
def rangeQueryInner (parse : String → Except String (Expr F)) (E : Sql.Engine) (t : Tables F)
    (p : QueryRangeParams) : Handler (List (RangePoints F)) := do
  let (startUs, endUs, stepUs) ← rangeTimes castI64 parseFromRfc3339 p
  let expr ← returns ((parse p.query).mapError fun e => .badData ("PromQL parse: " ++ e))
  returns (evaluateRange E t startUs endUs stepUs expr)

/-- A request that is answered: by times with a positive step, or by an error that says what is
wrong with the request. -/
def Answered (r : Handler (I64 × I64 × I64)) : Prop :=
  (∃ startUs endUs stepUs : I64, r = returns (.ok (startUs, endUs, stepUs)) ∧ 0 < stepUs.1) ∨
    ∃ message, r = returns (.error (.badData message))

variable (F) in
/-- A text that is a number or a date and a time. -/
def IsTimestamp (s : String) : Prop :=
  (F64.parse s : Option F).isSome ∨ (parseFromRfc3339 s).isSome

end Requests

section Results

variable [F64 F] {castI64 : F → I64}
  {parseFromRfc3339 : String → Option {dt : DateTime // IsI64 dt.micros}}

theorem endsInOneByte_iff (s : String) :
    EndsInOneByte s ↔ ∀ c, (Utf8.trim s.toList).getLast? = some c → c.utf8Size = 1 := by
  rw [EndsInOneByte, Utf8.getLast?_trim]

/-- The cut of a trimmed text, one byte short of its end. -/
theorem splitAt_trim {s : String} (hne : Utf8.trim s.toList ≠ []) :
    ∃ cs c, Utf8.splitAt (Utf8.length (Utf8.trim s.toList) - 1) (Utf8.trim s.toList) =
      (if c.utf8Size = 1 then some (cs, [c]) else none) ∧ (EndsInOneByte s ↔ c.utf8Size = 1) := by
  rcases List.eq_nil_or_concat (Utf8.trim s.toList) with hnil | ⟨cs, c, hcs⟩
  · exact absurd hnil hne
  · rw [List.concat_eq_append] at hcs
    refine ⟨cs, c, ?_, ?_⟩
    · rw [hcs]
      exact Utf8.splitAt_length_pred cs c
    · rw [endsInOneByte_iff, hcs, List.getLast?_concat]
      simp

/-- **Where the offset of the cut is valid**: in a text that ends in a character of one byte. -/
theorem isValid_cut_iff {s : String} (hne : Utf8.trim s.toList ≠ []) :
    String.Pos.Raw.IsValid (String.ofList (Utf8.trim s.toList))
      ⟨Utf8.length (Utf8.trim s.toList) - 1⟩ ↔ EndsInOneByte s := by
  obtain ⟨cs, c, hsplit, hends⟩ := splitAt_trim hne
  rw [← Utf8.isSome_splitAt_iff, String.toList_ofList, hsplit, hends]
  split_ifs with hone <;> simp [hone]

/-- **A step that ends in a longer character** is cut inside it. -/
theorem parseDurationUs_eq_panics {s : String} (hnum : (F64.parse s : Option F) = none)
    (h : ¬EndsInOneByte s) : parseDurationUs castI64 s = panics := by
  have hne : Utf8.trim s.toList ≠ [] := by
    intro hnil
    refine h ((endsInOneByte_iff s).mpr fun c hc => ?_)
    rw [hnil] at hc
    cases hc
  obtain ⟨cs, c, hsplit, hends⟩ := splitAt_trim hne
  rw [if_neg (fun hone => h (hends.mpr hone))] at hsplit
  simp only [parseDurationUs, hnum, hne, if_false, hsplit]

/-- Any other step is read or refused. -/
theorem parseDurationUs_returns (castI64 : F → I64) {s : String}
    (h : (F64.parse s : Option F).isSome ∨ EndsInOneByte s) :
    (∃ us, parseDurationUs castI64 s = returns (.ok us)) ∨
      ∃ message, parseDurationUs castI64 s = returns (.error (.badData message)) := by
  rcases hnum : (F64.parse s : Option F) with _ | secs
  · rw [hnum] at h
    have hends : EndsInOneByte s := h.resolve_left (by simp)
    by_cases hne : Utf8.trim s.toList = []
    · exact .inr ⟨_, by simp only [parseDurationUs, hnum, hne, if_true]; rfl⟩
    · obtain ⟨cs, c, hsplit, hone⟩ := splitAt_trim hne
      rw [if_pos (hone.mp hends)] at hsplit
      simp only [parseDurationUs, hnum, hne, if_false, hsplit]
      rcases (F64.parse (String.ofList cs) : Option F) with _ | n
      · exact .inr ⟨_, rfl⟩
      · rcases unitUs [c] with _ | scaleUs
        · exact .inr ⟨_, rfl⟩
        · exact .inl ⟨_, rfl⟩
  · exact .inl ⟨_, by simp only [parseDurationUs, hnum]; rfl⟩

/-- A timestamp is read or refused. -/
theorem parseTimestamp_spec (castI64 : F → I64)
    (parseFromRfc3339 : String → Option {dt : DateTime // IsI64 dt.micros}) (s : String) :
    (IsTimestamp F parseFromRfc3339 s ∧ ∃ us, parseTimestamp castI64 parseFromRfc3339 s = .ok us) ∨
      ¬IsTimestamp F parseFromRfc3339 s ∧
        ∃ message, parseTimestamp castI64 parseFromRfc3339 s = .error (.badData message) := by
  rw [parseTimestamp, IsTimestamp]
  rcases (F64.parse s : Option F) with _ | secs
  · rcases parseFromRfc3339 s with _ | dt
    · exact .inr ⟨by simp, _, rfl⟩
    · exact .inl ⟨by simp, _, rfl⟩
  · exact .inl ⟨by simp, _, rfl⟩

theorem answered_error (message : String) : Answered (returns (.error (.badData message))) :=
  .inr ⟨message, rfl⟩

theorem not_answered_panics : ¬Answered panics := by
  rintro (⟨_, _, _, h, -⟩ | ⟨_, h⟩) <;> exact panics_ne_returns _ h

variable (F) in
/-- A request whose times the handler gets through: it has no start or no end, or its step is a
number or ends in a character of one byte. -/
def Legible (parseFromRfc3339 : String → Option {dt : DateTime // IsI64 dt.micros})
    (p : QueryRangeParams) : Prop :=
  ¬IsTimestamp F parseFromRfc3339 p.start ∨ ¬IsTimestamp F parseFromRfc3339 p.end_ ∨
    (F64.parse p.step : Option F).isSome ∨ EndsInOneByte p.step

theorem rangeTimes_answered (castI64 : F → I64) {p : QueryRangeParams}
    (h : Legible F parseFromRfc3339 p) :
    Answered (rangeTimes castI64 parseFromRfc3339 p) := by
  rw [rangeTimes]
  rcases parseTimestamp_spec castI64 parseFromRfc3339 p.start with
    ⟨hs, startUs, hstart⟩ | ⟨-, m, hstart⟩
  · rcases parseTimestamp_spec castI64 parseFromRfc3339 p.end_ with
      ⟨he, endUs, hend⟩ | ⟨-, m, hend⟩
    · rw [hstart, hend, returns_ok_bind, returns_ok_bind]
      have hstep := (h.resolve_left (not_not_intro hs)).resolve_left (not_not_intro he)
      rcases parseDurationUs_returns castI64 hstep with ⟨stepUs, hread⟩ | ⟨m, hread⟩
      · rw [hread, returns_ok_bind]
        split_ifs with hle
        · exact answered_error _
        · exact .inl ⟨startUs, endUs, stepUs, rfl, by omega⟩
      · rw [hread, returns_error_bind]
        exact answered_error m
    · rw [hstart, hend, returns_ok_bind, returns_error_bind]
      exact answered_error m
  · rw [hstart, returns_error_bind]
    exact answered_error m

theorem rangeTimes_eq_panics {p : QueryRangeParams} (h : ¬Legible F parseFromRfc3339 p) :
    rangeTimes castI64 parseFromRfc3339 p = panics := by
  obtain ⟨hs, h⟩ := not_or.mp h
  obtain ⟨he, h⟩ := not_or.mp h
  obtain ⟨hnum, hends⟩ := not_or.mp h
  rcases parseTimestamp_spec castI64 parseFromRfc3339 p.start with ⟨-, _, hstart⟩ | ⟨hs', -⟩
  · rcases parseTimestamp_spec castI64 parseFromRfc3339 p.end_ with ⟨-, _, hend⟩ | ⟨he', -⟩
    · rw [rangeTimes, hstart, hend, returns_ok_bind, returns_ok_bind,
        parseDurationUs_eq_panics (Option.not_isSome_iff_eq_none.mp hnum) hends, panics_bind]
    · exact absurd he' he
  · exact absurd hs' hs

/-- **The times of a request are read, or refused with an error,** for any three texts, exactly if
the start or the end is no timestamp, the step is a number, or the last character of the step that
is not white space takes one byte. Otherwise the handler panics. -/
theorem rangeTimes_answered_iff (castI64 : F → I64)
    (parseFromRfc3339 : String → Option {dt : DateTime // IsI64 dt.micros})
    (p : QueryRangeParams) :
    Answered (rangeTimes castI64 parseFromRfc3339 p) ↔
      ¬IsTimestamp F parseFromRfc3339 p.start ∨ ¬IsTimestamp F parseFromRfc3339 p.end_ ∨
        (F64.parse p.step : Option F).isSome ∨ EndsInOneByte p.step := by
  refine ⟨fun h => ?_, rangeTimes_answered castI64⟩
  by_contra hno
  rw [rangeTimes_eq_panics hno] at h
  exact not_answered_panics h

/-- **The handler panics on its parameters or not at all.** -/
theorem rangeQueryInner_eq_panics_iff (parse : String → Except String (Expr F)) (E : Sql.Engine)
    (t : Tables F) (p : QueryRangeParams) :
    rangeQueryInner castI64 parseFromRfc3339 parse E t p = panics ↔
      ¬Legible F parseFromRfc3339 p := by
  constructor
  · intro hpanics h
    rcases rangeTimes_answered castI64 h with ⟨startUs, endUs, stepUs, hr, -⟩ | ⟨m, hr⟩
    · rw [rangeQueryInner, hr, returns_ok_bind] at hpanics
      rcases hparse : parse p.query with e | expr
      · simp only [hparse, Except.mapError, returns_error_bind] at hpanics
        exact panics_ne_returns _ hpanics.symm
      · simp only [hparse, Except.mapError, returns_ok_bind] at hpanics
        exact panics_ne_returns _ hpanics.symm
    · rw [rangeQueryInner, hr, returns_error_bind] at hpanics
      exact panics_ne_returns _ hpanics.symm
  · intro h
    rw [rangeQueryInner, rangeTimes_eq_panics h, panics_bind]

/-- **Times that are read have a grid.** -/
theorem isGrid_of_rangeTimes {p : QueryRangeParams} {startUs endUs stepUs : I64}
    (h : rangeTimes castI64 parseFromRfc3339 p = returns (.ok (startUs, endUs, stepUs))) :
    IsGrid startUs endUs stepUs (gridPoints startUs endUs stepUs) := by
  refine isGrid_gridPoints startUs endUs ?_
  have hlegible : Legible F parseFromRfc3339 p := by
    by_contra hno
    exact panics_ne_returns _ ((rangeTimes_eq_panics hno).symm.trans h)
  rcases rangeTimes_answered castI64 hlegible with ⟨_, _, _, hr, hpos⟩ | ⟨m, hr⟩
  · cases returns_injective (h.symm.trans hr)
    exact hpos
  · cases returns_injective (h.symm.trans hr)

end Results

section Instances

/-- **A step that ends in a character of two bytes.** -/
theorem micro_step_panics :
    ¬Answered (rangeTimes Whole.castI64 (fun _ => none) ⟨"up", "0", "60", "5µ"⟩) := by
  have hstep : ¬Legible Whole (fun _ => none) ⟨"up", "0", "60", "5µ"⟩ := by
    rintro (h | h | h | h)
    · exact h (.inl (by decide +kernel))
    · exact h (.inl (by decide +kernel))
    · exact absurd h (by decide +kernel)
    · exact absurd (h 'µ' (by decide +kernel)) (by decide)
  rw [rangeTimes_eq_panics hstep]
  exact not_answered_panics

end Instances

end Skaldberg.Prometheus
