import Mathlib.Computability.RegularExpressions
import Mathlib.Tactic.IntervalCases
import Skaldberg.Ingest.Validate

/-!
# What validation accepts

Names are given by a regular expression, `[a-zA-Z_][a-zA-Z0-9_]*`, and read by a function that
looks at one character after the other; the two are one language (`isValidName_iff`). A sample is
accepted when its metric and its label names are in that language, no label name starts with two
underscores, the value is finite and the timestamp lies in the window around the present
(`InGrammar`).

The labels of a sample come in the order in which a hash map yields them. The order decides which
of several mistakes is reported, but neither whether a sample is accepted nor as what:
`validate_grammar` fixes a sample and speaks about all orders of its labels.
-/

namespace Skaldberg

/-! ### Names -/

/-- One of some characters. -/
def oneOf (cs : List Char) : RegularExpression Char := cs.foldr (fun c r => .char c + r) 0

/-- `a-zA-Z_`. -/
def nameStart : List Char := "abcdefghijklmnopqrstuvwxyzABCDEFGHIJKLMNOPQRSTUVWXYZ_".toList

/-- `a-zA-Z0-9_`. -/
def nameChars : List Char := nameStart ++ "0123456789".toList

/-- `[a-zA-Z_][a-zA-Z0-9_]*`. -/
def nameRegex : RegularExpression Char := oneOf nameStart * (oneOf nameChars).star

theorem mem_oneOf {cs w : List Char} : w ∈ (oneOf cs).matches' ↔ ∃ c ∈ cs, w = [c] := by
  induction cs with
  | nil => simp [oneOf, RegularExpression.matches'_zero, Language.notMem_zero]
  | cons c cs ih =>
    rw [oneOf, List.foldr_cons, RegularExpression.matches'_add, Language.mem_add]
    rw [oneOf] at ih
    have hchar : w ∈ (RegularExpression.char c).matches' ↔ w = [c] := Iff.rfl
    rw [ih, hchar]
    simp

theorem mem_star_oneOf {cs w : List Char} :
    w ∈ (oneOf cs).star.matches' ↔ ∀ c ∈ w, c ∈ cs := by
  rw [RegularExpression.matches'_star, Language.mem_kstar]
  constructor
  · rintro ⟨ws, rfl, hws⟩ c hc
    obtain ⟨w, hw, hc⟩ := List.mem_flatten.mp hc
    obtain ⟨c', hc', rfl⟩ := mem_oneOf.mp (hws w hw)
    rwa [List.mem_singleton.mp hc]
  · intro hw
    refine ⟨w.map fun c => [c], (List.flatMap_singleton' w).symm, fun v hv => ?_⟩
    obtain ⟨c, hc, rfl⟩ := List.mem_map.mp hv
    exact mem_oneOf.mpr ⟨c, hw c hc, rfl⟩

/-- A range of characters is in a list when each of its numbers is the number of one. -/
theorem mem_of_range {c : Char} {cs : List Char} {lo hi : UInt32}
    (h : lo ≤ c.val ∧ c.val ≤ hi)
    (hall : ∀ n, lo.toNat ≤ n → n ≤ hi.toNat → Char.ofNat n ∈ cs) : c ∈ cs := by
  simp only [UInt32.le_iff_toNat_le] at h
  have hmem := hall c.toNat h.1 h.2
  rwa [Char.ofNat_toNat] at hmem

theorem mem_nameStart {c : Char} : c ∈ nameStart ↔ (c.isAlpha || c == '_') = true := by
  constructor
  · intro hc
    have hall : nameStart.all (fun c => c.isAlpha || c == '_') = true := by decide
    exact List.all_eq_true.mp hall c hc
  · intro hc
    rcases Bool.or_eq_true_iff.mp hc with halpha | heq
    · -- letters are two ranges of numbers
      rcases Bool.or_eq_true_iff.mp halpha with hupper | hlower
      · refine mem_of_range (of_decide_eq_true hupper) fun n hlo hhi => ?_
        have h65 : 65 ≤ n := hlo
        have h90 : n ≤ 90 := hhi
        interval_cases n <;> decide
      · obtain ⟨hlo, hhi⟩ := Bool.and_eq_true_iff.mp hlower
        refine mem_of_range ⟨of_decide_eq_true hlo, of_decide_eq_true hhi⟩ fun n hlo hhi => ?_
        have h97 : 97 ≤ n := hlo
        have h122 : n ≤ 122 := hhi
        interval_cases n <;> decide
    · rw [beq_iff_eq.mp heq]
      decide

theorem mem_nameChars {c : Char} : c ∈ nameChars ↔ (c.isAlphanum || c == '_') = true := by
  rw [nameChars, List.mem_append, mem_nameStart]
  have hdigit : c ∈ "0123456789".toList ↔ c.isDigit = true := by
    constructor
    · intro hc
      have hall : "0123456789".toList.all Char.isDigit = true := by decide
      exact List.all_eq_true.mp hall c hc
    · intro hc
      obtain ⟨hlo, hhi⟩ := Bool.and_eq_true_iff.mp hc
      refine mem_of_range ⟨of_decide_eq_true hlo, of_decide_eq_true hhi⟩ fun n hlo hhi => ?_
      have h48 : 48 ≤ n := hlo
      have h57 : n ≤ 57 := hhi
      interval_cases n <;> decide
  rw [hdigit, Char.isAlphanum]
  simp only [Bool.or_eq_true]
  tauto

/-- **The recogniser of names accepts its grammar.** -/
theorem isValidName_iff (name : String) :
    isValidName name = true ↔ name.toList ∈ nameRegex.matches' := by
  rw [nameRegex, RegularExpression.matches'_mul, Language.mem_mul, isValidName]
  constructor
  · intro h
    rcases hname : name.toList with _ | ⟨c, cs⟩
    · rw [hname] at h
      cases h
    · rw [hname] at h
      obtain ⟨hc, hcs⟩ := Bool.and_eq_true_iff.mp h
      refine ⟨[c], mem_oneOf.mpr ⟨c, mem_nameStart.mpr hc, rfl⟩, cs, ?_, rfl⟩
      exact mem_star_oneOf.mpr fun d hd => mem_nameChars.mpr (List.all_eq_true.mp hcs d hd)
  · rintro ⟨w, hw, cs, hcs, hname⟩
    obtain ⟨c, hc, rfl⟩ := mem_oneOf.mp hw
    rw [← hname]
    refine Bool.and_eq_true_iff.mpr ⟨mem_nameStart.mp hc, List.all_eq_true.mpr fun d hd => ?_⟩
    exact mem_nameChars.mp (mem_star_oneOf.mp hcs d hd)

/-! ### Samples -/

section Validate

variable {V : Type} [F64 V]

/-- A sample that is to be accepted. -/
structure InGrammar (raw : RawSample V) (nowMs : ℤ) : Prop where
  /-- The metric is a name. -/
  metric : raw.metric.toList ∈ nameRegex.matches'
  /-- The label names are names, and none of them is reserved. -/
  labels : ∀ e ∈ raw.labels, e.1.toList ∈ nameRegex.matches' ∧ ¬"__".toList <+: e.1.toList
  /-- The value is finite. -/
  value : F64.isFinite raw.value = true
  /-- The timestamp is at most an hour old. -/
  past : nowMs - 3600000 ≤ raw.ts
  /-- The timestamp is at most five minutes ahead. -/
  future : raw.ts ≤ nowMs + 300000

/-- The same sample, with its labels in another order. -/
structure Reordered (raw raw' : RawSample V) : Prop where
  /-- The metric is the same. -/
  metric : raw'.metric = raw.metric
  /-- The labels are the same, in any order. -/
  labels : raw'.labels.Perm raw.labels
  /-- The timestamp is the same. -/
  ts : raw'.ts = raw.ts
  /-- The value is the same. -/
  value : raw'.value = raw.value

omit [F64 V] in
/-- The labels of a sample, each in the map of its name. -/
theorem get?_ofList_labels (raw : RawSample V) {k v : String} :
    (SortedMap.ofList raw.labels).get? k = some v ↔ (k, v) ∈ raw.labels := by
  constructor
  · exact SortedMap.mem_of_get?_ofList
  · intro h
    refine SortedMap.get?_ofList_of_unique h fun v' h' => ?_
    exact congrArg Prod.snd (List.inj_on_of_nodup_map raw.distinct h' h rfl)

omit [F64 V] in
/-- **The map of the labels does not depend on their order.** -/
theorem Reordered.ofList_eq {raw raw' : RawSample V} (h : Reordered raw raw') :
    SortedMap.ofList raw'.labels = SortedMap.ofList raw.labels := by
  refine SortedMap.ext_get? fun k => Option.ext fun v => ?_
  rw [get?_ofList_labels, get?_ofList_labels]
  exact h.labels.mem_iff

/-- What is accepted is in the grammar, and what is in the grammar is accepted. -/
theorem validate_isOk_iff {xxh3 : List UInt8 → UInt64} {raw : RawSample V} {nowMs : ℤ} :
    (∃ s, validate xxh3 raw nowMs = .ok s) ↔ InGrammar raw nowMs := by
  have hname : ∀ name, AcceptedName name ↔
      name.toList ∈ nameRegex.matches' ∧ ¬"__".toList <+: name.toList := by
    intro name
    rw [AcceptedName, isReserved, isValidName_iff, and_comm, ← List.isPrefixOf_iff_prefix,
      Bool.not_eq_true]
  constructor
  · rintro ⟨s, hs⟩
    obtain ⟨hmetric, hlabels, ⟨hvalue, hpast, hfuture⟩, -⟩ := validate_ok_iff.mp hs
    exact ⟨(isValidName_iff _).mp hmetric, fun e he => (hname e.1).mp (hlabels e he), hvalue,
      hpast, hfuture⟩
  · intro h
    exact ⟨_, validate_ok_iff.mpr ⟨(isValidName_iff _).mpr h.metric,
      fun e he => (hname e.1).mpr (h.labels e he), ⟨h.value, h.past, h.future⟩, rfl⟩⟩

/-- What an accepted sample owes to the sample that was sent. -/
structure AcceptedAs (xxh3 : List UInt8 → UInt64) (raw : RawSample V) (s : ValidatedSample V) :
    Prop where
  /-- The metric is kept. -/
  metric : s.metric = raw.metric
  /-- The labels are those sent. -/
  labels : ∀ k v, s.labels.get? k = some v ↔ (k, v) ∈ raw.labels
  /-- The identity is that of the metric and the labels. -/
  seriesId : s.seriesId = deriveSeriesId xxh3 raw.metric (.ofList raw.labels)
  /-- The timestamp is converted exactly, -/
  tsUs : s.tsUs = 1000 * raw.ts
  /-- and fits. -/
  fits : -9223372036854775808 ≤ s.tsUs ∧ s.tsUs ≤ 9223372036854775807
  /-- The value is kept. -/
  value : s.value = raw.value

/-- **Validation accepts exactly its grammar**, whatever the order of the labels, and as the same
sample; near the present no bound of the window overflows and no timestamp is saturated. -/
theorem validate_grammar (xxh3 : List UInt8 → UInt64) (raw : RawSample V) (nowMs : ℤ)
    (hnow : 0 ≤ nowMs) (hmax : nowMs ≤ 9223372036854775807 / 1000 - graceFutureMs) :
    (-9223372036854775808 ≤ nowMs - gracePastMs ∧
        nowMs + graceFutureMs ≤ 9223372036854775807) ∧
      ∀ raw', Reordered raw raw' →
        ((∃ s, validate xxh3 raw' nowMs = .ok s) ↔ InGrammar raw nowMs) ∧
          ∀ s, validate xxh3 raw' nowMs = .ok s → AcceptedAs xxh3 raw s := by
  have hpast : gracePastMs = 3600000 := rfl
  have hfuture : graceFutureMs = 300000 := rfl
  refine ⟨⟨by omega, by omega⟩, fun raw' h => ⟨?_, fun s hs => ?_⟩⟩
  · rw [validate_isOk_iff]
    constructor
    · rintro ⟨hmetric, hlabels, hvalue, hlo, hhi⟩
      exact ⟨h.metric ▸ hmetric, fun e he => hlabels e (h.labels.mem_iff.mpr he),
        h.value ▸ hvalue, h.ts ▸ hlo, h.ts ▸ hhi⟩
    · rintro ⟨hmetric, hlabels, hvalue, hlo, hhi⟩
      exact ⟨h.metric ▸ hmetric, fun e he => hlabels e (h.labels.mem_iff.mp he),
        h.value ▸ hvalue, h.ts ▸ hlo, h.ts ▸ hhi⟩
  · obtain ⟨-, -, ⟨-, hlo, hhi⟩, rfl⟩ := validate_ok_iff.mp hs
    rw [h.ts] at hlo hhi
    have hexact : saturatingMul raw.ts 1000 = 1000 * raw.ts := by
      rw [saturatingMul]
      omega
    refine ⟨h.metric, fun k v => ?_, ?_, ?_, ?_, h.value⟩
    · show (SortedMap.ofList raw'.labels).get? k = some v ↔ _
      rw [h.ofList_eq, get?_ofList_labels]
    · show deriveSeriesId xxh3 raw'.metric (SortedMap.ofList raw'.labels) = _
      rw [h.ofList_eq, h.metric]
    · show saturatingMul raw'.ts 1000 = _
      rw [h.ts, hexact]
    · show _ ≤ saturatingMul raw'.ts 1000 ∧ saturatingMul raw'.ts 1000 ≤ _
      rw [h.ts, hexact]
      omega

/-- A sample with two labels, at the present. -/
theorem validate_grammar_two_labels :
    (-9223372036854775808 ≤ 1714800000000 - gracePastMs ∧
        1714800000000 + graceFutureMs ≤ 9223372036854775807) ∧
      ∀ raw', Reordered ⟨"up", [("job", "api"), ("env", "'")], by decide, 1714800000000,
          Whole.num 1⟩ raw' →
        ((∃ s, validate (fun _ => 0) raw' 1714800000000 = .ok s) ↔
          InGrammar ⟨"up", [("job", "api"), ("env", "'")], by decide, 1714800000000,
            Whole.num 1⟩ 1714800000000) ∧
          ∀ s, validate (fun _ => 0) raw' 1714800000000 = .ok s → AcceptedAs (fun _ => 0)
            ⟨"up", [("job", "api"), ("env", "'")], by decide, 1714800000000, Whole.num 1⟩ s :=
  validate_grammar (fun _ => 0) _ 1714800000000 (by decide) (by decide)

end Validate

end Skaldberg
