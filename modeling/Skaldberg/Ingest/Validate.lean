import Skaldberg.Ingest.Types
import Skaldberg.Lib.Delimited
import Skaldberg.Prometheus.Float

/-!
# Validation and series identity

A sample is accepted if its names are well formed, its value is finite and its timestamp is near
the present. An accepted sample belongs to the series that a hash of its metric and labels names,
and what is hashed is a text of both: the metric and a NUL, then for each label its name, `=`, its
value and a NUL.

Names have neither delimiter, but a label value may be any string, and a string may have a NUL in
it. `validate_ok_iff` says what is accepted, `SeriesIdentity.distinguished_iff` which series share
their text with no other: those with no label, and those with one label whose value does not spell
another one behind a NUL. Two series without a NUL in a label value never share it
(`SeriesIdentity.seriesIdInput_injective`).
-/

namespace Skaldberg

/-- One hour: samples older than that are refused. -/
def gracePastMs : ℤ := 60 * 60 * 1000

/-- Five minutes: samples that far in the future are still accepted. -/
def graceFutureMs : ℤ := 5 * 60 * 1000

/-- A sample as a client sends it; its timestamp is in milliseconds. -/
structure RawSample (V : Type) where
  /-- The metric name. -/
  metric : String
  /-- The labels, in the order the hash map iterates them in. -/
  labels : List (String × String)
  /-- Every label has its own name. -/
  distinct : (labels.map Prod.fst).Nodup
  /-- The timestamp, in milliseconds since the epoch. -/
  ts : ℤ
  /-- The value. -/
  value : V

/-- Why a sample is refused. -/
inductive ValidationError where
  /-- There is no metric name. -/
  | emptyMetricName
  /-- The metric name is not a name. -/
  | invalidMetricName (name : String)
  /-- A label name is not a name. -/
  | invalidLabelName (name : String)
  /-- A label name is reserved. -/
  | reservedLabelName (name : String)
  /-- The value is infinite or not a number. -/
  | nonFiniteValue (text : String)
  /-- The sample is too old. -/
  | timestampTooOld (ts now graceMs : ℤ)
  /-- The sample is too far in the future. -/
  | timestampTooNew (ts now graceMs : ℤ)
  deriving DecidableEq

/-- What a refusal says. -/
def ValidationError.message : ValidationError → String
  | emptyMetricName => "metric name is empty"
  | invalidMetricName name =>
    "metric name '" ++ name ++ "' contains invalid characters (must match [a-zA-Z_][a-zA-Z0-9_]*)"
  | invalidLabelName name =>
    "label name '" ++ name ++ "' is invalid (must match [a-zA-Z_][a-zA-Z0-9_]*)"
  | reservedLabelName name => "label name '" ++ name ++ "' is reserved (starts with '__')"
  | nonFiniteValue text => "value is not finite: " ++ text
  | timestampTooOld ts now graceMs =>
    "timestamp " ++ toString ts ++ " ms is too old: now=" ++ toString now ++ " ms, grace=" ++
      toString graceMs ++ " ms"
  | timestampTooNew ts now graceMs =>
    "timestamp " ++ toString ts ++ " ms is in the future: now=" ++ toString now ++ " ms, grace=" ++
      toString graceMs ++ " ms"

/-- Whether a string is a name: a letter or an underscore, then letters, digits and
underscores. -/
def isValidName (name : String) : Bool :=
  match name.toList with
  | c :: cs => (c.isAlpha || c == '_') && cs.all fun c => c.isAlphanum || c == '_'
  | [] => false

/-- Whether a label name is reserved. -/
def isReserved (name : String) : Bool := "__".toList.isPrefixOf name.toList

/-- `i64::saturating_mul`. -/
def saturatingMul (a b : ℤ) : ℤ := max (-9223372036854775808) (min 9223372036854775807 (a * b))

/-- The bytes of a string. -/
def asBytes (s : String) : List UInt8 := s.toList.flatMap String.utf8EncodeChar

/-- The bytes whose hash names a series. -/
def seriesIdInput (metric : String) (sortedLabels : Labels) : List UInt8 :=
  asBytes metric ++ 0 :: sortedLabels.entries.flatMap fun e =>
    asBytes e.1 ++ 61 :: (asBytes e.2 ++ [0])

/-- The identity of a series. -/
def deriveSeriesId (xxh3 : List UInt8 → UInt64) (metric : String) (sortedLabels : Labels) : ℤ :=
  (xxh3 (seriesIdInput metric sortedLabels) >>> 1).toNat

/-- Check the label names and put the labels in their order. -/
def validateLabels : List (String × String) → Labels → Except ValidationError Labels
  | [], sorted => .ok sorted
  | (k, v) :: labels, sorted =>
    if isReserved k then .error (.reservedLabelName k)
    else if !isValidName k then .error (.invalidLabelName k)
    else validateLabels labels (sorted.insert k v)

section Validate

variable {V : Type} [F64 V] (xxh3 : List UInt8 → UInt64)

/-- Validate a sample. -/
def validate (raw : RawSample V) (nowMs : ℤ) : Except ValidationError (ValidatedSample V) :=
  if raw.metric.isEmpty then .error .emptyMetricName
  else if !isValidName raw.metric then .error (.invalidMetricName raw.metric)
  else
    match validateLabels raw.labels .empty with
    | .error e => .error e
    | .ok sorted =>
      if !F64.isFinite raw.value then
        .error (.nonFiniteValue (
          if F64.isNan raw.value then "NaN"
          else if F64.lt (F64.ofInt 0) raw.value then "Infinity"
          else "-Infinity"))
      else if raw.ts < nowMs - gracePastMs then
        .error (.timestampTooOld raw.ts nowMs gracePastMs)
      else if raw.ts > nowMs + graceFutureMs then
        .error (.timestampTooNew raw.ts nowMs graceFutureMs)
      else
        .ok ⟨deriveSeriesId xxh3 raw.metric sorted, raw.metric, sorted, saturatingMul raw.ts 1000,
          raw.value⟩

/-! ### What is accepted -/

/-- A label name that is accepted. -/
def AcceptedName (name : String) : Prop := isReserved name = false ∧ isValidName name = true

instance (name : String) : Decidable (AcceptedName name) :=
  inferInstanceAs (Decidable (_ ∧ _))

theorem validateLabels_eq_ok_iff {labels : List (String × String)} {sorted sorted' : Labels} :
    validateLabels labels sorted = .ok sorted' ↔
      (∀ e ∈ labels, AcceptedName e.1) ∧
        sorted' = labels.foldl (fun m e => m.insert e.1 e.2) sorted := by
  induction labels generalizing sorted with
  | nil => simp [validateLabels, eq_comm]
  | cons e labels ih =>
    obtain ⟨k, v⟩ := e
    rw [validateLabels, List.foldl_cons, List.forall_mem_cons]
    split_ifs with hres hname
    · simp [AcceptedName, hres]
    · simp only [Bool.not_eq_true'] at hname
      simp [AcceptedName, hname]
    · rw [ih]
      simp only [Bool.not_eq_true', Bool.not_eq_false, Bool.not_eq_true] at hres hname
      simp [AcceptedName, hres, hname]

/-- The value and the timestamp of an accepted sample. -/
def AcceptedPoint (value : V) (ts nowMs : ℤ) : Prop :=
  F64.isFinite value = true ∧ nowMs - gracePastMs ≤ ts ∧ ts ≤ nowMs + graceFutureMs

instance (value : V) (ts nowMs : ℤ) : Decidable (AcceptedPoint value ts nowMs) :=
  inferInstanceAs (Decidable (_ ∧ _ ∧ _))

variable {xxh3} {raw : RawSample V} {nowMs : ℤ} {s : ValidatedSample V}

/-- **What is accepted**, and as which sample. -/
theorem validate_ok_iff :
    validate xxh3 raw nowMs = .ok s ↔
      isValidName raw.metric = true ∧ (∀ e ∈ raw.labels, AcceptedName e.1) ∧
        AcceptedPoint raw.value raw.ts nowMs ∧
        s = ⟨deriveSeriesId xxh3 raw.metric (.ofList raw.labels), raw.metric, .ofList raw.labels,
          saturatingMul raw.ts 1000, raw.value⟩ := by
  rw [validate]
  by_cases hempty : raw.metric.isEmpty = true
  · have hinvalid : isValidName raw.metric = false := by
      have hnil : raw.metric = "" := String.isEmpty_iff.mp hempty
      rw [hnil]
      rfl
    simp [hempty, hinvalid]
  · by_cases hname : isValidName raw.metric = true
    · simp only [hempty, hname, Bool.not_true, Bool.false_eq_true, if_false, true_and]
      rcases hl : validateLabels raw.labels .empty with e | sorted
      · have hno : ¬∀ e ∈ raw.labels, AcceptedName e.1 := by
          intro hall
          rw [validateLabels_eq_ok_iff.mpr ⟨hall, rfl⟩] at hl
          cases hl
        exact ⟨fun h => (by cases h), fun h => absurd h.1 hno⟩
      · obtain ⟨hall, hsorted⟩ := validateLabels_eq_ok_iff.mp hl
        have hof : sorted = SortedMap.ofList raw.labels := hsorted
        simp only [iff_true_intro hall, true_and, AcceptedPoint, hof]
        by_cases hfin : F64.isFinite raw.value = true
        · simp only [hfin, Bool.not_true, Bool.false_eq_true, if_false, true_and]
          split_ifs with hold hnew
          · simp only [false_iff]
            omega
          · simp only [false_iff]
            omega
          · simp only [Except.ok.injEq]
            constructor
            · rintro rfl
              exact ⟨⟨by omega, by omega⟩, rfl⟩
            · rintro ⟨-, rfl⟩
              rfl
        · simp [hfin]
    · simp [hempty, hname]

end Validate

/-! ### The text that is hashed -/

namespace SeriesIdentity

/-- The labels of a series, as the keys and values of a delimited text. -/
def fields (labels : Labels) : List (List Char × List Char) :=
  labels.entries.map fun e => (e.1.toList, e.2.toList)

/-- The text of a series. -/
def seriesText (metric : String) (labels : Labels) : List Char :=
  metric.toList ++ '\x00' :: Delimited.text '=' '\x00' (fields labels)

/-- **What is hashed is the text** of the series, in UTF-8. -/
theorem seriesIdInput_eq (metric : String) (labels : Labels) :
    seriesIdInput metric labels = (seriesText metric labels).flatMap String.utf8EncodeChar := by
  have hnul : String.utf8EncodeChar '\x00' = [0] := by decide
  have heq : String.utf8EncodeChar '=' = [61] := by decide
  rw [seriesIdInput, seriesText, List.flatMap_append, List.flatMap_cons, hnul, Delimited.text,
    fields, List.flatMap_map, List.flatMap_assoc]
  refine congrArg (asBytes metric ++ 0 :: ·) (List.flatMap_congr fun e _ => ?_)
  rw [List.flatMap_append, List.flatMap_cons, heq, List.flatMap_append, List.flatMap_singleton,
    hnul]
  rfl

theorem utf8_injective {cs cs' : List Char}
    (h : cs.flatMap String.utf8EncodeChar = cs'.flatMap String.utf8EncodeChar) : cs = cs' := by
  have hbytes : cs.utf8Encode = cs'.utf8Encode := congrArg List.toByteArray h
  have hdecode := congrArg ByteArray.utf8Decode? hbytes
  rw [List.utf8Decode?_utf8Encode, List.utf8Decode?_utf8Encode] at hdecode
  simpa using hdecode

theorem fields_injective {labels labels' : Labels} (h : fields labels = fields labels') :
    labels = labels' := by
  refine SortedMap.ext_entries (List.map_injective_iff.mpr ?_ h)
  rintro ⟨k, v⟩ ⟨k', v'⟩ he
  simp only [Prod.mk.injEq, String.toList_inj] at he
  rw [he.1, he.2]

/-- A name has neither delimiter. -/
theorem not_mem_of_isValidName {name : String} (h : isValidName name = true) :
    '=' ∉ name.toList ∧ '\x00' ∉ name.toList := by
  rw [isValidName] at h
  rcases hl : name.toList with _ | ⟨c, cs⟩
  · simp
  · rw [hl] at h
    simp only [Bool.and_eq_true, Bool.or_eq_true, beq_iff_eq, List.all_eq_true] at h
    have hc : c ≠ '=' ∧ c ≠ '\x00' := by
      constructor <;> rintro rfl <;> rcases h.1 with h | h <;> revert h <;> decide
    have hcs : ∀ d ∈ cs, d ≠ '=' ∧ d ≠ '\x00' := by
      intro d hd
      have hd := h.2 d hd
      constructor <;> rintro rfl <;> rcases hd with h | h <;> revert h <;> decide
    simp only [List.mem_cons, not_or]
    exact ⟨⟨hc.1.symm, fun hm => (hcs _ hm).1 rfl⟩, ⟨hc.2.symm, fun hm => (hcs _ hm).2 rfl⟩⟩

/-- **The same bytes are the same metric and the same text of labels.** -/
theorem seriesIdInput_eq_iff {metric metric' : String} {labels labels' : Labels}
    (h : isValidName metric = true) (h' : isValidName metric' = true) :
    seriesIdInput metric labels = seriesIdInput metric' labels' ↔
      metric = metric' ∧ Delimited.text '=' '\x00' (fields labels) =
        Delimited.text '=' '\x00' (fields labels') := by
  rw [seriesIdInput_eq, seriesIdInput_eq]
  constructor
  · intro heq
    obtain ⟨hm, ht⟩ := Delimited.append_cons_inj (not_mem_of_isValidName h).2
      (not_mem_of_isValidName h').2 (utf8_injective heq)
    exact ⟨String.toList_inj.mp hm, ht⟩
  · rintro ⟨rfl, ht⟩
    rw [seriesText, seriesText, ht]

/-! ### Which series share their bytes -/

/-- A series that no other one can share its bytes with: it has no label, or one, and the value of
that one does not spell another label behind a NUL. -/
def Solitary (labels : Labels) : Prop :=
  labels.entries = [] ∨ ∃ k v, labels.entries = [(k, v)] ∧
    ∀ a name w : String, v = a ++ "\x00" ++ name ++ "=" ++ w → AcceptedName name → ¬k < name

/-- No label value has a NUL. -/
def NulFree (labels : Labels) : Prop := ∀ e ∈ labels.entries, '\x00' ∉ e.2.toList

instance (labels : Labels) : Decidable (NulFree labels) :=
  inferInstanceAs (Decidable (∀ e ∈ labels.entries, '\x00' ∉ e.2.toList))

variable {V : Type} [F64 V] {xxh3 : List UInt8 → UInt64}

/-- The names of an accepted sample. -/
theorem accepted_names {raw : RawSample V} {nowMs : ℤ} {s : ValidatedSample V}
    (h : validate xxh3 raw nowMs = .ok s) :
    isValidName s.metric = true ∧ ∀ e ∈ s.labels.entries, AcceptedName e.1 := by
  obtain ⟨hmetric, hlabels, -, rfl⟩ := validate_ok_iff.mp h
  refine ⟨hmetric, fun e he => ?_⟩
  exact hlabels e (SortedMap.mem_of_get?_ofList (SortedMap.get?_eq_some_iff.mpr he))

/-- A sample like an accepted one, of the same metric with other labels, is accepted. -/
theorem exists_accepted {raw : RawSample V} {nowMs : ℤ} {s : ValidatedSample V}
    (h : validate xxh3 raw nowMs = .ok s) {labels : Labels}
    (hlabels : ∀ e ∈ labels.entries, AcceptedName e.1) :
    ∃ (raw' : RawSample V) (s' : ValidatedSample V), validate xxh3 raw' nowMs = .ok s' ∧
      s'.metric = s.metric ∧ s'.labels = labels := by
  obtain ⟨hmetric, -, hpoint, rfl⟩ := validate_ok_iff.mp h
  refine ⟨⟨raw.metric, labels.entries, labels.keys_nodup, raw.ts, raw.value⟩, _,
    validate_ok_iff.mpr ⟨hmetric, hlabels, hpoint, rfl⟩, rfl, SortedMap.ofList_entries labels⟩

/-- **Series without a NUL in a label value never share their bytes.** -/
theorem seriesIdInput_injective {raw raw' : RawSample V} {nowMs nowMs' : ℤ}
    {s s' : ValidatedSample V} (h : validate xxh3 raw nowMs = .ok s)
    (h' : validate xxh3 raw' nowMs' = .ok s') (hnul : NulFree s.labels) (hnul' : NulFree s'.labels)
    (heq : seriesIdInput s.metric s.labels = seriesIdInput s'.metric s'.labels) :
    s.metric = s'.metric ∧ s.labels = s'.labels := by
  obtain ⟨hm, hl⟩ := accepted_names h
  obtain ⟨hm', hl'⟩ := accepted_names h'
  obtain ⟨hmetric, htext⟩ := (seriesIdInput_eq_iff hm hm').mp heq
  have hfields : ∀ labels : Labels, (∀ e ∈ labels.entries, AcceptedName e.1) → NulFree labels →
      ∀ f ∈ fields labels, '=' ∉ f.1 ∧ '\x00' ∉ f.2 := by
    intro labels hnames hfree f hf
    obtain ⟨e, he, rfl⟩ := List.mem_map.mp hf
    exact ⟨(not_mem_of_isValidName (hnames e he).2).1, hfree e he⟩
  exact ⟨hmetric, fields_injective (Delimited.text_injective (hfields _ hl hnul)
    (hfields _ hl' hnul') htext)⟩

/-- A label behind a NUL in the value of another is one more label. -/
theorem text_fields_split {labels labels' : Labels} {k a name w : String}
    {rest : List (String × String)} (h : labels.entries = (k, a) :: (name, w) :: rest)
    (h' : labels'.entries = (k, a ++ "\x00" ++ name ++ "=" ++ w) :: rest) :
    Delimited.text '=' '\x00' (fields labels) = Delimited.text '=' '\x00' (fields labels') := by
  have hvalue : (a ++ "\x00" ++ name ++ "=" ++ w).toList =
      a.toList ++ '\x00' :: (name.toList ++ '=' :: w.toList) := by
    simp [String.toList_append]
  rw [fields, fields, h, h', List.map_cons, List.map_cons, List.map_cons,
    Delimited.text_cons_cons, hvalue]

/-- **A series that is not solitary shares its bytes** with another one that is accepted. -/
theorem exists_shared {raw : RawSample V} {nowMs : ℤ} {s : ValidatedSample V}
    (h : validate xxh3 raw nowMs = .ok s) (hs : ¬Solitary s.labels) :
    ∃ (raw' : RawSample V) (s' : ValidatedSample V), validate xxh3 raw' nowMs = .ok s' ∧
      (s.metric, s.labels) ≠ (s'.metric, s'.labels) ∧
      seriesIdInput s.metric s.labels = seriesIdInput s'.metric s'.labels := by
  obtain ⟨hmetric, hnames⟩ := accepted_names h
  -- it is enough to find other labels with the same text
  suffices hlabels : ∃ labels : Labels, (∀ e ∈ labels.entries, AcceptedName e.1) ∧
      s.labels ≠ labels ∧ Delimited.text '=' '\x00' (fields s.labels) =
        Delimited.text '=' '\x00' (fields labels) by
    obtain ⟨labels, haccepted, hne, htext⟩ := hlabels
    obtain ⟨raw', s', h', hm', rfl⟩ := exists_accepted h haccepted
    refine ⟨raw', s', h', fun heq => hne (congrArg Prod.snd heq), ?_⟩
    exact (seriesIdInput_eq_iff hmetric (hm' ▸ hmetric)).mpr ⟨hm'.symm, htext⟩
  have hsorted := s.labels.sorted
  rcases hl : s.labels.entries with _ | ⟨⟨k, v⟩, _ | ⟨⟨k', v'⟩, rest⟩⟩
  · exact absurd (Or.inl hl) hs
  · -- one label: its value spells another one behind a NUL
    have hsplit : ∃ a name w : String, v = a ++ "\x00" ++ name ++ "=" ++ w ∧
        AcceptedName name ∧ k < name := by
      by_contra hno
      push Not at hno
      exact hs (Or.inr ⟨k, v, hl, fun a name w hv hname => not_lt.mpr (hno a name w hv hname)⟩)
    obtain ⟨a, name, w, rfl, hname, hlt⟩ := hsplit
    refine ⟨⟨[(k, a), (name, w)], by simpa using hlt⟩, ?_, fun heq => ?_, ?_⟩
    · rw [hl] at hnames
      simp only [List.forall_mem_cons] at hnames ⊢
      exact ⟨hnames.1, hname, by simp⟩
    · have := congrArg (fun m : Labels => m.entries.length) heq
      simp [hl] at this
    · exact (text_fields_split rfl hl).symm
  · -- two labels: the second can be written into the value of the first
    rw [hl] at hsorted hnames
    obtain ⟨hfirst, hrest⟩ := List.pairwise_cons.mp hsorted
    refine ⟨⟨(k, v ++ "\x00" ++ k' ++ "=" ++ v') :: rest, List.pairwise_cons.mpr
      ⟨fun e he => hfirst e (List.mem_cons_of_mem _ he), (List.pairwise_cons.mp hrest).2⟩⟩,
      ?_, fun heq => ?_, text_fields_split hl rfl⟩
    · simp only [List.forall_mem_cons] at hnames ⊢
      exact ⟨hnames.1, hnames.2.2⟩
    · have := congrArg (fun m : Labels => m.entries.length) heq
      simp [hl] at this

/-- **Nothing shares the bytes of a solitary series.** -/
theorem Solitary.labels_eq {labels labels' : Labels} (hs : Solitary labels)
    (hl : ∀ e ∈ labels.entries, AcceptedName e.1) (hl' : ∀ e ∈ labels'.entries, AcceptedName e.1)
    (htext : Delimited.text '=' '\x00' (fields labels) =
      Delimited.text '=' '\x00' (fields labels')) : labels = labels' := by
  refine fields_injective ?_
  rcases hs with hnil | ⟨k, v, hone, hsolitary⟩
  · have hfields : fields labels = [] := by rw [fields, hnil, List.map_nil]
    rw [hfields] at htext ⊢
    exact (Delimited.text_eq_nil_iff.mp htext.symm).symm
  · have hfields : fields labels = [(k.toList, v.toList)] := by
      rw [fields, hone, List.map_cons, List.map_nil]
    rw [hfields] at htext ⊢
    have hk : '=' ∉ k.toList :=
      (not_mem_of_isValidName (hl (k, v) (by rw [hone]; exact List.mem_cons_self ..)).2).1
    have hkeys : ∀ f ∈ fields labels', '=' ∉ f.1 := by
      intro f hf
      obtain ⟨e, he, rfl⟩ := List.mem_map.mp hf
      exact (not_mem_of_isValidName (hl' e he).2).1
    rcases Delimited.text_eq_text_singleton hk hkeys htext.symm with heq |
      ⟨a, k', b, w, tail, hcut, hv⟩
    · exact heq.symm
    · -- the second label of the other map is spelt in the value
      obtain ⟨⟨k₁, v₁⟩, es, hes, hfirst, htail⟩ := List.map_eq_cons_iff.mp hcut
      obtain ⟨⟨name, v₂⟩, es', hes', hsecond, -⟩ := List.map_eq_cons_iff.mp htail
      simp only [Prod.mk.injEq] at hfirst hsecond
      have hk₁ : k₁ = k := String.toList_inj.mp hfirst.1
      have hsorted := labels'.sorted
      have hmem : (name, v₂) ∈ labels'.entries := by simp [hes, hes']
      rw [hes, hes'] at hsorted
      have hlt : k₁ < name := (List.pairwise_cons.mp hsorted).1 _ (List.mem_cons_self ..)
      refine absurd (hk₁ ▸ hlt) (hsolitary (String.ofList a) name (String.ofList w) ?_
        (hl' _ hmem))
      refine String.toList_inj.mp ?_
      rw [hv, ← hsecond.1]
      simp [String.toList_append]

/-- **Which series the identity tells apart from every other one**: exactly the solitary ones are
hashed from bytes that no accepted sample of another metric or other labels is hashed from. And
between series without a NUL in a label value the bytes always tell. -/
theorem distinguished_iff {raw : RawSample V} {nowMs : ℤ} {s : ValidatedSample V}
    (h : validate xxh3 raw nowMs = .ok s) :
    ((∀ (raw' : RawSample V) (nowMs' : ℤ) (s' : ValidatedSample V),
        validate xxh3 raw' nowMs' = .ok s' → (s.metric, s.labels) ≠ (s'.metric, s'.labels) →
        seriesIdInput s.metric s.labels ≠ seriesIdInput s'.metric s'.labels) ↔
      Solitary s.labels) ∧
    ∀ (raw' : RawSample V) (nowMs' : ℤ) (s' : ValidatedSample V),
      validate xxh3 raw' nowMs' = .ok s' → NulFree s.labels → NulFree s'.labels →
      (s.metric, s.labels) ≠ (s'.metric, s'.labels) →
      seriesIdInput s.metric s.labels ≠ seriesIdInput s'.metric s'.labels := by
  refine ⟨⟨fun hall => ?_, fun hs raw' nowMs' s' h' hne heq => ?_⟩,
    fun raw' nowMs' s' h' hnul hnul' hne heq => ?_⟩
  · by_contra hs
    obtain ⟨raw', s', h', hne, heq⟩ := exists_shared h hs
    exact hall raw' nowMs s' h' hne heq
  · obtain ⟨hm, hl⟩ := accepted_names h
    obtain ⟨hm', hl'⟩ := accepted_names h'
    obtain ⟨hmetric, htext⟩ := (seriesIdInput_eq_iff hm hm').mp heq
    exact hne (Prod.ext hmetric (hs.labels_eq hl hl' htext))
  · obtain ⟨hmetric, hlabels⟩ := seriesIdInput_injective h h' hnul hnul' heq
    exact hne (Prod.ext hmetric hlabels)

section Instances

/-- A sample of one label. -/
def oneLabel (v : String) : RawSample Whole := ⟨"m", [("a", v)], by simp, 0, .num 1⟩

/-- A sample of two labels. -/
def twoLabels (v w : String) : RawSample Whole := ⟨"m", [("a", v), ("b", w)], by simp, 0, .num 1⟩

/-- A series of one label and one of two, neither with a NUL in a value. -/
theorem distinguished_iff_no_nul :
    ∃ s s' : ValidatedSample Whole,
      validate (fun _ => 0) (oneLabel "1") 0 = .ok s ∧
      validate (fun _ => 0) (twoLabels "1" "2") 0 = .ok s' ∧
      seriesIdInput s.metric s.labels ≠ seriesIdInput s'.metric s'.labels := by
  have h : validate (fun _ => 0) (oneLabel "1") 0 = .ok _ :=
    validate_ok_iff.mpr ⟨by decide +kernel, by decide +kernel, by decide +kernel, rfl⟩
  have h' : validate (fun _ => 0) (twoLabels "1" "2") 0 = .ok _ :=
    validate_ok_iff.mpr ⟨by decide +kernel, by decide +kernel, by decide +kernel, rfl⟩
  exact ⟨_, _, h, h', (distinguished_iff h).2 _ _ _ h' (by decide +kernel) (by decide +kernel)
    (by decide +kernel)⟩

/-- **A NUL in a label value**: one label and two labels, both accepted and hashed from the same
bytes. -/
theorem nul_in_value_collides :
    ∃ s s' : ValidatedSample Whole,
      validate (fun _ => 0) (oneLabel "1\x00b=2") 0 = .ok s ∧
      validate (fun _ => 0) (twoLabels "1" "2") 0 = .ok s' ∧
      s.labels ≠ s'.labels ∧
      seriesIdInput s.metric s.labels = seriesIdInput s'.metric s'.labels := by
  refine ⟨_, _, validate_ok_iff.mpr ⟨by decide +kernel, by decide +kernel, by decide +kernel, rfl⟩,
    validate_ok_iff.mpr ⟨by decide +kernel, by decide +kernel, by decide +kernel, rfl⟩,
    by decide +kernel, by decide +kernel⟩

end Instances

end SeriesIdentity

end Skaldberg
