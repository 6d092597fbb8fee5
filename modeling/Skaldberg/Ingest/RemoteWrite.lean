import Skaldberg.Ingest.Validate
import Skaldberg.Ingest.Wal

/-!
# Remote write

A remote-write request carries time series: a list of labels, the metric name among them under
`__name__`, and the samples. It is flattened to the samples of the JSON endpoint and validated with
them. On the way the reserved labels are dropped, of several labels with one name the last is kept,
and a time series without a name is dropped with all its samples.

`RemoteWrite.accepted_flatten` says what comes of a request in terms of its series alone
(`RemoteWrite.acceptedOf`), whatever order the label maps are iterated in, and that no sample is
refused for what the flattening has dropped. `RemoteWrite.accepted_toTimeSeries_iff` says when the
samples of a JSON request, sent this way, are accepted as they would be there: a reserved label is
refused there and here dropped, but for `__name__`, which here is the metric name
(`RemoteWrite.unreserved`), and nothing else makes a difference.
-/

namespace Skaldberg

namespace RemoteWrite

/-- The size above which a decompressed body is refused. -/
def maxDecompressedBytes : ℕ := 32 * 1024 * 1024

/-- A label on the wire. -/
structure Label where
  /-- The name. -/
  name : String
  /-- The value. -/
  value : String
  deriving DecidableEq

/-- A sample on the wire; its timestamp is in milliseconds. -/
structure Sample (V : Type) where
  /-- The value. -/
  value : V
  /-- The timestamp, in milliseconds since the epoch. -/
  timestamp : ℤ
  deriving DecidableEq

/-- A time series on the wire. -/
structure TimeSeries (V : Type) where
  /-- The labels, with the metric name. -/
  labels : List Label
  /-- The samples. -/
  samples : List (Sample V)
  deriving DecidableEq

/-- A request on the wire. -/
structure WriteRequest (V : Type) where
  /-- The time series. -/
  timeseries : List (TimeSeries V)
  deriving DecidableEq

/-- Why a body is not a request. -/
inductive DecodeError where
  /-- It does not decompress. -/
  | snappy (reason : String)
  /-- It is too large. -/
  | tooLarge (actual max : ℕ)
  /-- It decompresses to something else. -/
  | protobuf (reason : String)
  deriving DecidableEq

/-- What a refusal says. -/
def DecodeError.message : DecodeError → String
  | snappy reason => "snappy decompress: " ++ reason
  | tooLarge actual max =>
    "decompressed body is " ++ toString actual ++ " bytes, max is " ++ toString max
  | protobuf reason => "protobuf decode: " ++ reason

/-- The functions of other crates that a body is read with. -/
structure Wire (V : Type) where
  /-- The length that a compressed body declares. -/
  decompressLen : Bytes → Option ℕ
  /-- Decompress a body. -/
  decompressVec : Bytes → Except String Bytes
  /-- Read a request. -/
  decode : Bytes → Except String (WriteRequest V)

/-- Decompress a body and read what is in it. -/
def decompressed {V : Type} (wire : Wire V) (compressed : Bytes) :
    Except DecodeError (WriteRequest V) :=
  match wire.decompressVec compressed with
  | .error e => .error (.snappy e)
  | .ok body =>
    if body.length > maxDecompressedBytes then
      .error (.tooLarge body.length maxDecompressedBytes)
    else
      match wire.decode body with
      | .error e => .error (.protobuf e)
      | .ok req => .ok req

/-- Read a request from a compressed body. -/
def decodeWriteRequest {V : Type} (wire : Wire V) (compressed : Bytes) :
    Except DecodeError (WriteRequest V) :=
  match wire.decompressLen compressed with
  | some declared =>
    -- the length is known before anything is decompressed
    if declared > maxDecompressedBytes then
      .error (.tooLarge declared maxDecompressedBytes)
    else decompressed wire compressed
  | none => decompressed wire compressed

/-- The outcome of flattening a request. -/
structure ConversionStats where
  /-- The number of time series. -/
  seriesTotal : ℕ
  /-- The number of those without a name. -/
  seriesDroppedNoName : ℕ
  /-- The number of samples of the others. -/
  samplesEmitted : ℕ
  deriving DecidableEq

/-- The order in which hash maps are iterated, each map in an order of its own. -/
structure HashOrder where
  /-- The entries of the `n`-th map. -/
  iterate : ℕ → Labels → List (String × String)
  /-- No entry is left out or repeated. -/
  perm : ∀ n labels, (iterate n labels).Perm labels.entries

theorem HashOrder.distinct (order : HashOrder) (n : ℕ) (labels : Labels) :
    ((order.iterate n labels).map Prod.fst).Nodup :=
  (((order.perm n labels).map Prod.fst).nodup_iff).mpr labels.keys_nodup

/-- The order of the label names. -/
def HashOrder.sorted : HashOrder := ⟨fun _ labels => labels.entries, fun _ _ => List.Perm.refl _⟩

/-- Tell the metric name from the labels, and drop the reserved ones. -/
def splitLabels : List Label → Option String → Labels → Option String × Labels
  | [], metric, labels => (metric, labels)
  | l :: ls, metric, labels =>
    if l.name == "__name__" then splitLabels ls (some l.value) labels
    else if isReserved l.name then splitLabels ls metric labels
    else splitLabels ls metric (labels.insert l.name l.value)

variable {V : Type}

/-- The loop of `flattenWriteRequest` over the time series, of which the first is the `n`-th. -/
def flattenLoop (order : HashOrder) : ℕ → List (TimeSeries V) → List (RawSample V) →
    ConversionStats → List (RawSample V) × ConversionStats
  | _, [], out, stats => (out, stats)
  | n, ts :: rest, out, stats =>
    match splitLabels ts.labels none .empty with
    | (some metric, labels) =>
      if metric.isEmpty then
        flattenLoop order (n + 1) rest out
          { stats with seriesDroppedNoName := stats.seriesDroppedNoName + 1 }
      else
        flattenLoop order (n + 1) rest
          (out ++ ts.samples.map fun s =>
            ⟨metric, order.iterate n labels, order.distinct n labels, s.timestamp, s.value⟩)
          { stats with samplesEmitted := stats.samplesEmitted + ts.samples.length }
    | (none, _) =>
      flattenLoop order (n + 1) rest out
        { stats with seriesDroppedNoName := stats.seriesDroppedNoName + 1 }

/-- Flatten a request to samples as the JSON endpoint has them. -/
def flattenWriteRequest (order : HashOrder) (req : WriteRequest V) :
    List (RawSample V) × ConversionStats :=
  flattenLoop order 0 req.timeseries [] ⟨req.timeseries.length, 0, 0⟩

/-! ### What a time series says -/

/-- The labels of a list that are not reserved, the last one of each name. -/
def labelsOf (ls : List Label) : Labels :=
  .ofList ((ls.filter fun l => !isReserved l.name).map fun l => (l.name, l.value))

/-- The last value of a list of labels under `__name__`. -/
def lastName (ls : List Label) : Option String :=
  ((ls.filter fun l => l.name == "__name__").getLast?).map Label.value

/-- The metric name of a list of labels. -/
def metricOf (ls : List Label) : Option String := (lastName ls).filter fun m => !m.isEmpty

/-- **What is told apart**: the last name, and the labels that are not reserved. -/
theorem splitLabels_eq (ls : List Label) (metric : Option String) (labels : Labels) :
    splitLabels ls metric labels = ((lastName ls).or metric,
      ((ls.filter fun l => !isReserved l.name).map fun l => (l.name, l.value)).foldl
        (fun m e => m.insert e.1 e.2) labels) := by
  induction ls generalizing metric labels with
  | nil => rfl
  | cons l ls ih =>
    have hname : isReserved "__name__" = true := by decide
    have hlast : l.name ≠ "__name__" → lastName (l :: ls) = lastName ls := by
      intro hne
      rw [lastName, List.filter_cons, if_neg (by simpa using hne), lastName]
    rw [splitLabels]
    split_ifs with hl hres
    · have hkept : ¬(!isReserved l.name) = true := by rw [beq_iff_eq.mp hl, hname]; simp
      have hlast : lastName (l :: ls) = some ((lastName ls).getD l.value) := by
        rw [lastName, List.filter_cons, if_pos hl, List.getLast?_cons, lastName]
        generalize List.getLast? _ = last
        cases last <;> rfl
      rw [ih, List.filter_cons, if_neg hkept, hlast]
      cases lastName ls <;> rfl
    · rw [ih, List.filter_cons, if_neg (by rw [hres]; simp), hlast (by simpa using hl)]
    · rw [ih, List.filter_cons, if_pos (by simpa using hres), hlast (by simpa using hl)]
      rfl

/-- The samples of a time series, as the JSON endpoint has them. -/
def rawsOf (order : HashOrder) (n : ℕ) (ts : TimeSeries V) : List (RawSample V) :=
  match metricOf ts.labels with
  | some metric => ts.samples.map fun s => ⟨metric, order.iterate n (labelsOf ts.labels),
      order.distinct n (labelsOf ts.labels), s.timestamp, s.value⟩
  | none => []

theorem splitLabels_start (ls : List Label) :
    splitLabels ls none .empty = (lastName ls, labelsOf ls) := by
  rw [splitLabels_eq, Option.or_none]
  rfl

/-- **The loop appends the samples of each series**, and counts those without a name. -/
theorem flattenLoop_eq (order : HashOrder) (n : ℕ) (tss : List (TimeSeries V))
    (out : List (RawSample V)) (stats : ConversionStats) :
    flattenLoop order n tss out stats =
      (out ++ ((tss.zipIdx n).flatMap fun p => rawsOf order p.2 p.1),
        ⟨stats.seriesTotal,
          stats.seriesDroppedNoName + tss.countP fun ts => (metricOf ts.labels).isNone,
          stats.samplesEmitted +
            ((tss.zipIdx n).flatMap fun p => rawsOf order p.2 p.1).length⟩) := by
  induction tss generalizing n out stats with
  | nil => simp [flattenLoop]
  | cons ts tss ih =>
    rw [flattenLoop, splitLabels_start, List.zipIdx_cons, List.flatMap_cons, List.countP_cons,
      rawsOf, metricOf]
    rcases lastName ts.labels with _ | metric
    · simp only [ih]
      simp [Nat.add_assoc, Nat.add_comm 1]
    · by_cases hempty : metric.isEmpty = true
      · have hnone : (some metric).filter (fun m => !m.isEmpty) = none := by
          rw [Option.filter_some, hempty]
          rfl
        simp only [ih, hempty, if_true, hnone]
        simp [Nat.add_assoc, Nat.add_comm 1]
      · have hsome : (some metric).filter (fun m => !m.isEmpty) = some metric := by
          rw [Option.filter_some, if_pos (by simpa using hempty)]
        simp only [ih, hempty, hsome]
        simp [Nat.add_assoc]

/-- **What a request flattens to.** -/
theorem flattenWriteRequest_eq (order : HashOrder) (req : WriteRequest V) :
    flattenWriteRequest order req =
      (req.timeseries.zipIdx.flatMap fun p => rawsOf order p.2 p.1,
        ⟨req.timeseries.length,
          req.timeseries.countP fun ts => (metricOf ts.labels).isNone,
          (req.timeseries.zipIdx.flatMap fun p => rawsOf order p.2 p.1).length⟩) := by
  rw [flattenWriteRequest, flattenLoop_eq, List.nil_append, Nat.zero_add, Nat.zero_add]

/-- A sample of a JSON request, as a time series. -/
def toTimeSeries (raw : RawSample V) : TimeSeries V where
  labels := ⟨"__name__", raw.metric⟩ :: raw.labels.map fun e => ⟨e.1, e.2⟩
  samples := [⟨raw.value, raw.ts⟩]

/-- A sample has a reserved label. -/
def HasReserved (raw : RawSample V) : Prop := ∃ e ∈ raw.labels, isReserved e.1 = true

instance (raw : RawSample V) : Decidable (HasReserved raw) :=
  inferInstanceAs (Decidable (∃ e ∈ raw.labels, isReserved e.1 = true))

/-- What is left of a sample without its reserved labels; the label `__name__` is its metric name if
there is one. -/
def unreserved (raw : RawSample V) : RawSample V where
  metric := (raw.labels.lookup "__name__").getD raw.metric
  labels := raw.labels.filter fun e => !isReserved e.1
  distinct := raw.distinct.sublist (List.filter_sublist.map _)
  ts := raw.ts
  value := raw.value

@[simp] theorem unreserved_ts (raw : RawSample V) : (unreserved raw).ts = raw.ts := rfl

@[simp] theorem unreserved_value (raw : RawSample V) : (unreserved raw).value = raw.value := rfl

theorem not_hasReserved_unreserved (raw : RawSample V) : ¬HasReserved (unreserved raw) := by
  rintro ⟨e, he, hres⟩
  have hnot := (List.mem_filter.mp he).2
  rw [hres] at hnot
  cases hnot

/-- Without a reserved label that is the sample itself. -/
theorem unreserved_eq {raw : RawSample V} (h : ¬HasReserved raw) : unreserved raw = raw := by
  have hres : ∀ e ∈ raw.labels, isReserved e.1 = false :=
    fun e he => Bool.eq_false_of_not_eq_true fun hres => h ⟨e, he, hres⟩
  have hname : raw.labels.lookup "__name__" = none := by
    refine List.lookup_eq_none_iff.mpr fun e he => ?_
    by_contra heq
    have hne : "__name__" = e.1 := by simpa using heq
    have hfalse := hres e he
    rw [← hne] at hfalse
    exact absurd hfalse (by decide)
  have hlabels : (raw.labels.filter fun e => !isReserved e.1) = raw.labels :=
    List.filter_eq_self.mpr fun e he => by rw [hres e he, Bool.not_false]
  obtain ⟨metric, labels, distinct, ts, value⟩ := raw
  simp only [unreserved] at hname hlabels ⊢
  simp only [hname, hlabels, Option.getD_none]

/-- Of labels with names of their own, the last one called `__name__` is the first. -/
theorem lastName_map {labels : List (String × String)} (h : (labels.map Prod.fst).Nodup) :
    lastName (labels.map fun e => ⟨e.1, e.2⟩) = labels.lookup "__name__" := by
  induction labels with
  | nil => rfl
  | cons e labels ih =>
    obtain ⟨hnew, hrest⟩ := List.nodup_cons.mp h
    rw [lastName, List.map_cons, List.filter_cons, List.lookup_cons]
    by_cases hname : e.1 = "__name__"
    · -- no label behind it has that name again
      have hnil : ((labels.map fun e => (⟨e.1, e.2⟩ : Label)).filter
          fun l => l.name == "__name__") = [] := by
        refine List.filter_eq_nil_iff.mpr fun l hl heq => hnew ?_
        obtain ⟨e', he', rfl⟩ := List.mem_map.mp hl
        rw [hname, ← beq_iff_eq.mp heq]
        exact List.mem_map_of_mem he'
      rw [hnil]
      simp [hname]
    · have hne : ("__name__" == e.1) = false := beq_false_of_ne fun heq => hname heq.symm
      rw [if_neg (by simpa using hname), hne]
      exact ih hrest

/-- **A sample says as a time series** what is left of it without its reserved labels. -/
theorem labelsOf_toTimeSeries (raw : RawSample V) :
    lastName (toTimeSeries raw).labels = some (unreserved raw).metric ∧
      labelsOf (toTimeSeries raw).labels = .ofList (unreserved raw).labels := by
  have hname : isReserved "__name__" = true := by decide
  constructor
  · -- the metric comes first, and a label `__name__` behind it has the last word
    rw [lastName, toTimeSeries, List.filter_cons, if_pos (by simp), List.getLast?_cons, unreserved,
      ← lastName_map raw.distinct, lastName]
    generalize List.getLast? _ = last
    cases last <;> rfl
  · rw [labelsOf, toTimeSeries, List.filter_cons, if_neg (by rw [hname]; simp), List.filter_map,
      List.map_map]
    exact congrArg _ (List.map_id _)

/-! ### What is accepted -/

section Accepted

variable [F64 V] (xxh3 : List UInt8 → UInt64) (nowMs : ℤ)

/-- The samples of a list that are accepted. -/
def accepted (raws : List (RawSample V)) : List (ValidatedSample V) :=
  raws.filterMap fun raw => (validate xxh3 raw nowMs).toOption

/-- Every name of a metric and its labels is a name. -/
def NamesValid (metric : String) (labels : Labels) : Prop :=
  isValidName metric = true ∧ ∀ e ∈ labels.entries, isValidName e.1 = true

instance (metric : String) (labels : Labels) : Decidable (NamesValid metric labels) :=
  inferInstanceAs (Decidable (_ ∧ _))

/-- The accepted samples of a time series. -/
def acceptedOf (ts : TimeSeries V) : List (ValidatedSample V) :=
  match metricOf ts.labels with
  | none => []
  | some metric =>
    if NamesValid metric (labelsOf ts.labels) then
      (ts.samples.filter fun s => AcceptedPoint s.value s.timestamp nowMs).map fun s =>
        ⟨deriveSeriesId xxh3 metric (labelsOf ts.labels), metric, labelsOf ts.labels,
          saturatingMul s.timestamp 1000, s.value⟩
    else []

variable {xxh3 nowMs}

/-- A label that is kept is not reserved. -/
theorem not_reserved_of_mem_labelsOf {ls : List Label} {e : String × String}
    (he : e ∈ (labelsOf ls).entries) : isReserved e.1 = false := by
  obtain ⟨l, hl, heq⟩ := List.mem_map.mp
    (SortedMap.mem_of_get?_ofList (SortedMap.get?_eq_some_iff.mpr he))
  rw [← (Prod.ext_iff.mp heq).1]
  simpa using (List.mem_filter.mp hl).2

/-- What validating a sample leaves of it. -/
theorem toOption_validate (raw : RawSample V) :
    (validate xxh3 raw nowMs).toOption =
      if isValidName raw.metric = true ∧ (∀ e ∈ raw.labels, AcceptedName e.1) ∧
          AcceptedPoint raw.value raw.ts nowMs then
        some ⟨deriveSeriesId xxh3 raw.metric (.ofList raw.labels), raw.metric, .ofList raw.labels,
          saturatingMul raw.ts 1000, raw.value⟩
      else none := by
  split_ifs with h
  · rw [validate_ok_iff.mpr ⟨h.1, h.2.1, h.2.2, rfl⟩]
    rfl
  · rcases hv : validate xxh3 raw nowMs with e | s
    · rfl
    · obtain ⟨hname, hlabels, hpoint, -⟩ := validate_ok_iff.mp hv
      exact absurd ⟨hname, hlabels, hpoint⟩ h

/-- **Validating a sample of a time series** does not depend on the order of its labels. -/
theorem toOption_validate_of_perm {raw : RawSample V} {labels : Labels}
    (hperm : raw.labels.Perm labels.entries)
    (hlabels : ∀ e ∈ labels.entries, isReserved e.1 = false) :
    (validate xxh3 raw nowMs).toOption =
      if NamesValid raw.metric labels ∧ AcceptedPoint raw.value raw.ts nowMs then
        some ⟨deriveSeriesId xxh3 raw.metric labels, raw.metric, labels,
          saturatingMul raw.ts 1000, raw.value⟩
      else none := by
  have hof : SortedMap.ofList raw.labels = labels := by
    rw [SortedMap.ofList_perm hperm raw.distinct, SortedMap.ofList_entries]
  have hnames : (∀ e ∈ raw.labels, AcceptedName e.1) ↔
      ∀ e ∈ labels.entries, isValidName e.1 = true := by
    refine forall_congr' fun e => ?_
    rw [hperm.mem_iff]
    exact ⟨fun h he => (h he).2, fun h he => ⟨hlabels e he, h he⟩⟩
  simp only [toOption_validate, hof, hnames, NamesValid, and_assoc]

/-- What is accepted of the samples of a time series. -/
theorem accepted_rawsOf (order : HashOrder) (n : ℕ) (ts : TimeSeries V) :
    accepted xxh3 nowMs (rawsOf order n ts) = acceptedOf xxh3 nowMs ts := by
  rw [rawsOf, acceptedOf, accepted]
  rcases metricOf ts.labels with _ | metric
  · rfl
  · have hlabels : ∀ e ∈ (labelsOf ts.labels).entries, isReserved e.1 = false :=
      fun e he => not_reserved_of_mem_labelsOf he
    have hvalidate : ∀ s : Sample V, (validate xxh3 ⟨metric, order.iterate n (labelsOf ts.labels),
        order.distinct n (labelsOf ts.labels), s.timestamp, s.value⟩ nowMs).toOption = _ :=
      fun s => toOption_validate_of_perm (order.perm n (labelsOf ts.labels)) hlabels
    simp only [List.filterMap_map, Function.comp_def, hvalidate]
    split_ifs with hnames
    · rw [← List.filterMap_eq_map, List.filterMap_filter]
      refine List.filterMap_congr fun s _ => ?_
      by_cases hpoint : AcceptedPoint s.value s.timestamp nowMs
      · simp [hnames, hpoint]
      · simp [hpoint]
    · simp [hnames]

/-- What a label is refused for. -/
theorem validateLabels_error {labels : List (String × String)} {sorted : Labels}
    {e : ValidationError} (h : validateLabels labels sorted = .error e) :
    ∃ l ∈ labels, (isReserved l.1 = true ∧ e = .reservedLabelName l.1) ∨
      e = .invalidLabelName l.1 := by
  induction labels generalizing sorted with
  | nil => cases h
  | cons l labels ih =>
    rw [validateLabels] at h
    split_ifs at h with hres hname
    · cases h
      exact ⟨l, List.mem_cons_self .., Or.inl ⟨hres, rfl⟩⟩
    · cases h
      exact ⟨l, List.mem_cons_self .., Or.inr rfl⟩
    · obtain ⟨l', hl', he⟩ := ih h
      exact ⟨l', List.mem_cons_of_mem _ hl', he⟩

/-- **What is kept is not refused for being empty or reserved.** -/
theorem validate_error_of_kept {raw : RawSample V} (hmetric : ¬raw.metric.isEmpty = true)
    (hlabels : ∀ l ∈ raw.labels, isReserved l.1 = false) {e : ValidationError}
    (h : validate xxh3 raw nowMs = .error e) :
    e ≠ .emptyMetricName ∧ ∀ name, e ≠ .reservedLabelName name := by
  rw [validate, if_neg hmetric] at h
  rcases hl : validateLabels raw.labels .empty with e' | sorted
  · obtain ⟨l, hmem, ⟨hres, -⟩ | rfl⟩ := validateLabels_error hl
    · rw [hlabels l hmem] at hres
      cases hres
    · rw [hl] at h
      dsimp only at h
      split_ifs at h <;> cases h <;> exact ⟨fun he => (by cases he), fun _ he => (by cases he)⟩
  · rw [hl] at h
    dsimp only at h
    split_ifs at h <;> cases h <;> exact ⟨fun he => (by cases he), fun _ he => (by cases he)⟩

/-- What is accepted of several lists. -/
theorem accepted_flatMap {α : Type} (l : List α) (f : α → List (RawSample V)) :
    accepted xxh3 nowMs (l.flatMap f) = l.flatMap fun a => accepted xxh3 nowMs (f a) := by
  induction l with
  | nil => rfl
  | cons a l ih =>
    rw [accepted, List.flatMap_cons, List.filterMap_append, List.flatMap_cons, ← ih]
    rfl

/-- What is accepted of a request. -/
theorem accepted_flattenWriteRequest (order : HashOrder) (req : WriteRequest V) :
    accepted xxh3 nowMs (flattenWriteRequest order req).1 =
      req.timeseries.flatMap (acceptedOf xxh3 nowMs) := by
  rw [flattenWriteRequest_eq, accepted_flatMap]
  simp only [accepted_rawsOf]
  rw [← List.flatMap_map (f := Prod.fst), List.zipIdx_map_fst]

/-- **What comes of a request**: the accepted samples of its series, whatever order the hash maps
are iterated in; no sample is refused for having no metric name or a reserved label; and every
series is counted, and every sample that is not dropped. -/
theorem accepted_flatten (order : HashOrder) (req : WriteRequest V) :
    accepted xxh3 nowMs (flattenWriteRequest order req).1 =
        req.timeseries.flatMap (acceptedOf xxh3 nowMs) ∧
      (∀ raw ∈ (flattenWriteRequest order req).1, ∀ e, validate xxh3 raw nowMs = .error e →
        e ≠ .emptyMetricName ∧ ∀ name, e ≠ .reservedLabelName name) ∧
      (flattenWriteRequest order req).2 = ⟨req.timeseries.length,
        req.timeseries.countP fun ts => (metricOf ts.labels).isNone,
        ((req.timeseries.filter fun ts => (metricOf ts.labels).isSome).map
          fun ts => ts.samples.length).sum⟩ := by
  refine ⟨accepted_flattenWriteRequest order req, ?_⟩
  rw [flattenWriteRequest_eq]
  refine ⟨fun raw hraw e he => ?_, ?_⟩
  · obtain ⟨⟨ts, n⟩, -, hraw⟩ := List.mem_flatMap.mp hraw
    rw [rawsOf] at hraw
    split at hraw
    · rename_i metric hmetric
      obtain ⟨s, -, rfl⟩ := List.mem_map.mp hraw
      refine validate_error_of_kept ?_ (fun l hl => ?_) he
      · have hsome := (Option.filter_eq_some_iff.mp hmetric).2
        simpa using hsome
      · exact not_reserved_of_mem_labelsOf ((order.perm _ _).mem_iff.mp hl)
    · cases hraw
  · have hlength : ∀ (tss : List (TimeSeries V)) (n : ℕ),
        ((tss.zipIdx n).flatMap fun p => rawsOf order p.2 p.1).length =
          ((tss.filter fun ts => (metricOf ts.labels).isSome).map
            fun ts => ts.samples.length).sum := by
      intro tss
      induction tss with
      | nil => exact fun n => rfl
      | cons ts tss ih =>
        intro n
        rw [List.zipIdx_cons, List.flatMap_cons, List.length_append, ih, rawsOf, List.filter_cons]
        rcases metricOf ts.labels with _ | metric
        · simp
        · simp
    rw [hlength]

/-! ### Samples sent either way -/

/-- What is accepted of one sample, and of others. -/
theorem accepted_cons (raw : RawSample V) (raws : List (RawSample V)) :
    accepted xxh3 nowMs (raw :: raws) =
      (validate xxh3 raw nowMs).toOption.toList ++ accepted xxh3 nowMs raws := by
  rw [accepted, List.filterMap_cons]
  rcases (validate xxh3 raw nowMs).toOption with _ | s <;> rfl

/-- What is accepted of one sample. -/
theorem accepted_singleton (raw : RawSample V) :
    accepted xxh3 nowMs [raw] = (validate xxh3 raw nowMs).toOption.toList := by
  rw [accepted_cons]
  exact List.append_nil _

theorem accepted_singleton_eq_nil_iff {raw : RawSample V} :
    accepted xxh3 nowMs [raw] = [] ↔ ∃ e, validate xxh3 raw nowMs = .error e := by
  rw [accepted_singleton]
  rcases validate xxh3 raw nowMs with e | s
  · exact iff_of_true rfl ⟨e, rfl⟩
  · exact iff_of_false (List.cons_ne_nil _ _) fun ⟨e, he⟩ => (by cases he)

/-- **A sample is accepted as a time series** if what is left of it without its reserved labels is
accepted. -/
theorem acceptedOf_toTimeSeries (raw : RawSample V) :
    acceptedOf xxh3 nowMs (toTimeSeries raw) = accepted xxh3 nowMs [unreserved raw] := by
  obtain ⟨hlast, hof⟩ := labelsOf_toTimeSeries raw
  have hperm : (unreserved raw).labels.Perm (SortedMap.ofList (unreserved raw).labels).entries :=
    (SortedMap.entries_ofList_perm (unreserved raw).distinct).symm
  rw [accepted_singleton, toOption_validate_of_perm hperm
    fun e he => Bool.eq_false_of_not_eq_true fun hres =>
      not_hasReserved_unreserved raw ⟨e, hperm.mem_iff.mpr he, hres⟩,
    acceptedOf, metricOf, hlast, hof]
  by_cases hempty : (unreserved raw).metric.isEmpty = true
  · have hnot : ¬NamesValid (unreserved raw).metric (.ofList (unreserved raw).labels) := by
      rw [String.isEmpty_iff.mp hempty]
      exact fun hvalid => absurd hvalid.1 (by decide)
    have hnone : (some (unreserved raw).metric).filter (fun m => !m.isEmpty) = none := by
      rw [Option.filter_some, hempty]
      rfl
    rw [hnone, if_neg fun hboth => hnot hboth.1]
    rfl
  · rw [Option.filter_some, if_pos (by simpa using hempty)]
    by_cases hnames : NamesValid (unreserved raw).metric (.ofList (unreserved raw).labels)
    · by_cases hpoint : AcceptedPoint raw.value raw.ts nowMs
      · simp [toTimeSeries, hnames, hpoint]
      · simp [toTimeSeries, hpoint]
    · simp [hnames]

/-- A sample with a reserved label is refused. -/
theorem accepted_of_hasReserved {raw : RawSample V} (h : HasReserved raw) :
    accepted xxh3 nowMs [raw] = [] := by
  obtain ⟨e, he, hres⟩ := h
  rw [accepted_singleton, toOption_validate, if_neg]
  · rfl
  · rintro ⟨-, hlabels, -⟩
    rw [(hlabels e he).1] at hres
    cases hres

theorem accepted_eq_flatMap (raws : List (RawSample V)) :
    accepted xxh3 nowMs raws = raws.flatMap fun raw => accepted xxh3 nowMs [raw] := by
  rw [← accepted_flatMap, List.flatMap_singleton']

/-- A list of samples is accepted as time series as what is left of them. -/
theorem accepted_toTimeSeries (order : HashOrder) (raws : List (RawSample V)) :
    accepted xxh3 nowMs (flattenWriteRequest order ⟨raws.map toTimeSeries⟩).1 =
      accepted xxh3 nowMs (raws.map unreserved) := by
  rw [accepted_flattenWriteRequest, accepted_eq_flatMap (raws.map unreserved), List.flatMap_map,
    List.flatMap_map]
  exact List.flatMap_congr fun raw _ => acceptedOf_toTimeSeries raw

/-- What is left of the samples is accepted if they are, and more may be. -/
theorem length_accepted_le (raws : List (RawSample V)) :
    (accepted xxh3 nowMs raws).length ≤ (accepted xxh3 nowMs (raws.map unreserved)).length := by
  induction raws with
  | nil => exact le_rfl
  | cons raw raws ih =>
    rw [List.map_cons, accepted_cons, accepted_cons, ← accepted_singleton, ← accepted_singleton,
      List.length_append, List.length_append]
    by_cases hres : HasReserved raw
    · rw [accepted_of_hasReserved hres, List.length_nil]
      omega
    · rw [unreserved_eq hres]
      omega

/-- **Sending the samples of a JSON request as time series**: what is accepted is what would be
accepted of them as JSON without their reserved labels, the label `__name__` being the metric name;
and that is what is accepted of them as they are exactly when each sample with a reserved label,
which is refused there, would be refused without it as well. -/
theorem accepted_toTimeSeries_iff (order : HashOrder) (raws : List (RawSample V)) :
    accepted xxh3 nowMs (flattenWriteRequest order ⟨raws.map toTimeSeries⟩).1 =
        accepted xxh3 nowMs (raws.map unreserved) ∧
      (accepted xxh3 nowMs (flattenWriteRequest order ⟨raws.map toTimeSeries⟩).1 =
          accepted xxh3 nowMs raws ↔
        ∀ raw ∈ raws, HasReserved raw → ∃ e, validate xxh3 (unreserved raw) nowMs = .error e) := by
  refine ⟨accepted_toTimeSeries order raws, ?_⟩
  rw [accepted_toTimeSeries]
  induction raws with
  | nil => simp [accepted]
  | cons raw raws ih =>
    rw [List.forall_mem_cons, ← ih, List.map_cons, accepted_cons, accepted_cons raw,
      ← accepted_singleton, ← accepted_singleton]
    by_cases hres : HasReserved raw
    · rw [accepted_of_hasReserved hres, List.nil_append, ← accepted_singleton_eq_nil_iff]
      constructor
      · intro heq
        -- the other samples make up for all that is accepted already
        have hle := @length_accepted_le _ _ xxh3 nowMs raws
        have hnil : accepted xxh3 nowMs [unreserved raw] = [] := by
          have hlength := congrArg List.length heq
          rw [List.length_append] at hlength
          exact List.eq_nil_of_length_eq_zero (by omega)
        rw [hnil, List.nil_append] at heq
        exact ⟨fun _ => hnil, heq⟩
      · rintro ⟨hnil, heq⟩
        rw [hnil hres, List.nil_append, heq]
    · rw [unreserved_eq hres, List.append_cancel_left_eq]
      exact ⟨fun heq => ⟨fun h => absurd h hres, heq⟩, fun h => h.2⟩

/-- A sample with one label, of a metric whose name is no name. -/
def misnamed (name value : String) : RawSample Whole := ⟨"1", [(name, value)], by simp, 0, .num 1⟩

/-- Without its reserved label it is refused as well, but for a label that gives it a name. -/
theorem accepted_toTimeSeries_iff_misnamed :
    accepted (fun _ => 0) 0
        (flattenWriteRequest .sorted ⟨[misnamed "__a" "up"].map toTimeSeries⟩).1 =
          accepted (fun _ => 0) 0 [misnamed "__a" "up"] ∧
      accepted (fun _ => 0) 0
        (flattenWriteRequest .sorted ⟨[misnamed "__name__" "up"].map toTimeSeries⟩).1 ≠
          accepted (fun _ => 0) 0 [misnamed "__name__" "up"] := by
  constructor
  · refine (accepted_toTimeSeries_iff .sorted [misnamed "__a" "up"]).2.mpr fun raw hraw _ => ?_
    rw [List.mem_singleton.mp hraw]
    exact accepted_singleton_eq_nil_iff.mp (by decide +kernel)
  · intro heq
    have hrefused := (accepted_toTimeSeries_iff .sorted [misnamed "__name__" "up"]).2.mp heq _
      (List.mem_singleton_self _) (by decide +kernel)
    exact absurd (accepted_singleton_eq_nil_iff.mpr hrefused) (by decide +kernel)

end Accepted

end RemoteWrite

end Skaldberg
