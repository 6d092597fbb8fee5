import Skaldberg.Ingest.Encoding
import Skaldberg.Ingest.RemoteWrite
import Skaldberg.Ingest.ServerStore
import Skaldberg.RunSql

/-!
# The write handlers

Two endpoints take samples, `Handlers.runIngest` as JSON and `Handlers.runRemoteWrite` as compressed
time series. Both check that there is room, validate every sample, append what is accepted and
answer; a request is refused as a whole when there is no room, when it cannot be read or when the
append fails, and otherwise the first endpoint reports the samples it has rejected by their index.

The handlers are related to the levels above them. A handler that is not interrupted is a run of the
server (`Backpressure.step`) from any state with a free slot, and to the store which that server
implements it does one thing at most: it accepts what its answer promises
(`Handlers.respond_run`). What an answer promises is told from the request and the answer alone
(`Handlers.promised`): the samples that the report does not list, or those of the time series that
are valid.
-/

namespace Skaldberg

/-- `ApiError::internal`. -/
def ApiError.internal (message : String) : ApiError := ⟨500, message⟩

/-- What a failure of the log says, with the text of the operating system. -/
def WalError.message (os : String) : WalError → String
  | io => "io: " ++ os
  | payloadTooLarge len =>
    "payload too large for one record: " ++ toString len ++ " bytes"

/-- What a failure of an append says, with its causes. -/
def WalError.report (os : String) (e : WalError) : String :=
  "wal append: " ++ e.message os ++
    match e with
    | io => ": " ++ os
    | payloadTooLarge _ => ""

/-- A sample that is rejected. -/
structure RejectedSample where
  /-- Where it is in the request. -/
  index : ℕ
  /-- What is wrong with it. -/
  reason : String
  deriving DecidableEq

/-- The report on a JSON request. -/
structure IngestResponse where
  /-- The number of accepted samples. -/
  accepted : ℕ
  /-- The others. -/
  rejected : List RejectedSample
  deriving DecidableEq

namespace Handlers

open Backpressure (Action)
open RemoteWrite (accepted HashOrder Wire WriteRequest)

/-- What the handlers use of other crates and of their surroundings. -/
structure Env (V : Type) where
  /-- The encodings of the write path. -/
  codec : Extern V
  /-- The hash of a series. -/
  xxh3 : List UInt8 → UInt64
  /-- The readers of remote write. -/
  wire : Wire V
  /-- The order in which hash maps are iterated. -/
  order : HashOrder

/-- The circumstances in which a request is handled. -/
structure Moment where
  /-- The clock, in milliseconds. -/
  nowMs : ℤ
  /-- What the file operations do. -/
  io : AppendIo
  /-- What the operating system says, should they fail. -/
  os : String

variable {V : Type} [F64 V] (env : Env V) (m : Moment)

/-- The loop that validates the samples of a request, of which the first is the `i`-th. -/
def validateLoop : ℕ → List (RawSample V) → List (ValidatedSample V) → List RejectedSample →
    List (ValidatedSample V) × List RejectedSample
  | _, [], accepted, rejected => (accepted, rejected)
  | i, raw :: raws, accepted, rejected =>
    match validate env.xxh3 raw m.nowMs with
    | .ok v => validateLoop (i + 1) raws (accepted ++ [v]) rejected
    | .error e => validateLoop (i + 1) raws accepted (rejected ++ [⟨i, e.message⟩])

/-- `POST /api/v1/ingest`. -/
def runIngest (s : IngestState V) (samples : List (RawSample V)) :
    Except ApiError IngestResponse × IngestState V :=
  match s.checkBackpressure with
  | .error reason => (.error ⟨503, reason⟩, s)
  | .ok () =>
    match validateLoop env m 0 samples [] [] with
    | (accepted, rejected) =>
      if !accepted.isEmpty then
        match s.appendValidated env.codec m.io accepted with
        | (.error e, s) => (.error (.internal ("ingest: " ++ e.report m.os)), s)
        | (.ok _, s) => (.ok ⟨accepted.length, rejected⟩, s)
      else (.ok ⟨accepted.length, rejected⟩, s)

/-- `POST /api/v1/write`; the status of the answer is all that it says. -/
def runRemoteWrite (s : IngestState V) (body : Bytes) : Except ApiError ℕ × IngestState V :=
  match s.checkBackpressure with
  | .error reason => (.error ⟨503, reason⟩, s)
  | .ok () =>
    match RemoteWrite.decodeWriteRequest env.wire body with
    | .error e => (.error (.badRequest ("remote_write decode: " ++ e.message)), s)
    | .ok req =>
      let raws := (RemoteWrite.flattenWriteRequest env.order req).1
      let accepted := accepted env.xxh3 m.nowMs raws
      if !accepted.isEmpty then
        match s.appendValidated env.codec m.io accepted with
        | (.error e, s) => (.error ⟨503, "remote_write ingest: " ++ e.report m.os⟩, s)
        | (.ok _, s) => (.ok 204, s)
      else (.ok 204, s)

/-! ### The report -/

/-- The rejection of a sample at an index, if it is rejected. -/
def rejection (p : RawSample V × ℕ) : Option RejectedSample :=
  match validate env.xxh3 p.1 m.nowMs with
  | .ok _ => none
  | .error e => some ⟨p.2, e.message⟩

variable {env m} {s : IngestState V}

/-- **The loop tells the samples apart**: those that are accepted, in their order, and the others by
their index and what is wrong with them. -/
theorem validateLoop_eq (i : ℕ) (raws : List (RawSample V)) (out : List (ValidatedSample V))
    (rejected : List RejectedSample) :
    validateLoop env m i raws out rejected =
      (out ++ accepted env.xxh3 m.nowMs raws,
        rejected ++ (raws.zipIdx i).filterMap (rejection env m)) := by
  induction raws generalizing i out rejected with
  | nil => simp [validateLoop, accepted]
  | cons raw raws ih =>
    rw [validateLoop, List.zipIdx_cons, List.filterMap_cons, RemoteWrite.accepted_cons, rejection]
    rcases validate env.xxh3 raw m.nowMs with e | v
    · simp only [ih]
      rw [List.append_assoc]
      rfl
    · simp only [ih]
      rw [List.append_assoc]
      rfl

/-- A sample as a client means it. -/
def meant (xxh3 : List UInt8 → UInt64) (raw : RawSample V) : ValidatedSample V :=
  ⟨deriveSeriesId xxh3 raw.metric (.ofList raw.labels), raw.metric, .ofList raw.labels,
    saturatingMul raw.ts 1000, raw.value⟩

/-- The samples of a request that a report does not list. -/
def unlisted (raws : List (RawSample V)) (rejected : List RejectedSample) : List (RawSample V) :=
  (raws.zipIdx.filter fun p => !(rejected.map RejectedSample.index).contains p.2).map Prod.fst

/-- A sample is listed if it is rejected. -/
theorem contains_index_iff {raws : List (RawSample V)} {p : RawSample V × ℕ}
    (hp : p ∈ raws.zipIdx) :
    ((raws.zipIdx.filterMap (rejection env m)).map RejectedSample.index).contains p.2 = true ↔
      (rejection env m p).isSome = true := by
  rw [List.contains_iff_mem, List.mem_map]
  constructor
  · rintro ⟨r, hr, hindex⟩
    obtain ⟨q, hq, hrej⟩ := List.mem_filterMap.mp hr
    have hq2 : q.2 = r.index := by
      rw [rejection] at hrej
      split at hrej <;> cases hrej
      rfl
    -- an index stands for one sample
    have hqp : q = p := by
      rw [List.mem_zipIdx_iff_getElem?] at hp hq
      rw [hq2.trans hindex, hp] at hq
      exact Prod.ext (Option.some.inj hq).symm (hq2.trans hindex)
    rw [← hqp, hrej]
    rfl
  · intro hsome
    obtain ⟨r, hr⟩ := Option.isSome_iff_exists.mp hsome
    refine ⟨r, List.mem_filterMap.mpr ⟨p, hp, hr⟩, ?_⟩
    rw [rejection] at hr
    split at hr <;> cases hr
    rfl

theorem isSome_rejection (p : RawSample V × ℕ) :
    (rejection env m p).isSome = (validate env.xxh3 p.1 m.nowMs).toOption.isNone := by
  rw [rejection]
  rcases validate env.xxh3 p.1 m.nowMs with e | v <;> rfl

/-- **A report lists what is not accepted**: the other samples are, as they are meant. -/
theorem map_meant_unlisted (raws : List (RawSample V)) :
    (unlisted raws (raws.zipIdx.filterMap (rejection env m))).map (meant env.xxh3) =
      accepted env.xxh3 m.nowMs raws := by
  have hfilter : (raws.zipIdx.filter fun p =>
      !((raws.zipIdx.filterMap (rejection env m)).map RejectedSample.index).contains p.2) =
        raws.zipIdx.filter
          ((fun raw => (validate env.xxh3 raw m.nowMs).toOption.isSome) ∘ Prod.fst) := by
    refine List.filter_congr fun p hp => ?_
    rw [Bool.eq_iff_iff.mpr (contains_index_iff hp), isSome_rejection, Option.not_isNone]
    rfl
  rw [unlisted, hfilter, ← List.filter_map, List.zipIdx_map_fst, accepted, ← List.filterMap_eq_map,
    List.filterMap_filter]
  refine List.filterMap_congr fun raw _ => ?_
  rcases hv : validate env.xxh3 raw m.nowMs with e | v
  · rfl
  · rw [(validate_ok_iff.mp hv).2.2.2]
    rfl

/-! ### A request and its answer -/

/-- A request to one of the endpoints. -/
inductive Request (V : Type) where
  /-- `POST /api/v1/ingest`. -/
  | ingest (samples : List (RawSample V))
  /-- `POST /api/v1/write`. -/
  | remoteWrite (body : Bytes)

/-- An answer that is no refusal. -/
inductive Reply where
  /-- The report. -/
  | report (r : IngestResponse)
  /-- A status alone. -/
  | status (code : ℕ)

section Respond

variable (env m)

/-- Handle a request. -/
def respond (s : IngestState V) : Request V → Except ApiError Reply × IngestState V
  | .ingest samples =>
    match runIngest env m s samples with
    | (res, s) => (res.map Reply.report, s)
  | .remoteWrite body =>
    match runRemoteWrite env m s body with
    | (res, s) => (res.map Reply.status, s)

/-- The samples that a request carries, if it can be read. -/
def Request.raws : Request V → Option (List (RawSample V))
  | ingest samples => some samples
  | remoteWrite body =>
    (RemoteWrite.decodeWriteRequest env.wire body).toOption.map fun req =>
      (RemoteWrite.flattenWriteRequest env.order req).1

/-- What an answer promises: the samples that the report does not list, or those of the time series
that are accepted. -/
def promised : Request V → Reply → List (ValidatedSample V)
  | .ingest samples, .report r => (unlisted samples r.rejected).map (meant env.xxh3)
  | .remoteWrite body, .status _ =>
    match RemoteWrite.decodeWriteRequest env.wire body with
    | .ok req => req.timeseries.flatMap (RemoteWrite.acceptedOf env.xxh3 m.nowMs)
    | .error _ => []
  | _, _ => []

end Respond

/-- **What can come of a request**: it is refused before anything is done, when there is no room or
it cannot be read; none of its samples is accepted; or those that are accepted are appended, and it
is answered or refused as this goes. -/
theorem respond_cases (s : IngestState V) (q : Request V) :
    (∃ e, respond env m s q = (.error e, s) ∧
      ((∃ reason, s.checkBackpressure = .error reason) ∨
        s.checkBackpressure = .ok () ∧ q.raws env = none)) ∨
    s.checkBackpressure = .ok () ∧ ∃ raws, q.raws env = some raws ∧
      ((∃ reply, respond env m s q = (.ok reply, s) ∧ promised env m q reply = [] ∧
        accepted env.xxh3 m.nowMs raws = []) ∨
      (accepted env.xxh3 m.nowMs raws ≠ [] ∧ ∃ e e' s',
        s.appendValidated env.codec m.io (accepted env.xxh3 m.nowMs raws) = (.error e', s') ∧
          respond env m s q = (.error e, s')) ∨
      (accepted env.xxh3 m.nowMs raws ≠ [] ∧ ∃ reply recordSeq s',
        s.appendValidated env.codec m.io (accepted env.xxh3 m.nowMs raws) = (.ok recordSeq, s') ∧
          respond env m s q = (.ok reply, s') ∧
            promised env m q reply = accepted env.xxh3 m.nowMs raws)) := by
  rcases hroom : s.checkBackpressure with reason | ⟨⟩
  · refine Or.inl ⟨⟨503, reason⟩, ?_, Or.inl ⟨reason, rfl⟩⟩
    cases q <;> simp [respond, runIngest, runRemoteWrite, hroom, Except.map]
  · cases q with
    | ingest samples =>
      refine Or.inr ⟨rfl, samples, rfl, ?_⟩
      have hpromised : ∀ n, promised env m (.ingest samples)
          (.report ⟨n, samples.zipIdx.filterMap (rejection env m)⟩) =
            accepted env.xxh3 m.nowMs samples := fun n => map_meant_unlisted samples
      rw [respond, runIngest, hroom]
      simp only [validateLoop_eq, List.nil_append]
      by_cases hnil : accepted env.xxh3 m.nowMs samples = []
      · refine Or.inl ⟨.report ⟨0, samples.zipIdx.filterMap (rejection env m)⟩, ?_, ?_, hnil⟩
        · rw [hnil]
          rfl
        · rw [hpromised, hnil]
      · refine Or.inr ?_
        rw [if_pos (by simpa using hnil)]
        rcases happend : s.appendValidated env.codec m.io (accepted env.xxh3 m.nowMs samples) with
          ⟨e' | recordSeq, s'⟩
        · exact Or.inl ⟨hnil, _, e', s', rfl, rfl⟩
        · exact Or.inr ⟨hnil, _, recordSeq, s', rfl, rfl, hpromised _⟩
    | remoteWrite body =>
      rcases hdecode : RemoteWrite.decodeWriteRequest env.wire body with e | req
      · refine Or.inl ⟨.badRequest ("remote_write decode: " ++ e.message), ?_, Or.inr ⟨rfl, ?_⟩⟩
        · simp [respond, runRemoteWrite, hroom, hdecode, Except.map]
        · rw [Request.raws, hdecode]
          rfl
      · have hpromised : ∀ n, promised env m (.remoteWrite body) (.status n) =
            accepted env.xxh3 m.nowMs (RemoteWrite.flattenWriteRequest env.order req).1 := by
          intro n
          rw [promised, hdecode, RemoteWrite.accepted_flattenWriteRequest]
        refine Or.inr ⟨rfl, (RemoteWrite.flattenWriteRequest env.order req).1, ?_, ?_⟩
        · rw [Request.raws, hdecode]
          rfl
        · rw [respond, runRemoteWrite, hroom, hdecode]
          simp only
          generalize accepted env.xxh3 m.nowMs
            (RemoteWrite.flattenWriteRequest env.order req).1 = xs at hpromised ⊢
          by_cases hnil : xs = []
          · refine Or.inl ⟨.status 204, ?_, (hpromised 204).trans hnil, hnil⟩
            rw [hnil]
            rfl
          · refine Or.inr ?_
            rw [if_pos (by simpa using hnil)]
            rcases happend : s.appendValidated env.codec m.io xs with ⟨e' | recordSeq, s'⟩
            · exact Or.inl ⟨hnil, _, e', s', rfl, rfl⟩
            · exact Or.inr ⟨hnil, _, recordSeq, s', rfl, rfl, hpromised 204⟩

/-! ### A handler is a run of the server -/

/-- The steps of a handler. -/
def OfHandler {R : Type} : Action R → Prop
  | .letIn _ | .check _ | .reject _ | .spawn _ _ | .log _ _ | .insert _ => True
  | .timeout _ | .take | .commit _ | .truncate => False

section Steps

variable {R E : Type} {codec : Extern V} {validate : R → ℤ → Except E (ValidatedSample V)}
  {c S : ℕ} {s s' : IngestState V} {ts : List (Backpressure.Task R V)} {fl : Concurrent.Flusher V}
  {st : StagedStore (ValidatedSample V) ℤ} {raws : List R} {xs : List (ValidatedSample V)}
  {nowMs : ℤ} {io : AppendIo}

omit [F64 V]

/-- The server with the handlers of a list, and its store. -/
def serving (s : IngestState V) (ts : List (Backpressure.Task R V)) (fl : Concurrent.Flusher V)
    (st : StagedStore (ValidatedSample V) ℤ) : ServerStore.State R V := ⟨⟨s, ts, fl⟩, st⟩

theorem step_letIn (hslot : ts.countP Backpressure.Task.live < c) (hsize : raws.length ≤ S) :
    ServerStore.step codec validate c S (serving s ts fl st) (.letIn raws) =
      some (serving s (⟨.arrived raws, true⟩ :: ts) fl st) := by
  rw [ServerStore.step, serving, Backpressure.step, if_pos ⟨hslot, hsize⟩]
  rfl

theorem step_check_error {reason : String} (hroom : s.checkBackpressure = .error reason) :
    ServerStore.step codec validate c S (serving s (⟨.arrived raws, true⟩ :: ts) fl st) (.check 0) =
      some (serving s ts fl st) := by
  rw [ServerStore.step, serving, Backpressure.step, List.getElem?_cons_zero, hroom]
  rfl

theorem step_check_ok (hroom : s.checkBackpressure = .ok ()) :
    ServerStore.step codec validate c S (serving s (⟨.arrived raws, true⟩ :: ts) fl st) (.check 0) =
      some (serving s (⟨.checked raws, true⟩ :: ts) fl st) := by
  rw [ServerStore.step, serving, Backpressure.step, List.getElem?_cons_zero, hroom]
  rfl

theorem step_reject :
    ServerStore.step codec validate c S (serving s (⟨.checked raws, true⟩ :: ts) fl st)
      (.reject 0) = some (serving s ts fl st) := rfl

theorem step_spawn_nil (hnil : (raws.filterMap fun raw => (validate raw nowMs).toOption) = []) :
    ServerStore.step codec validate c S (serving s (⟨.checked raws, true⟩ :: ts) fl st)
      (.spawn 0 nowMs) = some (serving s ts fl st) := by
  rw [ServerStore.step, serving, Backpressure.step, List.getElem?_cons_zero]
  simp only [hnil]
  rfl

theorem step_spawn (hxs : (raws.filterMap fun raw => (validate raw nowMs).toOption) = xs)
    (hne : xs ≠ []) :
    ServerStore.step codec validate c S (serving s (⟨.checked raws, true⟩ :: ts) fl st)
      (.spawn 0 nowMs) = some (serving s (⟨.appending xs, true⟩ :: ts) fl st) := by
  rw [ServerStore.step, serving, Backpressure.step, List.getElem?_cons_zero]
  simp only [hxs]
  rw [if_neg (by simpa using hne)]
  rfl

theorem step_log_error {e : WalError} (happend : s.appendWal codec io xs = (.error e, s')) :
    ServerStore.step codec validate c S (serving s (⟨.appending xs, true⟩ :: ts) fl st)
      (.log 0 io) = some (serving s' ts fl st) := by
  rw [ServerStore.step, serving, Backpressure.step, List.getElem?_cons_zero]
  simp only [happend]
  rfl

theorem step_log_ok {recordSeq : ℕ} (happend : s.appendWal codec io xs = (.ok recordSeq, s')) :
    ServerStore.step codec validate c S (serving s (⟨.appending xs, true⟩ :: ts) fl st)
      (.log 0 io) = some (serving s' (⟨.logged recordSeq xs, true⟩ :: ts) fl st) := by
  rw [ServerStore.step, serving, Backpressure.step, List.getElem?_cons_zero]
  simp only [happend]
  rfl

theorem step_insert {recordSeq : ℕ} :
    ServerStore.step codec validate c S (serving s (⟨.logged recordSeq xs, true⟩ :: ts) fl st)
      (.insert 0) = some (serving (s.insertBatch recordSeq xs) ts fl
        (st.next ValidatedSample.seriesId (.accept xs))) := rfl

end Steps

/-- What a request leaves of the store: what its answer promises is accepted. -/
def storeAfter (env : Env V) (m : Moment) (q : Request V) (st : StagedStore (ValidatedSample V) ℤ) :
    Except ApiError Reply → StagedStore (ValidatedSample V) ℤ
  | .ok reply => st.next ValidatedSample.seriesId (.accept (promised env m q reply))
  | .error _ => st

/-- The steps of a handler that is not interrupted. -/
theorem respond_serving {c S : ℕ} {ts : List (Backpressure.Task (RawSample V) V)}
    (hslot : ts.countP Backpressure.Task.live < c) (q : Request V)
    (hsize : ∀ raws, q.raws env = some raws → raws.length ≤ S) (fl : Concurrent.Flusher V)
    (st : StagedStore (ValidatedSample V) ℤ) :
    Runs (Runs.ofFn (ServerStore.step env.codec (validate env.xxh3) c S)) (fun _ a => OfHandler a)
      (serving s ts fl st)
      (serving (respond env m s q).2 ts fl (storeAfter env m q st (respond env m s q).1)) := by
  -- the request is let in, and passes the check if there is room
  have harrived : ∀ raws : List (RawSample V), raws.length ≤ S →
      Runs (Runs.ofFn (ServerStore.step env.codec (validate env.xxh3) c S))
        (fun _ a => OfHandler a) (serving s ts fl st)
          (serving s (⟨.arrived raws, true⟩ :: ts) fl st) := fun raws hlen =>
    (Runs.refl _).snoc (a := .letIn raws) trivial (step_letIn hslot hlen)
  have hchecked : s.checkBackpressure = .ok () → ∀ raws : List (RawSample V), raws.length ≤ S →
      Runs (Runs.ofFn (ServerStore.step env.codec (validate env.xxh3) c S))
        (fun _ a => OfHandler a) (serving s ts fl st)
          (serving s (⟨.checked raws, true⟩ :: ts) fl st) := fun hroom raws hlen =>
    (harrived raws hlen).snoc (a := .check 0) trivial (step_check_ok hroom)
  have hspawned : s.checkBackpressure = .ok () → ∀ raws : List (RawSample V), raws.length ≤ S →
      accepted env.xxh3 m.nowMs raws ≠ [] →
        Runs (Runs.ofFn (ServerStore.step env.codec (validate env.xxh3) c S))
          (fun _ a => OfHandler a) (serving s ts fl st)
            (serving s (⟨.appending (accepted env.xxh3 m.nowMs raws), true⟩ :: ts) fl st) :=
    fun hroom raws hlen hne =>
      (hchecked hroom raws hlen).snoc (a := .spawn 0 m.nowMs) trivial (step_spawn rfl hne)
  rcases @respond_cases _ _ env m s q with ⟨e, hres, ⟨reason, hroom⟩ | ⟨hroom, -⟩⟩ |
    ⟨hroom, raws, hraws, ⟨reply, hres, hpromised, hnil⟩ | ⟨hne, e, e', s', happend, hres⟩ |
      ⟨hne, reply, recordSeq, s', happend, hres, hpromised⟩⟩
  · rw [hres]
    exact (harrived [] (Nat.zero_le S)).snoc (a := .check 0) trivial (step_check_error hroom)
  · rw [hres]
    exact (hchecked hroom [] (Nat.zero_le S)).snoc (a := .reject 0) trivial step_reject
  · rw [hres, storeAfter, hpromised, StagedStore.next_accept_nil]
    exact (hchecked hroom raws (hsize raws hraws)).snoc (a := .spawn 0 m.nowMs) trivial
      (step_spawn_nil hnil)
  · have hlog : s.appendWal env.codec m.io (accepted env.xxh3 m.nowMs raws) = (.error e', s') := by
      rw [IngestState.appendValidated] at happend
      split at happend
      · rename_i hlog
        rw [hlog, happend]
      · cases happend
    rw [hres]
    exact (hspawned hroom raws (hsize raws hraws) hne).snoc (a := .log 0 m.io) trivial
      (step_log_error hlog)
  · obtain ⟨s'', hlog, rfl⟩ : ∃ s'', s.appendWal env.codec m.io
        (accepted env.xxh3 m.nowMs raws) = (.ok recordSeq, s'') ∧
          s' = s''.insertBatch recordSeq (accepted env.xxh3 m.nowMs raws) := by
      rw [IngestState.appendValidated] at happend
      split at happend
      · cases happend
      · rename_i hlog
        cases happend
        exact ⟨_, hlog, rfl⟩
    have hlogged : Runs (Runs.ofFn (ServerStore.step env.codec (validate env.xxh3) c S))
        (fun _ a => OfHandler a) (serving s ts fl st) _ :=
      (hspawned hroom raws (hsize raws hraws) hne).snoc (a := .log 0 m.io) trivial
        (step_log_ok hlog)
    rw [hres, storeAfter, hpromised]
    exact hlogged.snoc (a := .insert 0) trivial step_insert

/-- **An uninterrupted handler is a run of the server**, whatever else is under way, and to the
store of the server it does what its answer says: it accepts what that promises, or nothing. -/
theorem respond_run {c S : ℕ} {t : ServerStore.State (RawSample V) V} (hslot : t.server.slots < c)
    (q : Request V) (hsize : ∀ raws, q.raws env = some raws → raws.length ≤ S) :
    ∃ t', Runs (Runs.ofFn (ServerStore.step env.codec (validate env.xxh3) c S))
        (fun _ a => OfHandler a) t t' ∧
      t'.server = { t.server with ingest := (respond env m t.server.ingest q).2 } ∧
      t'.store = storeAfter env m q t.store (respond env m t.server.ingest q).1 :=
  ⟨_, respond_serving hslot q hsize t.server.flusher t.store, rfl, rfl⟩

/-- A request with one sample of `up`, not compressed. -/
def upBody : Bytes :=
  [0x0A, 0x1B, 0x0A, 0x0E, 0x0A, 0x08, 0x5F, 0x5F, 0x6E, 0x61, 0x6D, 0x65, 0x5F, 0x5F, 0x12, 0x02,
    0x75, 0x70, 0x12, 0x09, 0x09, 0, 0, 0, 0, 0, 0, 0xF0, 0x3F]

/-- Surroundings to compute in, where bodies are read as far as this one goes. -/
def upEnv : Env Whole where
  codec := Encoding.wholeCodec
  xxh3 bytes := bytes.foldl (fun h b => 31 * h + b.toUInt64) 7
  wire.decompressLen body := if body = 0x1D :: 0x70 :: upBody then some 29 else none
  wire.decompressVec body :=
    if body = 0x1D :: 0x70 :: upBody then .ok upBody else .error "snappy: corrupt input"
  wire.decode body :=
    if body = upBody then .ok ⟨[⟨[⟨"__name__", "up"⟩], [⟨.num 1, 0⟩]⟩]⟩
    else .error "failed to decode Protobuf message"
  order := .sorted

set_option maxRecDepth 100000 in
/-- A sample of `up` to a new server. -/
theorem respond_run_up :
    ∃ t', Runs (Runs.ofFn
        (ServerStore.step upEnv.codec (validate upEnv.xxh3) 1 1))
        (fun _ a => OfHandler a)
        (ServerStore.start upEnv.codec defaultRotationBytes) t' ∧
      t'.server.ingest.buffer.bytesEstimate = 32 ∧ t'.store.accepted.card = 1 := by
  obtain ⟨t', hrun, hserver, hstore⟩ := @respond_run _ _ upEnv ⟨0, .ok, ""⟩ 1 1
    (ServerStore.start upEnv.codec defaultRotationBytes) (by decide)
    (.remoteWrite (0x1D :: 0x70 :: upBody)) (by decide)
  refine ⟨t', hrun, ?_, ?_⟩
  · rw [hserver]
    decide +kernel
  · rw [hstore]
    decide +kernel

end Handlers

end Skaldberg
