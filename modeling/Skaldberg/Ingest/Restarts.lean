import Skaldberg.Ingest.SealedLog
import Skaldberg.Ingest.ServerStore

/-!
# Servers that crash

A server may die at any moment: with requests at every stage, an append part of the way through its
frame, the samples of a flush committed and its series not, some of the files of a truncation
deleted. What is left are the tables and the log, and the next process starts from these, with
what it can read of the log in its buffer.

To the store that the server implements this is a restart (`StagedStore.restart`): the items on the
stage are gone, and the items of the log are on it instead. `Restarts.Inv` says why none of them
is lost for good. A batch that the log has taken is still read from it, or its samples are found
already (`Inv.logged`); and one that a truncation may delete is among those that had been in the
buffer by the last `take` (`Inv.passed`), whose samples the commit has made found. It takes appends
to clean files, commits that land unless the process dies of them, and truncations that spare the
files of overtaken appends (`Restarts.Sure`).
-/

namespace Skaldberg

namespace Restarts

open Backpressure (Phase)
open Concurrent (Flusher)
open ServerStore (Refines follow meaning)

variable {R V : Type}

/-- What a crash finds the log in the middle of. -/
inductive LogCrash where
  /-- Nothing. -/
  | idle
  /-- The append of a task, `k` bytes of its frame written. -/
  | append (task k : ℕ)
  /-- A truncation, some of its files deleted. -/
  | truncate (deleted : List ℕ)

/-- How a process dies. -/
structure Crash where
  /-- Whether the samples of a flush that is under way are committed. -/
  committed : Bool
  /-- What the log is in the middle of. -/
  log : LogCrash

/-- What can happen to a server. -/
inductive Action (R : Type) where
  /-- It takes a step. -/
  | serve (a : Backpressure.Action R)
  /-- It crashes, and is started again with a read of the catalog that goes as given. -/
  | restart (crash : Crash) (io : ReadIo)

/-- A server with its store, and its history over all crashes. -/
structure State (R V : Type) where
  /-- The server and its store. -/
  serving : ServerStore.State R V
  /-- The batches whose append has succeeded. -/
  appended : List (Logged V)
  /-- Those that had not been inserted in the buffer when the last snapshot was taken. -/
  uncovered : List (Logged V)
  /-- The samples handed to the log. -/
  sent : List (ValidatedSample V)
  /-- The samples of the requests that have been accepted. -/
  acked : List (ValidatedSample V)

/-! ### What a step does to the history -/

/-- The batch whose record is in the log, of a request that has not inserted it. -/
def entry? : Phase R V → Option (Logged V)
  | .logged recordSeq samples => some (recordSeq, samples)
  | _ => none

/-- The batches between the log and the buffer. -/
def inFlight (s : Backpressure.State R V) : List (Logged V) :=
  s.tasks.filterMap fun t => entry? t.phase

/-- The batch that a task is about to append. -/
def handed (s : Backpressure.State R V) (task : ℕ) : List (ValidatedSample V) :=
  match s.tasks[task]? with
  | some ⟨.appending samples, _⟩ => samples
  | _ => []

/-- The samples that a step hands to the log. -/
def sends (s : Backpressure.State R V) : Backpressure.Action R → List (ValidatedSample V)
  | .log task _ => handed s task
  | _ => []

/-- The samples that a step accepts. -/
def accepts (s : Backpressure.State R V) (a : Backpressure.Action R) : List (ValidatedSample V) :=
  match meaning s a with
  | some (.accept samples) => samples
  | _ => []

/-- Whether a step takes a snapshot. -/
def takes : Backpressure.Action R → Bool
  | .take => true
  | _ => false

variable (codec : Extern V)

/-- The batch whose append a step completes. -/
def appends (s : Backpressure.State R V) : Backpressure.Action R → Option (Logged V)
  | .log task io =>
    match s.tasks[task]? with
    | some ⟨.appending samples, _⟩ =>
      match (s.ingest.appendWal codec io samples).1 with
      | .ok recordSeq => some (recordSeq, samples)
      | .error _ => none
    | _ => none
  | _ => none

/-! ### What a crash leaves -/

/-- The tables that a crash leaves. -/
def tablesLeft (s : Backpressure.State R V) (crash : Crash) : Tables V :=
  match s.flusher with
  | .taken snap =>
    if crash.committed then (flush ⟨true, false⟩ s.ingest.tables snap).2 else s.ingest.tables
  | _ => s.ingest.tables

/-- The log that a crash leaves. -/
def dirLeft (s : Backpressure.State R V) : LogCrash → WalDir
  | .idle => s.ingest.dir
  | .append task k =>
    match s.tasks[task]? with
    | some ⟨.appending samples, _⟩ =>
      (s.ingest.appendWal codec ⟨some k, true, true⟩ samples).2.dir
    | _ => s.ingest.dir
  | .truncate deleted =>
    match s.flusher with
    | .committed maxSeq => s.ingest.dir.filter fun file bs =>
        !(deleted.contains file && (s.ingest.removed maxSeq).contains (file, bs))
    | _ => s.ingest.dir

/-- The samples that were being handed to the log. -/
def sentLeft (s : Backpressure.State R V) : LogCrash → List (ValidatedSample V)
  | .append task _ => handed s task
  | _ => []

/-- The store that a crash leaves. -/
def storeLeft (t : ServerStore.State R V) (crash : Crash) : StagedStore (ValidatedSample V) ℤ :=
  match t.server.flusher with
  | .taken _ =>
    if crash.committed then t.store.next ValidatedSample.seriesId (.commit true false) else t.store
  | _ => t.store

/-- The server that is started on what a crash leaves. -/
def restarted (io : ReadIo) (s : Backpressure.State R V) (crash : Crash) :
    Backpressure.State R V :=
  Backpressure.start (AppState.openWithRotation codec io (tablesLeft s crash)
    (dirLeft codec s crash.log) s.ingest.wal.rotationBytes)

variable {E : Type} (validate : R → ℤ → Except E (ValidatedSample V)) (c S : ℕ)

/-- Where an action leads. -/
def step (t : State R V) : Action R → Option (State R V)
  | .serve a =>
    (ServerStore.step codec validate c S t.serving a).map fun serving => {
      serving := serving
      appended := (appends codec t.serving.server a).toList ++ t.appended
      uncovered := if takes a then inFlight t.serving.server
        else (appends codec t.serving.server a).toList ++ t.uncovered
      sent := sends t.serving.server a ++ t.sent
      acked := accepts t.serving.server a ++ t.acked }
  | .restart crash io => some { t with
      serving := ⟨restarted codec io t.serving.server crash, (storeLeft t.serving crash).restart
        (recordSamples codec (Wal.readable codec.crc32 (dirLeft codec t.serving.server crash.log)))⟩
      uncovered := t.appended
      sent := sentLeft t.serving.server crash.log ++ t.sent }

/-- A new server on an empty log and an empty catalog. -/
def start (rotationBytes : ℕ) : State R V := ⟨ServerStore.start codec rotationBytes, [], [], [], []⟩

/-! ### What is asked of a run -/

/-- An append starts on a clean file with a number behind it, and its batch is read back from its
payload. -/
def AppendsClean (s : Backpressure.State R V) (task : ℕ) : Prop :=
  s.ingest.wal.fileSeq + 1 < u64Size ∧ s.ingest.wal.CleanEnd codec.crc32 s.ingest.dir ∧
    codec.fromSlice (codec.toVec (handed s task)) = some (handed s task)

/-- Every file with a record that had not been inserted in the buffer at the `take` is the current
file or goes beyond the watermark of the truncation to come. -/
def Covered (t : State R V) : Prop :=
  ∀ maxSeq ∈ t.serving.server.flusher.committed?,
    t.serving.server.ingest.Protects codec maxSeq (t.uncovered.map (Logged.record codec))

/-- A step appends to a clean file, with no rotation failing; commits what it commits; and truncates
no file of an overtaken append. A start reads the catalog. -/
def Sure (t : State R V) : Action R → Prop
  | .serve (.log task io) => io.rotate = true ∧ AppendsClean codec t.serving.server task
  | .serve (.commit io) => io = .ok
  | .serve .truncate => Covered codec t
  | .serve _ => True
  | .restart ⟨_, .append task _⟩ io => io = .ok ∧ AppendsClean codec t.serving.server task
  | .restart ⟨_, .truncate _⟩ io => io = .ok ∧ Covered codec t
  | .restart ⟨_, .idle⟩ io => io = .ok

instance [DecidableEq V] (s : Backpressure.State R V) (task : ℕ) :
    Decidable (AppendsClean codec s task) :=
  inferInstanceAs (Decidable (_ ∧ _ ∧ _))

instance (t : State R V) : Decidable (Covered codec t) :=
  inferInstanceAs (Decidable (∀ maxSeq ∈ t.serving.server.flusher.committed?,
    t.serving.server.ingest.Protects codec maxSeq (t.uncovered.map (Logged.record codec))))

instance [DecidableEq V] (t : State R V) : ∀ a, Decidable (Sure codec t a)
  | .serve (.log task io) => inferInstanceAs (Decidable (io.rotate = true ∧
      AppendsClean codec t.serving.server task))
  | .serve (.commit io) => inferInstanceAs (Decidable (io = .ok))
  | .serve .truncate => inferInstanceAs (Decidable (Covered codec t))
  | .serve (.letIn _) => instDecidableTrue
  | .serve (.check _) => instDecidableTrue
  | .serve (.reject _) => instDecidableTrue
  | .serve (.spawn _ _) => instDecidableTrue
  | .serve (.insert _) => instDecidableTrue
  | .serve (.timeout _) => instDecidableTrue
  | .serve .take => instDecidableTrue
  | .restart ⟨_, .append task _⟩ io => inferInstanceAs (Decidable (io = .ok ∧
      AppendsClean codec t.serving.server task))
  | .restart ⟨_, .truncate _⟩ io => inferInstanceAs (Decidable (io = .ok ∧ Covered codec t))
  | .restart ⟨_, .idle⟩ io => inferInstanceAs (Decidable (io = .ok))

variable {codec validate c S} {s s' : Backpressure.State R V} {a : Backpressure.Action R}

/-! ### The batches in flight -/

theorem mem_inFlight {b : Logged V} :
    b ∈ inFlight s ↔ ∃ task ∈ s.tasks, entry? task.phase = some b := List.mem_filterMap

theorem mem_inFlight_finish {task : ℕ} {u : Backpressure.Task R V} (hu : s.tasks[task]? = some u)
    {b : Logged V} : b ∈ inFlight s ↔ entry? u.phase = some b ∨ b ∈ inFlight (s.finish task) := by
  rw [mem_inFlight, mem_inFlight]
  simp only [(Backpressure.State.tasks_perm hu).mem_iff, List.mem_cons, or_and_right, exists_or,
    exists_eq_left]

theorem mem_inFlight_advance {task : ℕ} {phase : Phase R V} {live : Bool} {b : Logged V} :
    b ∈ inFlight (s.advance task phase live) ↔
      entry? phase = some b ∨ b ∈ inFlight (s.finish task) := by
  rw [mem_inFlight, mem_inFlight]
  simp only [Backpressure.State.advance, Backpressure.State.finish, List.mem_cons, or_and_right,
    exists_or, exists_eq_left]

/-- **What a step does to the log**, and to the batches between the log and the buffer. -/
inductive Change (codec : Extern V) (s s' : Backpressure.State R V) :
    Backpressure.Action R → Prop
  /-- Nothing, and no batch moves. -/
  | quiet {a : Backpressure.Action R} (hwal : s'.ingest.wal = s.ingest.wal)
      (hdir : s'.ingest.dir = s.ingest.dir) (hflight : ∀ b, b ∈ inFlight s' ↔ b ∈ inFlight s)
      (happends : appends codec s a = none) (hsends : sends s a = [])
      (haccepts : accepts s a = []) (htakes : takes a = false) : Change codec s s' a
  /-- A batch is appended, or not. -/
  | log (task : ℕ) (io : AppendIo)
      (happend : (s'.ingest.wal, s'.ingest.dir) =
        (s.ingest.wal.append codec.crc32 io s.ingest.dir (codec.toVec (handed s task))).2)
      (hflight : ∀ b, b ∈ inFlight s' ↔ appends codec s (.log task io) = some b ∨ b ∈ inFlight s)
      (happends : ∀ b, appends codec s (.log task io) = some b → b.2 = handed s task ∧
        (s.ingest.wal.append codec.crc32 io s.ingest.dir (codec.toVec b.2)).1 = .ok b.1) :
      Change codec s s' (.log task io)
  /-- A batch is inserted. -/
  | insert (task : ℕ) (b : Logged V) (hwal : s'.ingest.wal = s.ingest.wal)
      (hdir : s'.ingest.dir = s.ingest.dir)
      (hmeaning : meaning s (.insert task) = some (.accept b.2))
      (hflight : ∀ b', b' ∈ inFlight s ↔ b' = b ∨ b' ∈ inFlight s') :
      Change codec s s' (.insert task)
  /-- A snapshot is taken. -/
  | take (hwal : s'.ingest.wal = s.ingest.wal) (hdir : s'.ingest.dir = s.ingest.dir)
      (hflight : ∀ b, b ∈ inFlight s' ↔ b ∈ inFlight s) : Change codec s s' .take
  /-- The log is truncated. -/
  | truncate (maxSeq : ℕ) (hcommitted : s.flusher = .committed maxSeq)
      (hingest : s'.ingest = s.ingest.truncateWal maxSeq)
      (hflight : ∀ b, b ∈ inFlight s' ↔ b ∈ inFlight s) : Change codec s s' .truncate

theorem change_of_step (hs : Backpressure.step codec validate c S s a = some s') :
    Change codec s s' a := by
  cases a with
  | letIn raws =>
    rw [Backpressure.step] at hs
    split_ifs at hs
    cases hs
    exact .quiet rfl rfl (fun b => by rw [inFlight, inFlight]; rfl) rfl rfl rfl rfl
  | check task =>
    rw [Backpressure.step] at hs
    split at hs
    · rename_i raws live hu
      split at hs <;> cases hs
      · refine .quiet rfl rfl (fun b => ?_) rfl rfl rfl rfl
        rw [mem_inFlight_finish hu]
        exact (or_iff_right fun hb => (by cases hb)).symm
      · refine .quiet rfl rfl (fun b => ?_) rfl rfl rfl rfl
        rw [mem_inFlight_finish hu, mem_inFlight_advance]
        rfl
    · cases hs
  | reject task =>
    rw [Backpressure.step] at hs
    split at hs <;> cases hs
    rename_i raws live hu
    refine .quiet rfl rfl (fun b => ?_) rfl rfl rfl rfl
    rw [mem_inFlight_finish hu]
    exact (or_iff_right fun hb => (by cases hb)).symm
  | spawn task nowMs =>
    rw [Backpressure.step] at hs
    split at hs
    · rename_i raws live hu
      dsimp only at hs
      split_ifs at hs <;> cases hs
      · refine .quiet rfl rfl (fun b => ?_) rfl rfl rfl rfl
        rw [mem_inFlight_finish hu]
        exact (or_iff_right fun hb => (by cases hb)).symm
      · refine .quiet rfl rfl (fun b => ?_) rfl rfl rfl rfl
        rw [mem_inFlight_finish hu, mem_inFlight_advance]
        rfl
    · cases hs
  | log task io =>
    rw [Backpressure.step] at hs
    split at hs
    · rename_i samples live hu
      have hhanded : handed s task = samples := by rw [handed, hu]
      split at hs
      · rename_i e ingest happend
        cases hs
        have hnone : appends codec s (.log task io) = none := by
          simp only [appends, hu, happend]
        refine .log task io ?_ (fun b => ?_) fun b hb => ?_
        · rw [hhanded]
          exact congrArg (fun r => (r.2.wal, r.2.dir)) happend.symm
        · change b ∈ inFlight (s.finish task) ↔ _
          rw [hnone, mem_inFlight_finish hu]
          exact ((or_iff_right fun hb => (by cases hb)).trans
            (or_iff_right fun hb => (by cases hb))).symm
        · rw [hnone] at hb
          cases hb
      · rename_i recordSeq ingest happend
        cases hs
        have hsome : appends codec s (.log task io) = some (recordSeq, samples) := by
          simp only [appends, hu, happend]
        refine .log task io ?_ (fun b => ?_) fun b hb => ?_
        · rw [hhanded]
          exact congrArg (fun r => (r.2.wal, r.2.dir)) happend.symm
        · rw [hsome, mem_inFlight_finish hu]
          refine mem_inFlight_advance.trans (or_congr Iff.rfl ?_)
          exact (or_iff_right fun hb => (by cases hb)).symm
        · rw [hsome] at hb
          cases hb
          exact ⟨hhanded.symm, congrArg Prod.fst happend⟩
    · cases hs
  | insert task =>
    rw [Backpressure.step] at hs
    split at hs
    · rename_i recordSeq samples live hu
      cases hs
      refine .insert task (recordSeq, samples) rfl rfl (by rw [meaning, hu]) fun b => ?_
      rw [mem_inFlight_finish hu]
      exact or_congr ⟨fun h => (Option.some.inj h).symm, fun h => congrArg some h.symm⟩ Iff.rfl
    · cases hs
  | timeout task =>
    rw [Backpressure.step] at hs
    split at hs
    · rename_i phase hu
      split_ifs at hs with hdetachable <;> cases hs
      · refine .quiet rfl rfl (fun b => ?_) rfl rfl rfl rfl
        rw [mem_inFlight_finish hu, mem_inFlight_advance]
      · refine .quiet rfl rfl (fun b => ?_) rfl rfl rfl rfl
        rw [mem_inFlight_finish hu]
        refine (or_iff_right fun h => ?_).symm
        cases phase with
        | logged recordSeq samples => exact hdetachable rfl
        | _ => cases h
    · cases hs
  | take =>
    rw [Backpressure.step] at hs
    split at hs
    · split_ifs at hs
      cases hs
      exact .take rfl rfl fun b => Iff.rfl
    · cases hs
  | commit io =>
    rw [Backpressure.step] at hs
    split at hs
    · split at hs <;> cases hs <;> exact .quiet rfl rfl (fun b => Iff.rfl) rfl rfl rfl rfl
    · cases hs
  | truncate =>
    rw [Backpressure.step] at hs
    split at hs
    · rename_i maxSeq hcommitted
      cases hs
      exact .truncate maxSeq hcommitted rfl fun b => Iff.rfl
    · cases hs

/-! ### The store after a crash -/

/-- A new series of a buffer that records have been inserted in is that of one of the samples. -/
theorem mem_buildSeriesBatch_insertRecords {b : Buffer V} {rs : List WalRecord} {r : SeriesRow}
    (hr : r ∈ buildSeriesBatch (b.insertRecords codec rs).take.1) :
    r ∈ buildSeriesBatch b.take.1 ∨ ∃ x ∈ recordSamples codec rs, x.seriesRow = r := by
  induction rs generalizing b with
  | nil => exact Or.inl hr
  | cons rec rs ih =>
    rw [Buffer.insertRecords, List.foldl_cons] at hr
    rw [recordSamples, List.flatMap_cons]
    rcases hp : codec.fromSlice rec.payload with _ | samples
    · rw [hp] at hr
      exact ih hr
    · rw [hp] at hr
      rcases ih hr with hr | ⟨x, hx, hrow⟩
      · refine (ServerStore.mem_buildSeriesBatch_insertBatch hr).imp id ?_
        rintro ⟨x, hx, hrow⟩
        exact ⟨x, List.mem_append_left _ hx, hrow⟩
      · exact Or.inr ⟨x, List.mem_append_right _ hx, hrow⟩

/-- The tables have the items of a store, and a row for each listed key. -/
structure InTables (tables : Tables V) (st : StagedStore (ValidatedSample V) ℤ) : Prop where
  /-- The table has the items of the store. -/
  stored : (tables.samples : Multiset (SampleRow V)) = st.stored.map ValidatedSample.row
  /-- The ids with a row are the keys that are listed. -/
  listed : ∀ id, id ∈ tables.seriesIds ↔ id ∈ st.listed
  /-- A row is that of an item of the store. -/
  listedRow : ∀ r ∈ tables.series, ∃ x ∈ st.stored, x.seriesRow = r
  /-- No series has two rows. -/
  oneRow : tables.seriesIds.Nodup

variable {st : StagedStore (ValidatedSample V) ℤ}

theorem inTables_of_refines (h : Refines s st) : InTables s.ingest.tables st :=
  ⟨h.stored, h.listed, h.listedRow, h.oneRow⟩

/-- **What a crash leaves in the tables** is what it leaves of the store. -/
theorem inTables_left {t : ServerStore.State R V} (h : Refines t.server t.store)
    (hapart : t.store.Apart) (crash : Crash) :
    InTables (tablesLeft t.server crash) (storeLeft t crash) := by
  rw [tablesLeft, storeLeft]
  rcases hflusher : t.server.flusher with _ | snap | maxSeq
  · exact inTables_of_refines h
  · simp only
    split_ifs
    · let left : Backpressure.State R V := { t.server with
        ingest := { t.server.ingest with
          tables := (flush ⟨true, false⟩ t.server.ingest.tables snap).2 }
        flusher := .idle }
      have hbuffer : left.ingest.buffer = t.server.ingest.buffer := rfl
      have htables : left.ingest.tables = (flush ⟨true, false⟩ t.server.ingest.tables snap).2 := rfl
      exact inTables_of_refines (h.commit hapart hflusher hbuffer htables rfl rfl)
    · exact inTables_of_refines h
  · exact inTables_of_refines h

/-- **A start that reads the catalog restarts the store** with the items of the log. -/
theorem refines_openWithRotation {tables : Tables V} (h : InTables tables st) (dir : WalDir)
    (rotationBytes : ℕ) :
    Refines (Backpressure.start (AppState.openWithRotation codec .ok tables dir
        rotationBytes) : Backpressure.State R V)
      (st.restart (recordSamples codec (Wal.readable codec.crc32 dir))) := by
  have hbuffer : (Backpressure.start (AppState.openWithRotation codec .ok tables dir
      rotationBytes) : Backpressure.State R V).ingest.buffer =
        (Buffer.withKnownSeries tables.seriesIds).insertRecords codec
          (Wal.readable codec.crc32 dir) :=
    AppState.openWithRotation_buffer .ok tables dir rotationBytes
  refine ⟨?_, ?_, rfl, h.stored, fun id => ?_, fun id => ?_, fun id => ?_, h.listed, fun r hr => ?_,
    fun r hr => ?_, h.listedRow, h.oneRow⟩
  · rw [hbuffer]
    exact (Buffer.counted_withKnownSeries _).insertRecords _
  · rw [hbuffer, Multiset.coe_eq_coe.mpr (Buffer.rows_insertRecords _ _)]
    exact congrArg _ (List.append_nil _)
  · rw [hbuffer, Buffer.insertRecords_knownSeries]
    exact List.mem_toFinset.trans (h.listed id)
  · have hnew : id ∉ (Buffer.withKnownSeries tables.seriesIds : Buffer V).newSeries.keys :=
      List.not_mem_nil
    rw [hbuffer, Buffer.mem_newSeries_insertRecords, or_iff_right hnew, and_comm, List.mem_map]
    exact and_congr (not_congr (List.mem_toFinset.trans (h.listed id))) Iff.rfl
  · exact ⟨fun hid => (by cases hid), fun hid => absurd hid (Set.notMem_empty id)⟩
  · rw [hbuffer] at hr
    exact (mem_buildSeriesBatch_insertRecords hr).resolve_left List.not_mem_nil
  · cases hr

/-! ### The invariant -/

variable {t t' : State R V}

variable (codec) in
/-- The payload of a record is that of samples that have been handed to the log. -/
def Sent (t : State R V) (r : WalRecord) : Prop :=
  ∃ b, r.payload = codec.toVec b ∧ codec.fromSlice (codec.toVec b) = some b ∧ ∀ x ∈ b, x ∈ t.sent

variable (codec) in
/-- What a run keeps. -/
structure Inv (t : State R V) : Prop where
  /-- The server implements its store. -/
  store : ServerStore.Inv t.serving
  /-- What is known or moved is listed or about to be. -/
  keyed : t.serving.store.Keyed ValidatedSample.seriesId
  /-- Only the end of the log may be torn. -/
  sealed : t.serving.server.ingest.wal.Sealed codec.crc32 t.serving.server.ingest.dir
  /-- A batch that was appended is read back from its payload, and was handed to the log. -/
  parsed : ∀ b ∈ t.appended, codec.fromSlice (codec.toVec b.2) = some b.2 ∧ ∀ x ∈ b.2, x ∈ t.sent
  /-- A batch that was appended is read from the log, or its samples are found. -/
  logged : ∀ b ∈ t.appended,
    b.record codec ∈ Wal.readable codec.crc32 t.serving.server.ingest.dir ∨
      ∀ x ∈ b.2, x ∈ t.serving.store.visible ValidatedSample.seriesId
  /-- A batch that was appended is in flight, or the store holds its samples. -/
  placed : ∀ b ∈ t.appended, b ∈ inFlight t.serving.server ∨
    ∀ x ∈ b.2, t.serving.store.Held ValidatedSample.seriesId x
  /-- A batch that is covered has left the buffer. -/
  passed : ∀ b ∈ t.appended, b ∈ t.uncovered ∨
    ∀ x ∈ b.2, t.serving.store.Gone ValidatedSample.seriesId x
  /-- A batch in flight was appended. -/
  inFlight : ∀ b ∈ inFlight t.serving.server, b ∈ t.appended
  /-- A sample that was accepted is of a batch that was appended, and the store holds it. -/
  acked : ∀ x ∈ t.acked, (∃ b ∈ t.appended, x ∈ b.2) ∧
    t.serving.store.Held ValidatedSample.seriesId x
  /-- What is read from the log was handed to it. -/
  readable : ∀ r ∈ Wal.readable codec.crc32 t.serving.server.ingest.dir, Sent codec t r
  /-- What the store has accepted was handed to the log. -/
  accepted : ∀ x ∈ t.serving.store.accepted, x ∈ t.sent

theorem Sent.mono {r : WalRecord} (h : Sent codec t r) (hsent : ∀ x ∈ t.sent, x ∈ t'.sent) :
    Sent codec t' r := by
  obtain ⟨b, hb, hparsed, hx⟩ := h
  exact ⟨b, hb, hparsed, fun x hmem => hsent x (hx x hmem)⟩

theorem inv_start (rotationBytes : ℕ) : Inv codec (start codec rotationBytes : State R V) where
  store := ServerStore.inv_start rotationBytes
  keyed := StagedStore.keyed_empty _ _
  sealed := WalWriter.sealed_openWithRotation_empty _ _
  parsed b hb := absurd hb List.not_mem_nil
  logged b hb := absurd hb List.not_mem_nil
  placed b hb := absurd hb List.not_mem_nil
  passed b hb := absurd hb List.not_mem_nil
  inFlight b hb := absurd hb List.not_mem_nil
  acked x hx := absurd hx List.not_mem_nil
  readable r hr := by
    have hempty : Wal.readable codec.crc32 (WalWriter.openWithRotation .empty rotationBytes).2 =
        Wal.readable codec.crc32 .empty := Wal.readable_openWithRotation _ _
    have hr : r ∈ Wal.readable codec.crc32 (WalWriter.openWithRotation .empty rotationBytes).2 := hr
    rw [hempty] at hr
    cases hr
  accepted x hx := absurd hx (Multiset.notMem_zero x)

/-! ### Deleting files -/

/-- The log after a truncation, as what is left of its files. -/
theorem exists_filter_truncateWal (s : IngestState V) (maxSeq : ℕ) :
    ∃ p : ℕ → Bytes → Bool, (s.truncateWal maxSeq).dir = s.dir.filter p ∧
      ∀ file bs, s.dir.get? file = some bs → p file bs = false →
        (file, bs) ∈ s.removed maxSeq := by
  by_cases hpos : maxSeq > 0
  · refine ⟨fun fileSeq bs => fileSeq == s.wal.fileSeq ||
      !decide (Wal.scanMaxRecordSeq bs ≤ maxSeq), ?_, fun file bs hget hp => ?_⟩
    · rw [IngestState.truncateWal, if_pos hpos]
      rfl
    · rw [IngestState.removed, if_pos hpos, WalWriter.mem_removed]
      simp only [Bool.or_eq_false_iff, beq_eq_false_iff_ne, Bool.not_eq_false',
        decide_eq_true_eq] at hp
      exact ⟨hget, hp⟩
  · refine ⟨fun _ _ => true, ?_, fun file bs hget hp => by cases hp⟩
    rw [IngestState.truncateWal, if_neg hpos]
    exact SortedMap.ext_entries (List.filter_eq_self.mpr fun _ _ => rfl).symm

/-- **A truncation that spares the overtaken appends**, completed or not: what it takes from the log
is found. -/
theorem Inv.filter (h : Inv codec t) (hok : Covered codec t) {maxSeq : ℕ}
    (hcommitted : t.serving.server.flusher = .committed maxSeq) {p : ℕ → Bytes → Bool}
    (hp : ∀ file bs, t.serving.server.ingest.dir.get? file = some bs → p file bs = false →
      (file, bs) ∈ t.serving.server.ingest.removed maxSeq) :
    t.serving.server.ingest.wal.Sealed codec.crc32 (t.serving.server.ingest.dir.filter p) ∧
      (∀ r ∈ Wal.readable codec.crc32 (t.serving.server.ingest.dir.filter p),
        r ∈ Wal.readable codec.crc32 t.serving.server.ingest.dir) ∧
      ∀ b ∈ t.appended,
        b.record codec ∈ Wal.readable codec.crc32 (t.serving.server.ingest.dir.filter p) ∨
          ∀ x ∈ b.2, x ∈ t.serving.store.visible ValidatedSample.seriesId := by
  have hcovered := hok maxSeq (by rw [hcommitted]; rfl)
  have hmoving : t.serving.store.moving = 0 :=
    h.store.refines.moving_eq_zero (by rw [hcommitted]; rfl)
  have hremoved : ∀ file bs, t.serving.server.ingest.dir.get? file = some bs →
      p file bs = false → 0 < maxSeq ∧ file ≠ t.serving.server.ingest.wal.fileSeq ∧
        Wal.scanMaxRecordSeq bs ≤ maxSeq := by
    intro file bs hget hpfalse
    have hmem := hp file bs hget hpfalse
    rw [IngestState.removed] at hmem
    split_ifs at hmem with hpos
    · exact ⟨hpos, (WalWriter.mem_removed.mp hmem).2⟩
    · cases hmem
  have hcurrent : ∀ bs ∈ t.serving.server.ingest.dir.get? t.serving.server.ingest.wal.fileSeq,
      p t.serving.server.ingest.wal.fileSeq bs = true := by
    intro bs hget
    by_contra hpfalse
    exact (hremoved _ bs hget (Bool.eq_false_of_not_eq_true hpfalse)).2.1 rfl
  obtain ⟨hsealed, honly, hkeeps⟩ := h.sealed.filter hcurrent
  refine ⟨hsealed, honly, fun b hb => ?_⟩
  rcases h.logged b hb with hr | hfound
  · rcases hkeeps _ hr with hr | ⟨file, bs, hget, hpfalse, hr⟩
    · exact Or.inl hr
    · obtain ⟨hpos, hne, hle⟩ := hremoved file bs hget hpfalse
      refine Or.inr ?_
      rcases h.passed b hb with huncovered | hgone
      · -- an overtaken append, the file of which is spared
        rcases hcovered with hzero | hspared
        · omega
        · rcases hspared (file, bs) (SortedMap.get?_eq_some_iff.mp hget)
            ⟨_, List.mem_map_of_mem huncovered, hr⟩ with heq | hlt
          · exact absurd heq hne
          · exact absurd hle (not_le.mpr hlt)
      · refine fun x hx => (hgone x hx).resolve_left ?_
        rw [hmoving]
        exact Multiset.notMem_zero x
  · exact Or.inr hfound

/-! ### Crashes -/

/-- **What a crash leaves of the log**: a log that is torn at its end at most, with the batches that
are not found, and nothing but what was handed to it. -/
theorem Inv.dirLeft (h : Inv codec t) {crash : Crash} {io : ReadIo}
    (hok : Sure codec t (.restart crash io)) :
    (∃ w, WalWriter.Sealed codec.crc32 w (dirLeft codec t.serving.server crash.log)) ∧
      (∀ b ∈ t.appended, b.record codec ∈
          Wal.readable codec.crc32 (dirLeft codec t.serving.server crash.log) ∨
        ∀ x ∈ b.2, x ∈ t.serving.store.visible ValidatedSample.seriesId) ∧
      ∀ r ∈ Wal.readable codec.crc32 (dirLeft codec t.serving.server crash.log),
        Sent codec { t with sent := sentLeft t.serving.server crash.log ++ t.sent } r := by
  have hsent : ∀ {r}, Sent codec t r →
      Sent codec { t with sent := sentLeft t.serving.server crash.log ++ t.sent } r :=
    fun hr => hr.mono fun x hx => List.mem_append_right _ hx
  obtain ⟨committed, log⟩ := crash
  cases log with
  | idle => exact ⟨⟨_, h.sealed⟩, h.logged, fun r hr => hsent (h.readable r hr)⟩
  | append task k =>
    obtain ⟨-, hnext, hclean, hparsed⟩ := hok
    have hdir : Restarts.dirLeft codec t.serving.server (.append task k) =
        (t.serving.server.ingest.wal.append codec.crc32 ⟨some k, true, true⟩
          t.serving.server.ingest.dir (codec.toVec (handed t.serving.server task))).2.2 ∨
        Restarts.dirLeft codec t.serving.server (.append task k) =
          t.serving.server.ingest.dir := by
      rw [Restarts.dirLeft, handed]
      split
      · exact Or.inl rfl
      · exact Or.inr rfl
    rcases hdir with hdir | hdir
    · have hio : (⟨some k, true, true⟩ : AppendIo).rotate = true := rfl
      obtain ⟨hsealed, hkeeps, honly, -⟩ := h.sealed.append hclean hio hnext
        (codec.toVec (handed t.serving.server task))
      rw [hdir]
      refine ⟨⟨_, hsealed⟩, fun b hb => (h.logged b hb).imp_left (hkeeps _), fun r hr => ?_⟩
      rcases honly r hr with hr | rfl
      · exact hsent (h.readable r hr)
      · exact ⟨_, rfl, hparsed, fun x hx => List.mem_append_left _ hx⟩
    · rw [hdir]
      exact ⟨⟨_, h.sealed⟩, h.logged, fun r hr => hsent (h.readable r hr)⟩
  | truncate deleted =>
    rw [Restarts.dirLeft]
    dsimp only
    split
    · rename_i maxSeq hcommitted
      obtain ⟨hsealed, honly, hkeeps⟩ := h.filter hok.2 hcommitted (p := fun file bs =>
        !(deleted.contains file &&
          (t.serving.server.ingest.removed maxSeq).contains (file, bs))) (by
        intro file bs hget hp
        simp only [Bool.not_eq_false', Bool.and_eq_true, List.contains_iff_mem] at hp
        exact hp.2)
      exact ⟨⟨_, hsealed⟩, hkeeps, fun r hr => hsent (h.readable r (honly r hr))⟩
    · exact ⟨⟨_, h.sealed⟩, h.logged, fun r hr => hsent (h.readable r hr)⟩

/-- **A crash and a start lose nothing for good**: what is in the log is on the stage, and the rest
is found. -/
theorem Inv.restart (h : Inv codec t) {crash : Crash} {io : ReadIo}
    (hok : Sure codec t (.restart crash io))
    (hs : step codec validate c S t (.restart crash io) = some t') : Inv codec t' := by
  obtain ⟨⟨w, hsealed⟩, hlogged, hreadable⟩ := h.dirLeft hok
  obtain rfl : io = .ok := by
    obtain ⟨committed, _ | _ | _⟩ := crash
    · exact hok
    · exact hok.1
    · exact hok.1
  cases hs
  have hopened : Wal.readable codec.crc32 (WalWriter.openWithRotation
      (Restarts.dirLeft codec t.serving.server crash.log)
        t.serving.server.ingest.wal.rotationBytes).2 =
      Wal.readable codec.crc32 (Restarts.dirLeft codec t.serving.server crash.log) :=
    Wal.readable_openWithRotation _ _
  -- the store that is left has the items and the keys of the old one
  have hleft : (storeLeft t.serving crash).accepted = t.serving.store.accepted ∧
      t.serving.store.visible ValidatedSample.seriesId ≤
        (storeLeft t.serving crash).visible ValidatedSample.seriesId ∧
      (storeLeft t.serving crash).Sound := by
    rw [storeLeft]
    split
    · split_ifs
      · exact ⟨rfl, StagedStore.visible_le_next _ _ _, h.store.sound.next _⟩
      · exact ⟨rfl, le_rfl, h.store.sound⟩
    · exact ⟨rfl, le_rfl, h.store.sound⟩
  have hvisible := Multiset.subset_of_le hleft.2.1
  have hheld : ∀ b ∈ t.appended, ∀ x ∈ b.2,
      ((storeLeft t.serving crash).restart (recordSamples codec
        (Wal.readable codec.crc32 (Restarts.dirLeft codec t.serving.server crash.log)))).Held
          ValidatedSample.seriesId x := by
    intro b hb x hx
    refine StagedStore.held_restart ((hlogged b hb).imp (fun hr => ?_) fun hfound =>
      hvisible (hfound x hx))
    refine List.mem_flatMap.mpr ⟨_, hr, ?_⟩
    rw [Logged.record, (h.parsed b hb).1]
    exact hx
  refine ⟨⟨refines_openWithRotation (inTables_left h.store.refines h.store.apart crash) _ _,
      hleft.2.2.restart _, StagedStore.apart_restart _ _⟩,
    StagedStore.keyed_restart _ _ _, hsealed.openWithRotation _, fun b hb => ?_, fun b hb => ?_,
    fun b hb => Or.inr (hheld b hb), fun b hb => Or.inl hb, fun b hb => absurd hb List.not_mem_nil,
    fun x hx => ?_, fun r hr => hreadable r (hopened ▸ hr), fun x hx => ?_⟩
  · exact ⟨(h.parsed b hb).1, fun x hx => List.mem_append_right _ ((h.parsed b hb).2 x hx)⟩
  · refine (hlogged b hb).imp (fun hr => ?_) fun hfound x hx => hvisible (hfound x hx)
    exact hopened ▸ hr
  · obtain ⟨⟨b, hb, hxb⟩, -⟩ := h.acked x hx
    exact ⟨⟨b, hb, hxb⟩, hheld b hb x hxb⟩
  · rcases Multiset.mem_add.mp hx with hx | hx
    · rw [hleft.1] at hx
      exact List.mem_append_right _ (h.accepted x hx)
    · obtain ⟨r, hr, hx⟩ := List.mem_flatMap.mp hx
      obtain ⟨b, hpayload, hparsed, hb⟩ := hreadable r hr
      rw [hpayload, hparsed] at hx
      exact hb x hx

/-! ### Steps -/

/-- A step whose commit lands is an operation that works out. -/
theorem lands_of_sure (hok : Sure codec t (.serve a)) {act : StagedStore.Action (ValidatedSample V)}
    (hact : meaning t.serving.server a = some act) : act.Lands := by
  refine ServerStore.lands_meaning (fun io ha => ?_) hact
  rw [ha] at hok
  exact hok

section Follow

variable (hkeyed : t.serving.store.Keyed ValidatedSample.seriesId)
  (hok : Sure codec t (.serve a)) {x : ValidatedSample V}
include hkeyed hok

theorem keyed_follow : (follow t.serving a).Keyed ValidatedSample.seriesId := by
  rw [follow]
  split
  · rename_i act hact
    exact hkeyed.next (lands_of_sure hok hact)
  · exact hkeyed

theorem gone_follow (hx : t.serving.store.Gone ValidatedSample.seriesId x) :
    (follow t.serving a).Gone ValidatedSample.seriesId x := by
  rw [follow]
  split
  · rename_i act hact
    exact hx.next hkeyed (lands_of_sure hok hact)
  · exact hx

theorem held_follow (hx : t.serving.store.Held ValidatedSample.seriesId x) :
    (follow t.serving a).Held ValidatedSample.seriesId x := by
  rw [follow]
  split
  · rename_i act hact
    exact hx.next hkeyed (lands_of_sure hok hact)
  · exact hx

omit hkeyed hok in
theorem visible_follow (hx : x ∈ t.serving.store.visible ValidatedSample.seriesId) :
    x ∈ (follow t.serving a).visible ValidatedSample.seriesId := by
  rw [follow]
  split
  · exact Multiset.subset_of_le (StagedStore.visible_le_next _ _ _) hx
  · exact hx

end Follow

/-- What a step accepts is what its store does. -/
theorem accepted_follow (t : ServerStore.State R V) (a : Backpressure.Action R) :
    (follow t a).accepted = t.store.accepted + (accepts t.server a : Multiset _) := by
  rw [follow, accepts]
  rcases meaning t.server a with _ | (samples | _ | _)
  · exact (add_zero _).symm
  · rfl
  · exact (add_zero _).symm
  · exact (add_zero _).symm

/-- **What a step leaves of the log**: the batches that are not found and the one that is appended,
and nothing but what was handed to it. -/
theorem Inv.log (h : Inv codec t) (hok : Sure codec t (.serve a))
    (hchange : Change codec t.serving.server s' a) :
    s'.ingest.wal.Sealed codec.crc32 s'.ingest.dir ∧
      (∀ b ∈ t.appended, b.record codec ∈ Wal.readable codec.crc32 s'.ingest.dir ∨
        ∀ x ∈ b.2, x ∈ t.serving.store.visible ValidatedSample.seriesId) ∧
      (∀ b ∈ appends codec t.serving.server a,
        b.record codec ∈ Wal.readable codec.crc32 s'.ingest.dir ∧
          codec.fromSlice (codec.toVec b.2) = some b.2 ∧ b.2 = sends t.serving.server a) ∧
      ∀ r ∈ Wal.readable codec.crc32 s'.ingest.dir,
        Sent codec { t with sent := sends t.serving.server a ++ t.sent } r := by
  have hsent : ∀ {r}, Sent codec t r →
      Sent codec { t with sent := sends t.serving.server a ++ t.sent } r :=
    fun hr => hr.mono fun x hx => List.mem_append_right _ hx
  cases hchange with
  | quiet hwal hdir hflight happends hsends haccepts htakes =>
    rw [hwal, hdir, happends]
    exact ⟨h.sealed, h.logged, fun b hb => (by cases hb), fun r hr => hsent (h.readable r hr)⟩
  | log task io happend hflight happends =>
    obtain ⟨hio, hnext, hclean, hparsed⟩ := hok
    obtain ⟨hsealed, hkeeps, honly, hnew⟩ := h.sealed.append hclean hio hnext
      (codec.toVec (handed t.serving.server task))
    obtain ⟨hwal, hdir⟩ := Prod.ext_iff.mp happend
    rw [← hwal, ← hdir] at hsealed
    rw [← hdir] at hkeeps honly hnew
    refine ⟨hsealed, fun b hb => (h.logged b hb).imp_left (hkeeps _), fun b hb => ?_,
      fun r hr => ?_⟩
    · obtain ⟨hhanded, hresult⟩ := happends b hb
      refine ⟨?_, by rw [hhanded, hparsed], hhanded⟩
      rw [hhanded] at hresult
      rw [Logged.record, hhanded]
      exact hnew _ hresult
    · rcases honly r hr with hr | rfl
      · exact hsent (h.readable r hr)
      · exact ⟨_, rfl, hparsed, fun x hx => List.mem_append_left _ hx⟩
  | insert task b hwal hdir hmeaning hflight =>
    rw [hwal, hdir]
    exact ⟨h.sealed, h.logged, fun b hb => (by cases hb), fun r hr => hsent (h.readable r hr)⟩
  | take hwal hdir hflight =>
    rw [hwal, hdir]
    exact ⟨h.sealed, h.logged, fun b hb => (by cases hb), fun r hr => hsent (h.readable r hr)⟩
  | truncate maxSeq hcommitted hingest hflight =>
    obtain ⟨p, hdir, hp⟩ := exists_filter_truncateWal t.serving.server.ingest maxSeq
    obtain ⟨hsealed, honly, hkeeps⟩ := h.filter hok hcommitted hp
    rw [hingest, IngestState.truncateWal_wal, hdir]
    exact ⟨hsealed, hkeeps, fun b hb => (by cases hb),
      fun r hr => hsent (h.readable r (honly r hr))⟩

/-- **Where the batches of a step go**: from the log into flight, and from there into the store. -/
theorem flight_of_change (hchange : Change codec t.serving.server s' a) :
    (∀ b ∈ inFlight s',
      appends codec t.serving.server a = some b ∨ b ∈ inFlight t.serving.server) ∧
      (∀ b, appends codec t.serving.server a = some b → b ∈ inFlight s') ∧
      (∀ b ∈ inFlight t.serving.server, b ∈ inFlight s' ∨
        ∀ x ∈ b.2, (follow t.serving a).Held ValidatedSample.seriesId x) ∧
      (∀ x ∈ accepts t.serving.server a, (∃ b ∈ inFlight t.serving.server, x ∈ b.2) ∧
        (follow t.serving a).Held ValidatedSample.seriesId x) ∧
      ∀ x ∈ (follow t.serving a).accepted,
        x ∈ accepts t.serving.server a ∨ x ∈ t.serving.store.accepted := by
  have haccepted : ∀ x ∈ (follow t.serving a).accepted,
      x ∈ accepts t.serving.server a ∨ x ∈ t.serving.store.accepted := by
    intro x hx
    rw [accepted_follow] at hx
    exact (Multiset.mem_add.mp hx).symm
  cases hchange with
  | quiet hwal hdir hflight happends hsends haccepts htakes =>
    rw [happends]
    refine ⟨fun b hb => Or.inr ((hflight b).mp hb), fun _ hb => (by cases hb),
      fun b hb => Or.inl ((hflight b).mpr hb), fun x hx => ?_, haccepted⟩
    rw [haccepts] at hx
    cases hx
  | log task io happend hflight happends =>
    exact ⟨fun b hb => (hflight b).mp hb, fun b hb => (hflight b).mpr (Or.inl hb),
      fun b hb => Or.inl ((hflight b).mpr (Or.inr hb)), fun x hx => (by cases hx), haccepted⟩
  | insert task b hwal hdir hmeaning hflight =>
    have haccepts : accepts t.serving.server (.insert task) = b.2 := by
      rw [accepts, hmeaning]
    have hheld : ∀ x ∈ b.2, (follow t.serving (.insert task)).Held ValidatedSample.seriesId x := by
      intro x hx
      rw [follow, hmeaning]
      exact StagedStore.held_accept hx
    refine ⟨fun b' hb => Or.inr ((hflight b').mpr (Or.inr hb)), fun _ hb => (by cases hb),
      fun b' hb => ?_, fun x hx => ?_, haccepted⟩
    · rcases (hflight b').mp hb with rfl | hb
      · exact Or.inr hheld
      · exact Or.inl hb
    · rw [haccepts] at hx
      exact ⟨⟨b, (hflight b).mpr (Or.inl rfl), hx⟩, hheld x hx⟩
  | take hwal hdir hflight =>
    exact ⟨fun b hb => Or.inr ((hflight b).mp hb), fun _ hb => (by cases hb),
      fun b hb => Or.inl ((hflight b).mpr hb), fun x hx => (by cases hx), haccepted⟩
  | truncate maxSeq hcommitted hingest hflight =>
    exact ⟨fun b hb => Or.inr ((hflight b).mp hb), fun _ hb => (by cases hb),
      fun b hb => Or.inl ((hflight b).mpr hb), fun x hx => (by cases hx), haccepted⟩

/-- **A batch is covered by a `take` that finds it in the buffer**, and stays so. -/
theorem Inv.passed_follow (h : Inv codec t) (hok : Sure codec t (.serve a)) {b : Logged V}
    (hb : b ∈ (appends codec t.serving.server a).toList ++ t.appended) :
    b ∈ (if takes a then Restarts.inFlight t.serving.server
        else (appends codec t.serving.server a).toList ++ t.uncovered) ∨
      ∀ x ∈ b.2, (follow t.serving a).Gone ValidatedSample.seriesId x := by
  split_ifs with htakes
  · cases a with
    | take =>
      rcases h.placed b hb with hb | hb
      · exact Or.inl hb
      · exact Or.inr fun x hx => (hb x hx).gone_take
    | _ => cases htakes
  · rcases List.mem_append.mp hb with hb | hb
    · exact Or.inl (List.mem_append_left _ hb)
    · refine (h.passed b hb).imp (List.mem_append_right _) fun hb x hx => ?_
      exact gone_follow h.keyed hok (hb x hx)

theorem Inv.serve (h : Inv codec t) (hok : Sure codec t (.serve a))
    (hs : step codec validate c S t (.serve a) = some t') : Inv codec t' := by
  obtain ⟨serving, hserving, rfl⟩ := Option.map_eq_some_iff.mp hs
  have hstore := h.store.step hserving
  obtain ⟨hserver, hfollow⟩ := ServerStore.exists_step hserving
  have hchange : Change codec t.serving.server _ a := change_of_step hserver
  obtain ⟨hsealed, hlogged, hnew, hreadable⟩ := h.log hok hchange
  obtain ⟨hfrom, hto, hgone, haccepts, haccepted⟩ := flight_of_change hchange
  have hheld := fun x => held_follow (x := x) h.keyed hok
  rw [← hfollow] at hgone haccepts haccepted hheld
  refine ⟨hstore, hfollow ▸ keyed_follow h.keyed hok, hsealed, fun b hb => ?_, fun b hb => ?_,
    fun b hb => ?_, fun b hb => ?_, fun b hb => ?_, fun x hx => ?_, hreadable, fun x hx => ?_⟩
  · rcases List.mem_append.mp hb with hb | hb
    · obtain ⟨-, hparsed, hsends⟩ := hnew b (Option.mem_toList.mp hb)
      exact ⟨hparsed, fun x hx => List.mem_append_left _ (hsends ▸ hx)⟩
    · exact ⟨(h.parsed b hb).1, fun x hx => List.mem_append_right _ ((h.parsed b hb).2 x hx)⟩
  · rcases List.mem_append.mp hb with hb | hb
    · exact Or.inl (hnew b (Option.mem_toList.mp hb)).1
    · refine (hlogged b hb).imp_right fun hfound x hx => ?_
      have hvisible := visible_follow (a := a) (hfound x hx)
      rwa [← hfollow] at hvisible
  · rcases List.mem_append.mp hb with hb | hb
    · exact Or.inl (hto b (Option.mem_toList.mp hb))
    · rcases h.placed b hb with hb | hb
      · exact hgone b hb
      · exact Or.inr fun x hx => hheld x (hb x hx)
  · have hpassed := h.passed_follow hok hb
    rwa [← hfollow] at hpassed
  · rcases hfrom b hb with hb | hb
    · exact List.mem_append_left _ (Option.mem_toList.mpr hb)
    · exact List.mem_append_right _ (h.inFlight b hb)
  · rcases List.mem_append.mp hx with hx | hx
    · obtain ⟨⟨b, hb, hxb⟩, hheld⟩ := haccepts x hx
      exact ⟨⟨b, List.mem_append_right _ (h.inFlight b hb), hxb⟩, hheld⟩
    · obtain ⟨⟨b, hb, hxb⟩, hx⟩ := h.acked x hx
      exact ⟨⟨b, List.mem_append_right _ hb, hxb⟩, hheld x hx⟩
  · rcases haccepted x hx with hx | hx
    · obtain ⟨⟨b, hb, hxb⟩, -⟩ := haccepts x hx
      exact List.mem_append_right _ ((h.parsed b (h.inFlight b hb)).2 x hxb)
    · exact List.mem_append_right _ (h.accepted x hx)

theorem Inv.step {a : Action R} (h : Inv codec t) (hok : Sure codec t a)
    (hs : Restarts.step codec validate c S t a = some t') : Inv codec t' := by
  cases a with
  | serve a => exact h.serve hok hs
  | restart crash io => exact h.restart hok hs

/-! ### Runs -/

section Runs

variable {rotationBytes : ℕ}
  (hrun : Runs (Runs.ofFn (step codec validate c S)) (Sure codec) (start codec rotationBytes) t)
include hrun

/-- **What a server keeps over any number of crashes.** -/
theorem inv_run : Inv codec t :=
  hrun.invariant (inv_start rotationBytes) fun h hok hs => h.step hok hs

/-- **What is handed to the log has been validated.** -/
theorem validated_run : ∀ x ∈ t.sent, ServerStore.Validated validate x := by
  have hhanded : ∀ {s : Backpressure.State R V} {task : ℕ},
      (∀ u ∈ s.tasks, ∀ x ∈ ServerStore.batch u.phase, ServerStore.Validated validate x) →
        ∀ x ∈ handed s task, ServerStore.Validated validate x := by
    intro s task h x hx
    rw [handed] at hx
    split at hx
    · rename_i hu
      exact h _ (List.mem_of_getElem? hu) x hx
    · cases hx
  refine (hrun.invariant (P := fun t => (∀ u ∈ t.serving.server.tasks, ∀ x ∈
    ServerStore.batch u.phase, ServerStore.Validated validate x) ∧ ∀ x ∈ t.sent,
      ServerStore.Validated validate x) ⟨fun u hu => absurd hu List.not_mem_nil,
        fun x hx => absurd hx List.not_mem_nil⟩ ?_).2
  rintro t a t' ⟨htasks, hsent⟩ - hs
  cases a with
  | serve a =>
    obtain ⟨serving, hserving, rfl⟩ := Option.map_eq_some_iff.mp hs
    obtain ⟨hserver, -⟩ := ServerStore.exists_step hserving
    refine ⟨ServerStore.validated_tasks_step htasks hserver, fun x hx => ?_⟩
    rcases List.mem_append.mp hx with hx | hx
    · cases a with
      | log task io => exact hhanded htasks x hx
      | _ => cases hx
    · exact hsent x hx
  | restart crash io =>
    cases hs
    refine ⟨fun u hu => absurd hu List.not_mem_nil, fun x hx => ?_⟩
    rcases List.mem_append.mp hx with hx | hx
    · obtain ⟨committed, log⟩ := crash
      cases log with
      | append task k => exact hhanded htasks x hx
      | _ => cases hx
    · exact hsent x hx

end Runs

end Restarts

end Skaldberg
