import Skaldberg.Ingest.Flush
import Skaldberg.Ingest.Wal

/-!
# The write path

`IngestState` is what the request handlers and the flusher share: the tables, the log and
the buffer. A batch is appended in two steps, each under a lock of its own – the log
(`IngestState.appendWal`), then the buffer (`IngestState.insertBatch`) – and a flush in
three – swap the buffer out (`Buffer.take`), write the tables (`flush`), truncate the log
(`IngestState.truncateWal`). `IngestState.appendValidated` and `IngestState.flushOnce` are
these steps run without interruption.
-/

namespace Skaldberg

/-- The functions of other crates the write path calls. -/
structure Extern (V : Type) where
  /-- The checksum. -/
  crc32 : Bytes → UInt32
  /-- The text of a batch, as a log payload. -/
  toVec : List (ValidatedSample V) → Bytes
  /-- The batch a payload spells, if it spells one. -/
  fromSlice : Bytes → Option (List (ValidatedSample V))

/-- The buffer size above which the flusher is woken early. -/
def flushSizeBytes : ℕ := 64 * 1024 * 1024

/-- The buffer size at which writes are turned away. -/
def backpressureBytes : ℕ := 256 * 1024 * 1024

/-- The state shared by the handlers and the flusher, with the directory its log lives in. -/
structure IngestState (V : Type) where
  /-- The tables. -/
  tables : Tables V
  /-- The log's appender. -/
  wal : WalWriter
  /-- The files of the log. -/
  dir : WalDir
  /-- The accumulator. -/
  buffer : Buffer V
  /-- Whether a wake-up of the flusher is pending. -/
  notify : Bool

namespace IngestState

variable {V : Type} (codec : Extern V)

/-- Open the write path on a log directory. -/
def openWithRotation (dir : WalDir) (tables : Tables V) (knownSeries : List ℤ)
    (rotationBytes : ℕ) : IngestState V :=
  let (wal, dir) := WalWriter.openWithRotation dir rotationBytes
  ⟨tables, wal, dir, Buffer.withKnownSeries knownSeries, false⟩

/-- Open the write path as the server does. -/
def «open» (dir : WalDir) (tables : Tables V) (knownSeries : List ℤ) : IngestState V :=
  openWithRotation dir tables knownSeries defaultRotationBytes

/-- The first step of an append: persist the batch in the log. -/
def appendWal (io : AppendIo) (s : IngestState V) (samples : List (ValidatedSample V)) :
    Except WalError ℕ × IngestState V :=
  match s.wal.append codec.crc32 io s.dir (codec.toVec samples) with
  | (res, wal, dir) => (res, { s with wal := wal, dir := dir })

/-- The second step of an append: put the batch in the buffer. -/
def insertBatch (s : IngestState V) (recordSeq : ℕ) (samples : List (ValidatedSample V)) :
    IngestState V :=
  let buffer := s.buffer.insertBatch recordSeq samples
  { s with buffer := buffer, notify := s.notify || decide (buffer.bytesEstimate ≥ flushSizeBytes) }

/-- Append a validated batch; the result is its log sequence number. -/
def appendValidated (io : AppendIo) (s : IngestState V) (samples : List (ValidatedSample V)) :
    Except WalError ℕ × IngestState V :=
  match s.appendWal codec io samples with
  | (.error e, s) => (.error e, s)
  | (.ok recordSeq, s) => (.ok recordSeq, s.insertBatch recordSeq samples)

/-- The message a write is turned away with, if it is. -/
def checkBackpressure (s : IngestState V) : Except String Unit :=
  let n := s.buffer.bytesEstimate
  if n ≥ backpressureBytes then
    .error ("buffer at " ++ toString n ++ " bytes (cap " ++ toString backpressureBytes ++
      "); flusher behind, retry shortly")
  else .ok ()

/-- The last step of a flush: drop the log files it has made redundant. -/
def truncateWal (s : IngestState V) (maxSeq : ℕ) : IngestState V :=
  if maxSeq > 0 then { s with dir := s.wal.truncateThrough s.dir maxSeq } else s

/-- Flush what the buffer holds. The result says whether there was anything to flush. -/
def flushOnce (io : FlushIo) (s : IngestState V) : Except FlushError Bool × IngestState V :=
  if s.buffer.isEmpty then (.ok false, s)
  else
    let (snap, buffer) := s.buffer.take
    match flush io s.tables snap with
    | (.error e, tables) => (.error e, { s with buffer := buffer, tables := tables })
    | (.ok _, tables) =>
      (.ok true, truncateWal { s with buffer := buffer, tables := tables } snap.maxRecordSeq)

/-! ### What the operations do -/

variable {codec} {s : IngestState V} {samples : List (ValidatedSample V)}

/-- The state after a batch is appended, when the file operations succeed. -/
def appended (codec : Extern V) (s : IngestState V) (samples : List (ValidatedSample V)) :
    IngestState V :=
  { s with
    wal := (s.wal.appended codec.crc32 s.dir (codec.toVec samples)).1
    dir := (s.wal.appended codec.crc32 s.dir (codec.toVec samples)).2 }

theorem appendWal_ok (h : (codec.toVec samples).length < u32Size) :
    s.appendWal codec .ok samples = (.ok s.wal.nextRecordSeq, s.appended codec samples) := by
  rw [appendWal, WalWriter.append_ok h]
  rfl

/-- The first step of an append leaves the buffer alone, whether it succeeds or not. -/
theorem appendWal_buffer (io : AppendIo) (s : IngestState V) (samples : List (ValidatedSample V)) :
    (s.appendWal codec io samples).2.buffer = s.buffer := rfl

theorem appendValidated_ok (h : (codec.toVec samples).length < u32Size) :
    s.appendValidated codec .ok samples =
      (.ok s.wal.nextRecordSeq,
        (s.appended codec samples).insertBatch s.wal.nextRecordSeq samples) := by
  rw [appendValidated, appendWal_ok h]

theorem appendValidated_tooLarge {io : AppendIo} (h : ¬(codec.toVec samples).length < u32Size) :
    s.appendValidated codec io samples =
      (.error (.payloadTooLarge (codec.toVec samples).length), s) := by
  rw [appendValidated, appendWal, WalWriter.append_tooLarge h]

/-- The files a truncation of the log removes. -/
def removed (s : IngestState V) (maxSeq : ℕ) : List (ℕ × Bytes) :=
  if maxSeq > 0 then s.wal.removed s.dir maxSeq else []

/-- **What a truncation of the log forgets**: a record survives unless a removed file holds
it. -/
theorem mem_records_truncateWal (maxSeq : ℕ) {r : WalRecord}
    (hr : r ∈ s.dir.records codec.crc32) :
    r ∈ (s.truncateWal maxSeq).dir.records codec.crc32 ∨
      ∃ e ∈ s.removed maxSeq, r ∈ Wal.fileRecords codec.crc32 e.2 := by
  rw [truncateWal, removed]
  split_ifs with h
  · exact WalWriter.mem_records_truncateThrough hr
  · exact Or.inl hr

@[simp] theorem truncateWal_buffer (maxSeq : ℕ) : (s.truncateWal maxSeq).buffer = s.buffer := by
  rw [truncateWal]
  split_ifs <;> rfl

@[simp] theorem truncateWal_tables (maxSeq : ℕ) : (s.truncateWal maxSeq).tables = s.tables := by
  rw [truncateWal]
  split_ifs <;> rfl

@[simp] theorem truncateWal_wal (maxSeq : ℕ) : (s.truncateWal maxSeq).wal = s.wal := by
  rw [truncateWal]
  split_ifs <;> rfl

theorem inOrder_truncateWal (h : s.wal.InOrder s.dir) (maxSeq : ℕ) :
    (s.truncateWal maxSeq).wal.InOrder (s.truncateWal maxSeq).dir := by
  rw [truncateWal]
  split_ifs
  · exact h.truncateThrough maxSeq
  · exact h

/-- The state of a successful flush before it truncates the log. -/
def flushed (s : IngestState V) : IngestState V :=
  { s with
    buffer := s.buffer.take.2
    tables :=
      ⟨s.tables.samples ++ s.buffer.take.1.samplesRows,
        s.tables.series ++ buildSeriesBatch s.buffer.take.1⟩ }

theorem flushOnce_of_isEmpty {io : FlushIo} (h : s.buffer.isEmpty = true) :
    s.flushOnce io = (.ok false, s) := by
  rw [flushOnce, h]
  rfl

/-- **What a flush of the write path can do**: find nothing to flush, fail at the samples,
fail at the series, or succeed and truncate the log. Whatever happens to the tables, a
buffer that was not empty has been swapped out. -/
theorem flushOnce_cases (io : FlushIo) (s : IngestState V) :
    (s.flushOnce io = (.ok false, s) ∧ s.buffer.isEmpty = true) ∨
    s.buffer.isEmpty = false ∧
    ((s.flushOnce io = (.error .samples, { s with buffer := s.buffer.take.2 }) ∧
        io.samplesCommit = false) ∨
      (s.flushOnce io = (.error .series, { s with
          buffer := s.buffer.take.2
          tables := { s.tables with
            samples := s.tables.samples ++ s.buffer.take.1.samplesRows } }) ∧
        io.seriesCommit = false ∧ s.buffer.newSeries.isEmpty = false ∧
        (io.samplesCommit = true ∨ s.buffer.byDay.isEmpty = true)) ∨
      (s.flushOnce io = (.ok true, s.flushed.truncateWal s.buffer.maxRecordSeq) ∧
        (io.samplesCommit = true ∨ s.buffer.byDay.isEmpty = true) ∧
        (io.seriesCommit = true ∨ s.buffer.newSeries.isEmpty = true))) := by
  rcases he : s.buffer.isEmpty with _ | _
  · refine Or.inr ⟨rfl, ?_⟩
    have hstep : s.flushOnce io =
        match flush io s.tables s.buffer.take.1 with
        | (.error e, tables) => (.error e, { s with buffer := s.buffer.take.2, tables := tables })
        | (.ok _, tables) =>
          (.ok true, truncateWal { s with buffer := s.buffer.take.2, tables := tables }
            s.buffer.take.1.maxRecordSeq) := by
      rw [flushOnce, he]
      rfl
    rw [hstep]
    rcases flush_cases io s.tables s.buffer.take.1 with ⟨h, h₁⟩ | ⟨h, h₁⟩ | ⟨h, h₁⟩
    · exact Or.inl ⟨by rw [h], h₁⟩
    · exact Or.inr (Or.inl ⟨by rw [h], h₁⟩)
    · exact Or.inr (Or.inr ⟨by rw [h]; rfl, h₁⟩)
  · exact Or.inl ⟨flushOnce_of_isEmpty he, rfl⟩

end IngestState

/-! ### Where a batch is -/

/-- A batch under the sequence number of its record. -/
abbrev Logged (V : Type) := ℕ × List (ValidatedSample V)

section Whereabouts

variable {V : Type} (codec : Extern V)

/-- Every sample of a batch is in the `samples` table. -/
def Tables.Committed (t : Tables V) (a : Logged V) : Prop := ∀ x ∈ a.2, x.row ∈ t.samples

/-- The record a batch is logged as. -/
def Logged.record (a : Logged V) : WalRecord := ⟨a.1, codec.toVec a.2⟩

/-- The record of a batch is in the log. -/
def WalDir.Logs (dir : WalDir) (a : Logged V) : Prop := a.record codec ∈ dir.records codec.crc32

/-- A sample is in some record of the log. -/
def WalDir.HoldsSample (dir : WalDir) (x : ValidatedSample V) : Prop :=
  ∃ r ∈ dir.records codec.crc32, ∃ b, r.payload = codec.toVec b ∧ x ∈ b

/-- Every log file with one of the given records is the current file, or goes beyond the
watermark. -/
def IngestState.Protects (s : IngestState V) (maxSeq : ℕ) (rs : List WalRecord) : Prop :=
  maxSeq = 0 ∨ ∀ e ∈ s.dir.entries, (∃ r ∈ rs, r ∈ Wal.fileRecords codec.crc32 e.2) →
    e.1 = s.wal.fileSeq ∨ maxSeq < Wal.scanMaxRecordSeq e.2

instance (s : IngestState V) (maxSeq : ℕ) (rs : List WalRecord) :
    Decidable (s.Protects codec maxSeq rs) :=
  inferInstanceAs (Decidable (maxSeq = 0 ∨ ∀ e ∈ s.dir.entries,
    (∃ r ∈ rs, r ∈ Wal.fileRecords codec.crc32 e.2) →
      e.1 = s.wal.fileSeq ∨ maxSeq < Wal.scanMaxRecordSeq e.2))

variable {codec} {a : Logged V} {dir dir' : WalDir}

theorem WalDir.Logs.mono (h : dir.Logs codec a) (hg : dir.Grows dir') : dir'.Logs codec a :=
  WalDir.records_mono hg h

theorem WalDir.Logs.holdsSample (h : dir.Logs codec a) {x : ValidatedSample V} (hx : x ∈ a.2) :
    dir.HoldsSample codec x := ⟨_, h, a.2, rfl, hx⟩

/-- **A truncation keeps the records it is protected from.** -/
theorem IngestState.Protects.mem_records {s : IngestState V} {maxSeq : ℕ} {rs : List WalRecord}
    (h : s.Protects codec maxSeq rs) {r : WalRecord} (hr : r ∈ rs)
    (hd : r ∈ s.dir.records codec.crc32) : r ∈ (s.truncateWal maxSeq).dir.records codec.crc32 := by
  rcases mem_records_truncateWal maxSeq hd with hd | ⟨e, he, hre⟩
  · exact hd
  · rw [removed] at he
    split_ifs at he with hpos
    · obtain ⟨hget, hcur, hmax⟩ := WalWriter.mem_removed.mp he
      rcases h with h0 | h
      · omega
      · rcases h e (SortedMap.get?_eq_some_iff.mp hget) ⟨r, hr, hre⟩ with h | h
        · exact absurd h hcur
        · omega
    · cases he

theorem WalDir.Logs.truncateWal {s : IngestState V} {maxSeq : ℕ} {as : List (Logged V)}
    (h : s.dir.Logs codec a) (hs : s.Protects codec maxSeq (as.map (Logged.record codec)))
    (ha : a ∈ as) : (s.truncateWal maxSeq).dir.Logs codec a :=
  hs.mem_records (List.mem_map_of_mem ha) h

theorem Tables.Committed.append {t : Tables V} (h : t.Committed a) (rows : List (SampleRow V))
    (series : List SeriesRow) : Tables.Committed ⟨t.samples ++ rows, series⟩ a :=
  fun x hx => List.mem_append_left _ (h x hx)

/-- A successful flush commits what the buffer held. -/
theorem IngestState.committed_flushed {s : IngestState V}
    (h : ∀ x ∈ a.2, x.row ∈ s.buffer.rows) : s.flushed.tables.Committed a := by
  intro x hx
  exact List.mem_append_right _ (Snapshot.mem_samplesRows.mpr (h x hx))

end Whereabouts

end Skaldberg
