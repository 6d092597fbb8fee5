import Skaldberg.Ingest.Service
import Skaldberg.Ingest.WalIter

/-!
# Starting up

Opening the application seeds the buffer with the series ids the catalog has registered,
opens the log and replays it into the buffer. Two of its decisions are load-bearing for
everything said about restarts: a catalog that cannot be read counts as an empty one
(`AppState.knownSeries`), and a replay stops at the first error without failing the start
(`replayWal`).

`replayWal_eq` says what a replay does without the iterator: it inserts, in order, the
batches of the records in front of the first error.
-/

namespace Skaldberg

variable {V : Type}

/-- What becomes of the startup read of the registered series. -/
inductive ReadIo where
  /-- The query is refused. -/
  | refused
  /-- The rows cannot be collected. -/
  | failed
  /-- The rows are read. -/
  | ok
  deriving DecidableEq

/-- The series ids of the catalog; a refused query counts as an empty table. -/
def readKnownSeries (io : ReadIo) (t : Tables V) : Except String (List ℤ) :=
  match io with
  | .refused => .ok []
  | .failed => .error "collect series_ids"
  | .ok => .ok t.seriesIds

/-- The ids the buffer is seeded with: a failed read counts as an empty catalog. -/
def AppState.knownSeries (io : ReadIo) (t : Tables V) : List ℤ :=
  match readKnownSeries io t with
  | .ok ids => ids
  | .error _ => []

theorem AppState.knownSeries_ok (t : Tables V) : knownSeries .ok t = t.seriesIds := rfl

/-- The loop of `replayWal`, with the number of records replayed; the first argument bounds
the number of records read. -/
def replayLoop (codec : Extern V) : ℕ → WalIter → Buffer V → ℕ → Buffer V × ℕ
  | 0, _, b, n => (b, n)
  | fuel + 1, it, b, n =>
    match it.next codec.crc32 with
    | (none, _) => (b, n)
    | (some (.error _), _) => (b, n)
    | (some (.ok r), it) =>
      match codec.fromSlice r.payload with
      | some samples => replayLoop codec fuel it (b.insertBatch r.recordSeq samples) (n + 1)
      | none => replayLoop codec fuel it b n

/-- Replay the log into a buffer: in order, skipping what does not parse, up to the first
read error. The result has the number of records replayed. -/
def replayWal (codec : Extern V) (dir : WalDir) (b : Buffer V) : Buffer V × ℕ :=
  replayLoop codec ((WalIter.open dir).bytesLeft + 1) (WalIter.open dir) b 0

/-- Open the application on a catalog and a log directory. -/
def AppState.openWithRotation (codec : Extern V) (io : ReadIo) (tables : Tables V) (dir : WalDir)
    (rotationBytes : ℕ) : IngestState V :=
  let ingest := IngestState.openWithRotation dir tables (knownSeries io tables) rotationBytes
  { ingest with buffer := (replayWal codec ingest.dir ingest.buffer).1 }

/-- Open the application as the server does. -/
def AppState.open (codec : Extern V) (io : ReadIo) (tables : Tables V) (dir : WalDir) :
    IngestState V :=
  openWithRotation codec io tables dir defaultRotationBytes

/-! ### What a replay inserts -/

/-- Insert a list of records, skipping what does not parse. -/
def Buffer.insertRecords (codec : Extern V) (b : Buffer V) (rs : List WalRecord) : Buffer V :=
  rs.foldl (fun b r =>
    match codec.fromSlice r.payload with
    | some samples => b.insertBatch r.recordSeq samples
    | none => b) b

/-- The samples of a list of records, those that do not parse left out. -/
def recordSamples (codec : Extern V) (rs : List WalRecord) : List (ValidatedSample V) :=
  rs.flatMap fun r => (codec.fromSlice r.payload).getD []

variable {codec : Extern V}

theorem replayLoop_eq {fuel : ℕ} {it : WalIter} (h : (it.remaining codec.crc32).length ≤ fuel)
    (b : Buffer V) (n : ℕ) :
    (replayLoop codec fuel it b n).1 =
      b.insertRecords codec (Wal.okPrefix (it.remaining codec.crc32)) := by
  induction fuel generalizing it b n with
  | zero =>
    rw [List.length_eq_zero_iff.mp (Nat.le_zero.mp h)]
    rfl
  | succ fuel ih =>
    obtain ⟨hhead, htail⟩ := WalIter.next_spec codec.crc32 it
    rcases hnext : it.next codec.crc32 with ⟨item, it'⟩
    rw [hnext] at hhead htail
    rcases hrem : it.remaining codec.crc32 with _ | ⟨item', items⟩
    · rw [hrem] at hhead
      simp only [List.head?_nil] at hhead
      subst hhead
      rw [replayLoop, hnext]
      rfl
    · rw [hrem] at hhead htail h
      simp only [List.head?_cons] at hhead
      subst hhead
      have hlen : (it'.remaining codec.crc32).length ≤ fuel := by
        rw [htail]
        simpa using h
      rw [replayLoop, hnext]
      cases item' with
      | error e => rfl
      | ok r =>
        simp only
        rcases hp : codec.fromSlice r.payload with _ | samples
        · simp only
          rw [ih hlen, htail, List.tail_cons, Wal.okPrefix, Buffer.insertRecords,
            Buffer.insertRecords, List.foldl_cons, hp]
        · simp only
          rw [ih hlen, htail, List.tail_cons, Wal.okPrefix, Buffer.insertRecords,
            Buffer.insertRecords, List.foldl_cons, hp]

/-- **What a replay does**: it inserts the records in front of the first error. -/
theorem replayWal_eq (dir : WalDir) (b : Buffer V) :
    (replayWal codec dir b).1 = b.insertRecords codec (Wal.readable codec.crc32 dir) := by
  rw [replayWal, replayLoop_eq, WalIter.remaining_open]
  · rfl
  · exact (WalIter.length_remaining_le _).trans (Nat.le_succ _)

/-- **The buffer of a server that has just started**: the records in front of the first error,
over the ids it was seeded with. -/
theorem AppState.openWithRotation_buffer (io : ReadIo) (tables : Tables V) (dir : WalDir)
    (rotationBytes : ℕ) :
    (openWithRotation codec io tables dir rotationBytes).buffer =
      (Buffer.withKnownSeries (knownSeries io tables)).insertRecords codec
        (Wal.readable codec.crc32 dir) := by
  rw [openWithRotation]
  simp only [replayWal_eq]
  exact congrArg (Buffer.insertRecords codec _) (Wal.readable_openWithRotation dir rotationBytes)

theorem Buffer.insertRecords_knownSeries (b : Buffer V) (rs : List WalRecord) :
    (b.insertRecords codec rs).knownSeries = b.knownSeries := by
  induction rs generalizing b with
  | nil => rfl
  | cons r rs ih =>
    rw [insertRecords, List.foldl_cons]
    refine (ih _).trans ?_
    rcases codec.fromSlice r.payload with _ | samples
    · rfl
    · exact b.insertBatch_knownSeries _ _

/-- **A replay adds the rows of the samples it parses.** -/
theorem Buffer.rows_insertRecords (b : Buffer V) (rs : List WalRecord) :
    (b.insertRecords codec rs).rows.Perm
      ((recordSamples codec rs).map ValidatedSample.row ++ b.rows) := by
  induction rs generalizing b with
  | nil => exact List.Perm.refl _
  | cons r rs ih =>
    rw [insertRecords, List.foldl_cons]
    refine (ih _).trans ?_
    rcases hp : codec.fromSlice r.payload with _ | samples
    · simp [recordSamples, hp]
    · refine ((b.rows_insertBatch _ samples).append_left _).trans ?_
      simp only [recordSamples, List.flatMap_cons, hp, Option.getD_some, List.map_append,
        List.append_assoc]
      exact List.perm_append_comm_assoc _ _ _

theorem Buffer.mem_newSeries_insertRecords {b : Buffer V} {rs : List WalRecord} {id : ℤ} :
    id ∈ (b.insertRecords codec rs).newSeries.keys ↔
      id ∈ b.newSeries.keys ∨
        (id ∈ (recordSamples codec rs).map ValidatedSample.seriesId ∧ id ∉ b.knownSeries) := by
  induction rs generalizing b with
  | nil => simp [insertRecords, recordSamples]
  | cons r rs ih =>
    rw [insertRecords, List.foldl_cons]
    refine (ih (b := _)).trans ?_
    rcases hp : codec.fromSlice r.payload with _ | samples
    · simp [recordSamples, hp]
    · simp only [Buffer.mem_newSeries_insertBatch, Buffer.insertBatch_knownSeries, recordSamples,
        List.flatMap_cons, hp, Option.getD_some, List.map_append, List.mem_append]
      tauto

theorem Buffer.Counted.insertRecords {b : Buffer V} (h : b.Counted) (rs : List WalRecord) :
    (b.insertRecords codec rs).Counted := by
  induction rs generalizing b with
  | nil => exact h
  | cons r rs ih =>
    rw [Buffer.insertRecords, List.foldl_cons]
    refine ih ?_
    rcases codec.fromSlice r.payload with _ | samples
    · exact h
    · exact h.insertBatch _ _

end Skaldberg
