import Skaldberg.Ingest.Encoding
import Skaldberg.Lib.Runs
import Skaldberg.State

/-!
# One row per series

The buffer registers every series it does not know, and what it knows is what the start read
from the catalog, plus what it has met since. A start whose read fails knows nothing, so a
series that has a row gets a second one as soon as one of its samples arrives or is replayed.

`UniqueSeries.nodup_of_known` is the condition under which this does not happen, over runs with
crashes at any point of an append or a flush; `UniqueSeries.nodup_of_reads` is the case of starts
that can read the catalog, and `UniqueSeries.failed_read_registers_twice` a run with one that
cannot.
-/

namespace Skaldberg

namespace UniqueSeries

variable {V : Type}

/-- Where a process dies. -/
inductive Crash (V : Type) where
  /-- Between two calls. -/
  | idle
  /-- Inside an append, `k` bytes of the frame written. -/
  | append (samples : List (ValidatedSample V)) (k : ℕ)
  /-- Inside a flush, the samples committed. -/
  | samplesCommitted
  /-- Inside a flush, both commits landed and some of the log files deleted. -/
  | seriesCommitted (deleted : List ℕ)

/-- What happens to a server. -/
inductive Action (V : Type) where
  /-- A batch is appended. -/
  | append (samples : List (ValidatedSample V))
  /-- A flush, with the given commits landing. -/
  | flush (io : FlushIo)
  /-- A crash, and a start whose read of the catalog goes as given. -/
  | restart (crash : Crash V) (io : ReadIo)

variable (codec : Extern V)

/-- The tables and the log a crash leaves. -/
def crashed (s : IngestState V) : Crash V → Tables V × WalDir
  | .idle => (s.tables, s.dir)
  | .append samples k => (s.tables, (s.appendWal codec ⟨some k, true, true⟩ samples).2.dir)
  | .samplesCommitted =>
    if s.buffer.isEmpty then (s.tables, s.dir)
    else ({ s.tables with samples := s.tables.samples ++ s.buffer.take.1.samplesRows }, s.dir)
  | .seriesCommitted deleted =>
    if s.buffer.isEmpty then (s.tables, s.dir)
    else (s.flushed.tables, s.dir.filter fun file bs =>
      !(deleted.contains file && (s.removed s.buffer.maxRecordSeq).contains (file, bs)))

/-- Where an action leads. -/
def step (s : IngestState V) : Action V → Option (IngestState V)
  | .append samples => some (s.appendValidated codec .ok samples).2
  | .flush io => some (s.flushOnce io).2
  | .restart crash io =>
    let left := crashed codec s crash
    some (AppState.openWithRotation codec io left.1 left.2 s.wal.rotationBytes)

/-- The `series` table has at most one row per series. -/
def OneRow (s : IngestState V) : Prop := s.tables.seriesIds.Nodup

/-- No sample is inserted whose series has a row but is not known: not by an append, and not by
the replay of a start that could not read the catalog. -/
def Known (s : IngestState V) : Action V → Prop
  | .append samples => ∀ x ∈ samples, x.seriesId ∈ s.tables.seriesIds →
      x.seriesId ∈ s.buffer.knownSeries
  | .flush _ => True
  | .restart crash io => io ≠ .ok →
      ∀ x ∈ recordSamples codec (Wal.readable codec.crc32 (crashed codec s crash).2),
        x.seriesId ∉ (crashed codec s crash).1.seriesIds

instance (s : IngestState V) : ∀ a, Decidable (Known codec s a)
  | .append samples => inferInstanceAs (Decidable (∀ x ∈ samples,
      x.seriesId ∈ s.tables.seriesIds → x.seriesId ∈ s.buffer.knownSeries))
  | .flush _ => instDecidableTrue
  | .restart crash io => inferInstanceAs (Decidable (io ≠ .ok →
      ∀ x ∈ recordSamples codec (Wal.readable codec.crc32 (crashed codec s crash).2),
        x.seriesId ∉ (crashed codec s crash).1.seriesIds))

/-! ### The invariant -/

/-- The rows are unique, and no series the next flush will register has one. -/
structure Inv (s : IngestState V) : Prop where
  /-- The rows are unique. -/
  nodup : s.tables.seriesIds.Nodup
  /-- The new series have no row. -/
  fresh : ∀ id ∈ s.buffer.newSeries.keys, id ∉ s.tables.seriesIds

variable {codec} {s s' : IngestState V}

theorem Inv.append (h : Inv s) {samples : List (ValidatedSample V)}
    (hok : Known codec s (.append samples)) (hs : step codec s (.append samples) = some s') :
    Inv s' := by
  rw [step] at hs
  by_cases hp : (codec.toVec samples).length < u32Size
  · rw [IngestState.appendValidated_ok hp] at hs
    cases hs
    refine ⟨h.nodup, fun id hid => ?_⟩
    rcases Buffer.mem_newSeries_insertBatch.mp hid with hid | ⟨hid, hunknown⟩
    · exact h.fresh id hid
    · obtain ⟨x, hx, rfl⟩ := List.mem_map.mp hid
      exact fun hrow => hunknown (hok x hx hrow)
  · rw [IngestState.appendValidated_tooLarge hp] at hs
    cases hs
    exact h

/-- **A series commit adds one row for each new series**, none of which has one. -/
theorem Inv.nodup_flushed (h : Inv s) : s.flushed.tables.seriesIds.Nodup := by
  rw [IngestState.flushed, Tables.seriesIds, List.map_append, map_seriesId_buildSeriesBatch]
  refine List.nodup_append.mpr ⟨h.nodup, s.buffer.newSeries.keys_nodup, ?_⟩
  rintro id hrow id' hnew rfl
  exact h.fresh id hnew hrow

theorem Inv.flush (h : Inv s) {io : FlushIo} (hs : step codec s (.flush io) = some s') :
    Inv s' := by
  rw [step] at hs
  cases hs
  rcases s.flushOnce_cases io with ⟨hf, -⟩ | ⟨-, ⟨hf, -⟩ | ⟨hf, -, -⟩ | ⟨hf, -, -⟩⟩ <;> rw [hf]
  · exact h
  · exact ⟨h.nodup, fun id hid => by cases hid⟩
  · exact ⟨h.nodup, fun id hid => by cases hid⟩
  · refine ⟨?_, fun id hid => ?_⟩
    · rw [IngestState.truncateWal_tables]
      exact h.nodup_flushed
    · rw [IngestState.truncateWal_buffer] at hid
      cases hid

theorem Inv.nodup_crashed (h : Inv s) (crash : Crash V) :
    (crashed codec s crash).1.seriesIds.Nodup := by
  cases crash with
  | idle => exact h.nodup
  | append samples k => exact h.nodup
  | samplesCommitted =>
    rw [crashed]
    split_ifs
    · exact h.nodup
    · exact h.nodup
  | seriesCommitted deleted =>
    rw [crashed]
    split_ifs
    · exact h.nodup
    · exact h.nodup_flushed

/-- The new series of a server that has just started. -/
theorem fresh_openWithRotation {io : ReadIo} {tables : Tables V} {dir : WalDir}
    {rotationBytes : ℕ}
    (h : io ≠ .ok → ∀ x ∈ recordSamples codec (Wal.readable codec.crc32 dir),
      x.seriesId ∉ tables.seriesIds) :
    ∀ id ∈ (AppState.openWithRotation codec io tables dir rotationBytes).buffer.newSeries.keys,
      id ∉ tables.seriesIds := by
  intro id hid
  rw [AppState.openWithRotation_buffer, Buffer.mem_newSeries_insertRecords] at hid
  rcases hid with hid | ⟨hid, hunknown⟩
  · cases hid
  · by_cases hio : io = .ok
    · subst hio
      intro hrow
      refine hunknown (List.mem_toFinset.mpr ?_)
      rwa [AppState.knownSeries_ok]
    · obtain ⟨x, hx, rfl⟩ := List.mem_map.mp hid
      exact h hio x hx

theorem Inv.restart (h : Inv s) {crash : Crash V} {io : ReadIo}
    (hok : Known codec s (.restart crash io)) (hs : step codec s (.restart crash io) = some s') :
    Inv s' := by
  rw [step] at hs
  cases hs
  exact ⟨h.nodup_crashed crash, fresh_openWithRotation hok⟩

theorem Inv.step {a : Action V} (h : Inv s) (hok : Known codec s a)
    (hs : UniqueSeries.step codec s a = some s') : Inv s' := by
  cases a with
  | append samples => exact h.append hok hs
  | flush io => exact h.flush hs
  | restart crash io => exact h.restart hok hs

/-! ### One row, and two -/

/-- **The `series` table holds one row per series** in every run of appends, flushes whose
commits may fail, crashes and starts whose read may fail, from a new server on, as long as no
sample is inserted whose series has a row but is not known. -/
theorem nodup_of_known {rotationBytes : ℕ} {io : ReadIo}
    (hrun : Runs (Runs.ofFn (step codec)) (Known codec)
      (AppState.openWithRotation codec io .empty .empty rotationBytes) s) : OneRow s := by
  have hinit : Inv (AppState.openWithRotation codec io .empty .empty rotationBytes) :=
    ⟨List.nodup_nil, fresh_openWithRotation fun _ x _ hx => by cases hx⟩
  exact (hrun.invariant hinit fun h hok hs => h.step hok hs).nodup

/-- Every start reads the catalog. -/
def Reads : IngestState V → Action V → Prop
  | _, .restart _ io => io = .ok
  | _, _ => True

/-- Every registered series is known. -/
def Covers (s : IngestState V) : Prop := ∀ id ∈ s.tables.seriesIds, id ∈ s.buffer.knownSeries

theorem covers_openWithRotation (tables : Tables V) (dir : WalDir) (rotationBytes : ℕ) :
    Covers (AppState.openWithRotation codec .ok tables dir rotationBytes) := by
  intro id hid
  rw [AppState.openWithRotation_buffer, Buffer.insertRecords_knownSeries]
  exact List.mem_toFinset.mpr hid

/-- A promoted series is known whether or not its row was committed, so flushing keeps what is
known ahead of what is registered. -/
theorem Covers.step (h : Covers s) {a : Action V} (hok : Reads s a)
    (hs : UniqueSeries.step codec s a = some s') : Covers s' := by
  cases a with
  | append samples =>
    rw [UniqueSeries.step] at hs
    by_cases hp : (codec.toVec samples).length < u32Size
    · rw [IngestState.appendValidated_ok hp] at hs
      cases hs
      intro id hid
      simp only [IngestState.insertBatch, IngestState.appended, Buffer.insertBatch_knownSeries]
      exact h id hid
    · rw [IngestState.appendValidated_tooLarge hp] at hs
      cases hs
      exact h
  | flush io =>
    rw [UniqueSeries.step] at hs
    cases hs
    have htake : ∀ id ∈ s.tables.seriesIds, id ∈ s.buffer.take.2.knownSeries :=
      fun id hid => Finset.mem_union_left _ (h id hid)
    rcases s.flushOnce_cases io with ⟨hf, -⟩ | ⟨-, ⟨hf, -⟩ | ⟨hf, -, -⟩ | ⟨hf, -, -⟩⟩ <;> rw [hf]
    · exact h
    · exact htake
    · exact htake
    · intro id hid
      rw [IngestState.truncateWal_tables, IngestState.flushed, Tables.seriesIds,
        List.map_append, map_seriesId_buildSeriesBatch] at hid
      rw [IngestState.truncateWal_buffer]
      rcases List.mem_append.mp hid with hid | hid
      · exact htake id hid
      · exact Finset.mem_union_right _ (List.mem_toFinset.mpr hid)
  | restart crash io =>
    rw [UniqueSeries.step] at hs
    cases hs
    have hio : io = .ok := hok
    rw [hio]
    exact covers_openWithRotation _ _ _

/-- **With readable catalogs there is never a second row**, whatever crashes and commits
fail. -/
theorem nodup_of_reads {rotationBytes : ℕ}
    (hrun : Runs (Runs.ofFn (step codec)) Reads
      (AppState.openWithRotation codec .ok .empty .empty rotationBytes) s) : OneRow s := by
  have hinit : Inv (AppState.openWithRotation codec .ok .empty .empty rotationBytes) :=
    ⟨List.nodup_nil, fresh_openWithRotation fun h => absurd rfl h⟩
  have h : Inv s ∧ Covers s := by
    refine hrun.invariant (P := fun t => Inv t ∧ Covers t)
      ⟨hinit, covers_openWithRotation _ _ _⟩ ?_
    rintro t a t' ⟨hinv, hcov⟩ hok hs
    have hknown : Known codec t a := by
      cases a with
      | append samples => exact fun x _ hrow => hcov _ hrow
      | flush io => trivial
      | restart crash io => exact fun hio => absurd hok hio
    exact ⟨hinv.step hknown hs, hcov.step hok hs⟩
  exact h.1.nodup

section Instances

open Encoding (sample)

/-- The encodings, reading back the batch of one sample. -/
def serving : Extern ℤ := .serving [[sample 1]]

/-- A new server on an empty log and an empty catalog. -/
def fresh : IngestState ℤ := AppState.openWithRotation serving .ok .empty .empty 64

set_option maxRecDepth 100000 in
/-- A start that cannot read the catalog, on a log whose samples are all of series without a
row. -/
theorem nodup_of_known_failed_read :
    ∃ s, Runs (Runs.ofFn (step serving)) (Known serving) fresh s ∧
      s.tables.seriesIds.length = 2 ∧ OneRow s := by
  obtain ⟨s, hrun, hp⟩ := Runs.exists_of_foldlM (f := step serving) (C := Known serving)
    (s := fresh) (p := fun s => s.tables.seriesIds.length == 2)
    [.append [sample 2], .flush .ok, .append [sample 1], .restart .samplesCommitted .failed,
      .flush .ok]
    (by decide +kernel)
  exact ⟨s, hrun, by simpa using hp, nodup_of_known hrun⟩

set_option maxRecDepth 100000 in
/-- **A start that cannot read the catalog registers a series again**: the log still has the
sample, and nothing says its series has a row. -/
theorem failed_read_registers_twice :
    ∃ s, Runs (Runs.ofFn (step serving)) (fun _ _ => True)
        (AppState.openWithRotation serving .ok .empty .empty defaultRotationBytes) s ∧
      ¬OneRow s := by
  obtain ⟨s, hrun, hp⟩ := Runs.exists_of_foldlM (f := step serving) (C := fun _ _ => True)
    (s := AppState.openWithRotation serving .ok .empty .empty defaultRotationBytes)
    (p := fun s => s.tables.seriesIds == [1, 1])
    [.append [sample 1], .flush .ok, .restart .idle .failed, .flush .ok]
    (by decide +kernel)
  refine ⟨s, hrun, fun hone => ?_⟩
  rw [OneRow, beq_iff_eq.mp hp] at hone
  simp at hone

end Instances

end UniqueSeries

end Skaldberg
