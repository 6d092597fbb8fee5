import Skaldberg.Ingest.Encoding
import Skaldberg.Lib.Runs
import Skaldberg.State

/-!
# Flushes that fail

A flush swaps the buffer out before it commits anything, so when the samples commit fails
the snapshot is gone and the log is all that is left of it. The next flush that succeeds
truncates the log up to *its* largest sequence number, and with it the files of the snapshot
that failed – unless one of them is still the current file.

`FailedFlush.kept_of_spared` says that this is the only way to lose a sample: nothing is lost in
a run in which every file with a record of a lost snapshot is out of reach of the flushes that
succeed. `FailedFlush.failed_snapshot_lost` is a run of four steps that does.

The state keeps three lists the program does not: the batches accepted, those of them that
are in the buffer, and those whose snapshot was lost.
-/

namespace Skaldberg

namespace FailedFlush

variable {V : Type}

/-- The state of one process. -/
structure State (V : Type) where
  /-- The write path. -/
  ingest : IngestState V
  /-- The batches accepted so far. -/
  accepted : List (Logged V)
  /-- Those accepted since the last `take`. -/
  buffered : List (Logged V)
  /-- Those whose snapshot was dropped by a failed samples commit. -/
  failed : List (Logged V)

/-- The calls of one process. -/
inductive Action (V : Type) where
  /-- Append a batch. -/
  | append (samples : List (ValidatedSample V))
  /-- Flush, with the given commits landing. -/
  | flush (io : FlushIo)

variable (codec : Extern V)

/-- Where a call leads. -/
def step (s : State V) : Action V → Option (State V)
  | .append samples =>
    match s.ingest.appendValidated codec .ok samples with
    | (.error _, ingest) => some { s with ingest := ingest }
    | (.ok recordSeq, ingest) =>
      some { s with
        ingest := ingest
        accepted := (recordSeq, samples) :: s.accepted
        buffered := (recordSeq, samples) :: s.buffered }
  | .flush io =>
    match s.ingest.flushOnce io with
    | (.ok false, ingest) => some { s with ingest := ingest }
    | (.ok true, ingest) => some { s with ingest := ingest, buffered := [] }
    | (.error .samples, ingest) =>
      some { s with ingest := ingest, buffered := [], failed := s.buffered ++ s.failed }
    | (.error .series, ingest) => some { s with ingest := ingest, buffered := [] }

/-- The write path as the server opens it. -/
def start (tables : Tables V) (dir : WalDir) (rotationBytes : ℕ) : State V where
  ingest := AppState.openWithRotation codec .ok tables dir rotationBytes
  accepted := []
  buffered := []
  failed := []

/-- Every accepted sample is in the `samples` table, in the buffer or in the log. -/
def Kept (s : State V) : Prop :=
  ∀ a ∈ s.accepted, ∀ x ∈ a.2,
    x.row ∈ s.ingest.tables.samples ∨ x.row ∈ s.ingest.buffer.rows ∨
      s.ingest.dir.HoldsSample codec x

/-- Every commit that flushing the buffer attempts lands. -/
def lands (io : FlushIo) (b : Buffer V) : Bool :=
  (io.samplesCommit || b.byDay.isEmpty) && (io.seriesCommit || b.newSeries.isEmpty)

/-- At a flush whose commits land, every file with a record of a lost snapshot is the current
file or goes beyond the watermark. -/
def Spared (s : State V) : Action V → Prop
  | .flush io => lands io s.ingest.buffer = true →
      s.ingest.Protects codec s.ingest.buffer.maxRecordSeq (s.failed.map (Logged.record codec))
  | .append _ => True

instance (s : State V) : ∀ a, Decidable (Spared codec s a)
  | .flush io => inferInstanceAs (Decidable (lands io s.ingest.buffer = true →
      s.ingest.Protects codec s.ingest.buffer.maxRecordSeq (s.failed.map (Logged.record codec))))
  | .append _ => instDecidableTrue

/-! ### The invariant -/

/-- Where an accepted batch is: committed, or in the buffer and the log, or dropped by a
failed flush and still in the log. -/
structure Inv (s : State V) : Prop where
  /-- The log's writer is in order. -/
  inOrder : s.ingest.wal.InOrder s.ingest.dir
  /-- Every accepted batch is somewhere. -/
  kept : ∀ a ∈ s.accepted, s.ingest.tables.Committed a ∨
    s.ingest.dir.Logs codec a ∧
      (a ∈ s.failed ∨ a ∈ s.buffered ∧ ∀ x ∈ a.2, x.row ∈ s.ingest.buffer.rows)

variable {codec} {s s' : State V}

theorem inv_start {tables : Tables V} {dir : WalDir}
    (h : ∀ file bs, dir.get? file = some bs → Wal.format.leftover bs = []) (rotationBytes : ℕ) :
    Inv codec (start codec tables dir rotationBytes) where
  inOrder := WalWriter.inOrder_openWithRotation h rotationBytes
  kept := by simp [start]

theorem Inv.append (h : Inv codec s) {samples : List (ValidatedSample V)}
    (hs : step codec s (.append samples) = some s') : Inv codec s' := by
  by_cases hp : (codec.toVec samples).length < u32Size
  · rw [step, IngestState.appendValidated_ok hp] at hs
    cases hs
    obtain ⟨hinOrder, hnew⟩ := h.inOrder.appended codec.crc32 hp
    refine ⟨hinOrder, fun a ha => ?_⟩
    rcases List.mem_cons.mp ha with rfl | ha
    · refine Or.inr ⟨hnew, Or.inr ⟨List.mem_cons_self .., fun x hx => ?_⟩⟩
      exact Buffer.mem_rows_insertBatch.mpr (Or.inl (List.mem_map_of_mem hx))
    · rcases h.kept a ha with hc | ⟨hlog, hw⟩
      · exact Or.inl hc
      · refine Or.inr ⟨hlog.mono (WalWriter.grows_appended _), hw.imp id ?_⟩
        rintro ⟨hb, hr⟩
        exact ⟨List.mem_cons_of_mem _ hb,
          fun x hx => Buffer.mem_rows_insertBatch.mpr (Or.inr (hr x hx))⟩
  · rw [step, IngestState.appendValidated_tooLarge hp] at hs
    cases hs
    exact ⟨h.inOrder, h.kept⟩

/-- **A flush loses nothing but what a spared truncation would**: a failed samples commit
leaves the log alone, and a successful flush has committed whatever was in the buffer. -/
theorem Inv.flush (h : Inv codec s) {io : FlushIo} (hok : Spared codec s (.flush io))
    (hs : step codec s (.flush io) = some s') : Inv codec s' := by
  rw [step] at hs
  rcases s.ingest.flushOnce_cases io with
    ⟨hf, -⟩ | ⟨-, ⟨hf, -⟩ | ⟨hf, -, -⟩ | ⟨hf, hsamples, hseries⟩⟩ <;>
    rw [hf] at hs <;> cases hs
  · -- nothing to flush
    exact ⟨h.inOrder, h.kept⟩
  · -- the samples commit failed: what was in the buffer is now only in the log
    refine ⟨h.inOrder, fun a ha => ?_⟩
    rcases h.kept a ha with hc | ⟨hlog, hfail | ⟨hb, -⟩⟩
    · exact Or.inl hc
    · exact Or.inr ⟨hlog, Or.inl (List.mem_append_right _ hfail)⟩
    · exact Or.inr ⟨hlog, Or.inl (List.mem_append_left _ hb)⟩
  · -- the series commit failed: the samples are committed
    refine ⟨h.inOrder, fun a ha => ?_⟩
    rcases h.kept a ha with hc | ⟨hlog, hfail | ⟨-, hr⟩⟩
    · exact Or.inl (hc.append _ _)
    · exact Or.inr ⟨hlog, Or.inl hfail⟩
    · exact Or.inl fun x hx =>
        List.mem_append_right _ (Snapshot.mem_samplesRows.mpr (hr x hx))
  · -- committed and truncated
    have hlands : lands io s.ingest.buffer = true := by
      simp [lands, hsamples, hseries]
    have hspare : s.ingest.flushed.Protects codec s.ingest.buffer.maxRecordSeq
        (s.failed.map (Logged.record codec)) := hok hlands
    refine ⟨s.ingest.flushed.inOrder_truncateWal h.inOrder _, fun a ha => ?_⟩
    rw [IngestState.truncateWal_tables]
    rcases h.kept a ha with hc | ⟨hlog, hfail | ⟨-, hr⟩⟩
    · exact Or.inl (hc.append _ _)
    · have hlog : s.ingest.flushed.dir.Logs codec a := hlog
      exact Or.inr ⟨hlog.truncateWal hspare hfail, Or.inl hfail⟩
    · exact Or.inl (IngestState.committed_flushed hr)

theorem Inv.step {a : Action V} (h : Inv codec s) (hok : Spared codec s a)
    (hs : FailedFlush.step codec s a = some s') : Inv codec s' := by
  cases a with
  | append samples => exact h.append hs
  | flush io => exact h.flush hok hs

theorem kept_of_inv (h : Inv codec s) : Kept codec s := by
  intro a ha x hx
  rcases h.kept a ha with hc | ⟨hlog, -⟩
  · exact Or.inl (hc x hx)
  · exact Or.inr (Or.inr (hlog.holdsSample hx))

/-! ### What is kept, and what is not -/

/-- **No accepted sample is lost in a spared run**: in every state reached from a log of whole
files by appends and flushes, of which any may fail at either commit, every accepted sample is
committed, in the buffer or in the log, as long as, whenever both commits land, every file with a
record of a snapshot whose samples commit failed is the current one or goes beyond the
watermark. -/
theorem kept_of_spared (tables : Tables V) (dir : WalDir) (rotationBytes : ℕ)
    (hdir : ∀ file bs, dir.get? file = some bs → Wal.format.leftover bs = [])
    (hrun : Runs (Runs.ofFn (step codec)) (Spared codec) (start codec tables dir rotationBytes) s) :
    Kept codec s :=
  kept_of_inv (hrun.invariant (inv_start hdir rotationBytes) fun h hok hs => h.step hok hs)

section Instances

open Encoding (sample)

set_option maxRecDepth 100000 in
/-- A flush fails and a later one succeeds before the file of the first batch is rotated out. -/
theorem kept_of_spared_same_file :
    ∃ s, Runs (Runs.ofFn (step (.serving []))) (Spared (.serving []))
        (start (.serving []) .empty .empty 1024) s ∧
      s.accepted.length = 2 ∧ s.failed.length = 1 ∧ Kept (.serving []) s := by
  obtain ⟨s, hrun, hp⟩ := Runs.exists_of_foldlM (f := step (.serving []))
    (C := Spared (.serving [])) (s := start (.serving []) .empty .empty 1024)
    (p := fun s => s.accepted.length == 2 && s.failed.length == 1)
    [.append [sample 1], .flush ⟨false, true⟩, .append [sample 2], .flush .ok]
    (by decide +kernel)
  simp only [Bool.and_eq_true, beq_iff_eq] at hp
  exact ⟨s, hrun, hp.1, hp.2, kept_of_spared .empty .empty 1024 (by simp) hrun⟩

set_option maxRecDepth 100000 in
/-- **A later flush deletes the only copy of a failed snapshot**: the samples commit of the
first batch fails, the second batch fills the file, and the flush of the second deletes it. -/
theorem failed_snapshot_lost :
    ∃ s, Runs (Runs.ofFn (step (.serving []))) (fun _ _ => True)
        (start (.serving []) .empty .empty 128) s ∧ ¬Kept (.serving []) s := by
  obtain ⟨s, hrun, hp⟩ := Runs.exists_of_foldlM (f := step (.serving []))
    (C := fun _ _ => True) (s := start (.serving []) .empty .empty 128)
    (p := fun s => decide (∃ a ∈ s.accepted, sample 1 ∈ a.2) &&
      decide ((sample 1).row ∉ s.ingest.tables.samples) && s.ingest.buffer.rows.isEmpty &&
      (s.ingest.dir.records Encoding.crc32).isEmpty)
    [.append [sample 1], .flush ⟨false, true⟩, .append [sample 2], .flush .ok]
    (by decide +kernel)
  simp only [Bool.and_eq_true, decide_eq_true_eq, List.isEmpty_iff] at hp
  obtain ⟨⟨⟨⟨a, ha, hx⟩, htable⟩, hbuffer⟩, hlog⟩ := hp
  refine ⟨s, hrun, fun hk => ?_⟩
  rcases hk a ha _ hx with hrow | hrow | ⟨r, hr, -⟩
  · exact htable hrow
  · rw [hbuffer] at hrow
    cases hrow
  · have hlog : s.ingest.dir.records (Extern.serving []).crc32 = [] := hlog
    rw [hlog] at hr
    cases hr

end Instances

end FailedFlush

end Skaldberg
