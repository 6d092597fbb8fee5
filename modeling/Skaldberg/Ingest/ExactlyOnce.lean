import Skaldberg.Ingest.Encoding
import Skaldberg.Lib.Runs
import Skaldberg.State

/-!
# Clean restarts

A clean shutdown flushes what is left in the buffer, so nothing the log holds is still needed.
But a truncation never deletes the current file, and the next start replays every record it
finds: the records of the current file – and of any older file that was not deleted with them –
go into the buffer again and are committed a second time.

`ExactlyOnce.once_of_drained` says that restarts are harmless exactly while the log has no
sample left to replay; `ExactlyOnce.twice_of_replay` that any other restart commits a sample
twice as soon as the next flush succeeds.
-/

namespace Skaldberg

namespace ExactlyOnce

variable {V : Type}

/-- The server and the samples accepted so far. -/
structure State (V : Type) where
  /-- The write path. -/
  ingest : IngestState V
  /-- The accepted samples. -/
  accepted : List (ValidatedSample V)

/-- What happens to a server. -/
inductive Action (V : Type) where
  /-- A batch is appended. -/
  | append (samples : List (ValidatedSample V))
  /-- A flush succeeds. -/
  | flush
  /-- The server, flushed, is started again on its log and its catalog. -/
  | restart

variable (codec : Extern V)

/-- Where an action leads, every file operation, commit and read succeeding. -/
def step (s : State V) : Action V → Option (State V)
  | .append samples =>
    match s.ingest.appendValidated codec .ok samples with
    | (.error _, ingest) => some { s with ingest := ingest }
    | (.ok _, ingest) => some { s with ingest := ingest, accepted := samples ++ s.accepted }
  | .flush => some { s with ingest := (s.ingest.flushOnce .ok).2 }
  | .restart =>
    if s.ingest.buffer.isEmpty then
      some { s with
        ingest := AppState.openWithRotation codec .ok s.ingest.tables s.ingest.dir
          s.ingest.wal.rotationBytes }
    else none

/-- A new server on an empty log and an empty catalog. -/
def start (rotationBytes : ℕ) : State V where
  ingest := AppState.openWithRotation codec .ok .empty .empty rotationBytes
  accepted := []

/-- Once the buffer is empty, the `samples` table has each accepted sample once. -/
def Once (s : State V) : Prop :=
  s.ingest.buffer.isEmpty = true →
    s.ingest.tables.samples.Perm (s.accepted.map ValidatedSample.row)

/-- The samples a replay of the log would insert. -/
def replayed (s : State V) : List (ValidatedSample V) :=
  recordSamples codec (Wal.readable codec.crc32 s.ingest.dir)

/-- The server is only started again on a log with no sample to replay. -/
def Drained (s : State V) : Action V → Prop
  | .restart => replayed codec s = []
  | _ => True

instance [DecidableEq V] (s : State V) : ∀ a, Decidable (Drained codec s a)
  | .restart => inferInstanceAs (Decidable (replayed codec s = []))
  | .append _ => instDecidableTrue
  | .flush => instDecidableTrue

/-! ### The invariant -/

/-- The accepted samples are the committed ones and the buffered ones. -/
structure Inv (s : State V) : Prop where
  /-- The buffer counts its rows. -/
  counted : s.ingest.buffer.Counted
  /-- Nothing is missing and nothing is there twice. -/
  balance : (s.ingest.tables.samples ++ s.ingest.buffer.rows).Perm
    (s.accepted.map ValidatedSample.row)

variable {codec} {s s' : State V}

theorem Inv.once (h : Inv s) : Once s := by
  intro he
  have hb := h.balance
  rwa [h.counted.rows_eq_nil he, List.append_nil] at hb

theorem Inv.append (h : Inv s) {samples : List (ValidatedSample V)}
    (hs : step codec s (.append samples) = some s') : Inv s' := by
  by_cases hp : (codec.toVec samples).length < u32Size
  · rw [step, IngestState.appendValidated_ok hp] at hs
    cases hs
    refine ⟨h.counted.insertBatch _ _, ?_⟩
    refine ((s.ingest.buffer.rows_insertBatch _ samples).append_left _).trans ?_
    rw [List.map_append]
    exact (List.perm_append_comm_assoc _ _ _).trans (h.balance.append_left _)
  · rw [step, IngestState.appendValidated_tooLarge hp] at hs
    cases hs
    exact ⟨h.counted, h.balance⟩

/-- A flush moves the rows of the buffer to the table. -/
theorem Inv.flush (h : Inv s) (hs : step codec s .flush = some s') : Inv s' := by
  rw [step] at hs
  cases hs
  rcases s.ingest.flushOnce_cases .ok with ⟨hf, -⟩ | ⟨-, ⟨-, hio⟩ | ⟨-, hio, -⟩ | ⟨hf, -, -⟩⟩
  · rw [hf]
    exact h
  · cases hio
  · cases hio
  · rw [hf]
    refine ⟨?_, ?_⟩
    · rw [IngestState.truncateWal_buffer]
      exact s.ingest.buffer.counted_take
    · simp only [IngestState.truncateWal_buffer, IngestState.truncateWal_tables,
        IngestState.flushed, Buffer.rows_take, List.append_nil]
      exact ((Snapshot.samplesRows_perm _).append_left _).trans h.balance

/-- What a restart of a flushed server puts in its buffer. -/
theorem restart_eq (he : s.ingest.buffer.isEmpty = true) (hs : step codec s .restart = some s') :
    s'.ingest.tables = s.ingest.tables ∧ s'.accepted = s.accepted ∧
      s'.ingest.buffer.Counted ∧
      s'.ingest.buffer.rows.Perm ((replayed codec s).map ValidatedSample.row) := by
  rw [step, if_pos he] at hs
  cases hs
  refine ⟨rfl, rfl, ?_, ?_⟩ <;> rw [AppState.openWithRotation_buffer]
  · exact Buffer.Counted.insertRecords (Buffer.counted_withKnownSeries _) _
  · refine (Buffer.rows_insertRecords _ _).trans ?_
    rw [Buffer.rows_withKnownSeries, List.append_nil]
    exact List.Perm.refl _

theorem Inv.restart (h : Inv s) (hok : Drained codec s .restart)
    (hs : step codec s .restart = some s') : Inv s' := by
  have he : s.ingest.buffer.isEmpty = true := by
    by_contra hc
    rw [step, if_neg hc] at hs
    cases hs
  obtain ⟨htables, haccepted, hcounted, hrows⟩ := restart_eq he hs
  refine ⟨hcounted, ?_⟩
  have hdrained : replayed codec s = [] := hok
  rw [hdrained] at hrows
  rw [htables, haccepted, hrows.eq_nil, List.append_nil]
  exact h.once he

theorem Inv.step {a : Action V} (h : Inv s) (hok : Drained codec s a)
    (hs : ExactlyOnce.step codec s a = some s') : Inv s' := by
  cases a with
  | append samples => exact h.append hs
  | flush => exact h.flush hs
  | restart => exact h.restart hok hs

theorem inv_start (rotationBytes : ℕ) : Inv (start codec rotationBytes) := by
  have hbuffer : (start codec rotationBytes).ingest.buffer = .withKnownSeries [] := by
    rw [start, AppState.openWithRotation_buffer]
    rfl
  refine ⟨?_, ?_⟩
  · rw [hbuffer]
    exact Buffer.counted_withKnownSeries []
  · rw [hbuffer]
    exact List.Perm.refl _

/-! ### Once, and twice -/

/-- **Every accepted sample is committed exactly once**, by the time the buffer is empty, in
every run of appends, flushes and clean restarts whose restarts find no sample in the log. -/
theorem once_of_drained {rotationBytes : ℕ}
    (hrun : Runs (Runs.ofFn (step codec)) (Drained codec) (start codec rotationBytes) s) : Once s :=
  (hrun.invariant (inv_start rotationBytes) fun h hok hs => h.step hok hs).once

/-- **Any other restart commits a sample twice**: what it replays is committed already, and the
next flush commits it again. -/
theorem twice_of_replay {rotationBytes : ℕ} {t : State V}
    (hrun : Runs (Runs.ofFn (step codec)) (Drained codec) (start codec rotationBytes) s)
    (hreplay : replayed codec s ≠ []) (hrestart : step codec s .restart = some s')
    (hflush : step codec s' .flush = some t) : ¬Once t := by
  have hinv : Inv s :=
    hrun.invariant (inv_start rotationBytes) fun h hok hs => h.step hok hs
  have he : s.ingest.buffer.isEmpty = true := by
    by_contra hc
    rw [step, if_neg hc] at hrestart
    cases hrestart
  obtain ⟨htables, haccepted, hcounted, hrows⟩ := restart_eq he hrestart
  have hne : s'.ingest.buffer.rows ≠ [] := by
    intro hnil
    rw [hnil] at hrows
    exact hreplay (List.map_eq_nil_iff.mp hrows.nil_eq.symm)
  rw [step] at hflush
  cases hflush
  intro honce
  rcases s'.ingest.flushOnce_cases .ok with ⟨-, he'⟩ | ⟨-, ⟨-, hio⟩ | ⟨-, hio, -⟩ | ⟨hf, -, -⟩⟩
  · exact hne (hcounted.rows_eq_nil he')
  · cases hio
  · cases hio
  · have hperm := honce (by simp only [hf, IngestState.truncateWal_buffer]; rfl)
    simp only [hf, IngestState.truncateWal_tables, IngestState.flushed, htables,
      haccepted] at hperm
    -- the table holds the accepted samples already, and the replayed ones on top
    have hlen := hperm.length_eq
    rw [← (hinv.once he).length_eq, List.length_append,
      (Snapshot.samplesRows_perm _).length_eq, Buffer.take_rows] at hlen
    exact hne (List.length_eq_zero_iff.mp (by omega))

section Instances

open Encoding (sample)

/-- The batch of one sample. -/
def batch (id : ℤ) : List (ValidatedSample ℤ) := [sample id]

/-- The encodings, reading back the two batches. -/
def serving : Extern ℤ := .serving [batch 1, batch 2]

set_option maxRecDepth 100000 in
/-- Each append fills its file, so the flush that follows leaves an empty log. -/
theorem once_of_drained_rotated :
    ∃ s, Runs (Runs.ofFn (step serving)) (Drained serving) (start serving 64) s ∧
      s.accepted.length = 2 ∧ Once s := by
  obtain ⟨s, hrun, hp⟩ := Runs.exists_of_foldlM (f := step serving) (C := Drained serving)
    (s := start serving 64) (p := fun s => s.accepted.length == 2)
    [.append (batch 1), .flush, .restart, .append (batch 2), .flush, .restart, .flush]
    (by decide +kernel)
  exact ⟨s, hrun, by simpa using hp, once_of_drained hrun⟩

set_option maxRecDepth 100000 in
/-- **A clean restart commits the current file again**: one batch, flushed before the restart
and once more behind it, at the rotation size of the server. -/
theorem clean_restart_commits_twice :
    ∃ s, Runs (Runs.ofFn (step serving)) (fun _ _ => True)
      (start serving defaultRotationBytes) s ∧ ¬Once s := by
  obtain ⟨s, hrun, hp⟩ := Runs.exists_of_foldlM (f := step serving) (C := fun _ _ => True)
    (s := start serving defaultRotationBytes)
    (p := fun s => s.ingest.buffer.isEmpty && s.accepted.length == 1 &&
      s.ingest.tables.samples.length == 2)
    [.append (batch 1), .flush, .restart, .flush]
    (by decide +kernel)
  simp only [Bool.and_eq_true, beq_iff_eq] at hp
  refine ⟨s, hrun, fun honce => ?_⟩
  have hlen := (honce hp.1.1).length_eq
  rw [List.length_map, hp.1.2, hp.2] at hlen
  exact absurd hlen (by decide)

end Instances

end ExactlyOnce

end Skaldberg
