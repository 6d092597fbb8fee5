import Skaldberg.Ingest.Encoding
import Skaldberg.Lib.Runs
import Skaldberg.State

/-!
# Clients and flusher, interleaved

Any number of clients append batches while one flusher flushes. The log and the buffer have
a lock each, so a client can be overtaken between its two steps: its record is in the log, its
samples in no buffer, and a flush that starts now takes a snapshot without them. Such a flush
goes on to delete every log file whose records are all at or below the largest sequence number
*of the snapshot* – which the overtaken record may well be.

`Concurrent.durable_of_covered` is the extent of the damage: nothing is lost in a run in which
every file with a record not inserted by the time of the `take` is out of reach of the truncation
(`Concurrent.Covered`). `Concurrent.overtaken_append_lost` is a run of six steps that does
not meet this and loses an acknowledged sample.

The state keeps two lists that the program does not: the records appended so far, and those
of them that were not in the buffer at the last `take` (`State.uncovered`).
-/

namespace Skaldberg

namespace Concurrent

variable {V : Type}

/-- Where the flusher is. -/
inductive Flusher (V : Type) where
  /-- Between two flushes. -/
  | idle
  /-- The snapshot is taken. -/
  | taken (snap : Snapshot V)
  /-- The snapshot is committed. -/
  | committed (maxSeq : ℕ)

/-- The rows the flusher holds, on their way from the buffer to the tables. -/
def Flusher.rows : Flusher V → List (SampleRow V)
  | taken snap => snap.byDay.rows
  | _ => []

/-- The watermark of a committed snapshot whose log is not truncated yet. -/
def Flusher.committed? : Flusher V → Option ℕ
  | committed maxSeq => some maxSeq
  | _ => none

/-- The state of the write path with its clients and its flusher. -/
structure State (V : Type) where
  /-- What the parties share. -/
  ingest : IngestState V
  /-- The batches whose client is between its two steps. -/
  inFlight : List (Logged V)
  /-- The flusher. -/
  flusher : Flusher V
  /-- The batches appended to the log so far. -/
  appended : List (Logged V)
  /-- Those that had not been inserted in the buffer when the last snapshot was taken. -/
  uncovered : List (Logged V)

/-- The steps of the clients and of the flusher. -/
inductive Action (V : Type) where
  /-- A client appends a batch to the log. -/
  | append (samples : List (ValidatedSample V))
  /-- A client between its steps inserts its batch in the buffer. -/
  | insert (client : ℕ)
  /-- The flusher takes a snapshot. -/
  | take
  /-- The flusher commits its snapshot. -/
  | commit
  /-- The flusher truncates the log. -/
  | truncate

variable (codec : Extern V)

/-- Where an action leads, every file operation and every commit succeeding. -/
def step (s : State V) : Action V → Option (State V)
  | .append samples =>
    match s.ingest.appendWal codec .ok samples with
    | (.error _, ingest) => some { s with ingest := ingest }
    | (.ok recordSeq, ingest) =>
      some { s with
        ingest := ingest
        inFlight := (recordSeq, samples) :: s.inFlight
        appended := (recordSeq, samples) :: s.appended
        uncovered := (recordSeq, samples) :: s.uncovered }
  | .insert client =>
    match s.inFlight[client]? with
    | none => none
    | some (recordSeq, samples) =>
      some { s with
        ingest := s.ingest.insertBatch recordSeq samples
        inFlight := s.inFlight.eraseIdx client }
  | .take =>
    match s.flusher with
    | .idle =>
      if s.ingest.buffer.isEmpty then none
      else
        let (snap, buffer) := s.ingest.buffer.take
        some { s with
          ingest := { s.ingest with buffer := buffer }
          flusher := .taken snap
          uncovered := s.inFlight }
    | _ => none
  | .commit =>
    match s.flusher with
    | .taken snap =>
      some { s with
        ingest := { s.ingest with tables := (flush .ok s.ingest.tables snap).2 }
        flusher := .committed snap.maxRecordSeq }
    | _ => none
  | .truncate =>
    match s.flusher with
    | .committed maxSeq =>
      some { s with ingest := s.ingest.truncateWal maxSeq, flusher := .idle }
    | _ => none

/-- The write path as the server opens it, no client and no flush under way. -/
def start (tables : Tables V) (dir : WalDir) (rotationBytes : ℕ) : State V where
  ingest := AppState.openWithRotation codec .ok tables dir rotationBytes
  inFlight := []
  flusher := .idle
  appended := []
  uncovered := []

/-- Every sample of every record whose append has completed is in the `samples` table or in a
record still in the log. -/
def Durable (s : State V) : Prop :=
  ∀ a ∈ s.appended, ∀ x ∈ a.2,
    x.row ∈ s.ingest.tables.samples ∨ s.ingest.dir.HoldsSample codec x

/-- When the log is truncated, every file with a record that had not been inserted in the
buffer at the `take` is the current file or goes beyond the watermark. -/
def Covered (s : State V) : Action V → Prop
  | .truncate => ∀ maxSeq ∈ s.flusher.committed?,
      s.ingest.Protects codec maxSeq (s.uncovered.map (Logged.record codec))
  | _ => True

instance (s : State V) : ∀ a, Decidable (Covered codec s a)
  | .truncate => inferInstanceAs (Decidable (∀ maxSeq ∈ s.flusher.committed?,
      s.ingest.Protects codec maxSeq (s.uncovered.map (Logged.record codec))))
  | .append _ => instDecidableTrue
  | .insert _ => instDecidableTrue
  | .take => instDecidableTrue
  | .commit => instDecidableTrue

/-! ### The invariant -/

/-- The rows that are committed or on their way from the flusher. -/
def State.flushedRows (s : State V) : List (SampleRow V) :=
  s.flusher.rows ++ s.ingest.tables.samples

/-- The invariant of a covered run.

A record may leave the log only for the tables (`logged`); what is not in flight is somewhere
between the buffer and the tables (`placed`); and while a flush is under way, what was in the
buffer at its `take` is already past the buffer (`passed`). -/
structure Inv (s : State V) : Prop where
  /-- The log's writer is in order. -/
  inOrder : s.ingest.wal.InOrder s.ingest.dir
  /-- Every record is in the log or its samples are committed. -/
  logged : ∀ a ∈ s.appended, s.ingest.dir.Logs codec a ∨ s.ingest.tables.Committed a
  /-- A batch that is not in flight is in the buffer, with the flusher or committed. -/
  placed : ∀ a ∈ s.appended, a ∈ s.inFlight ∨
    ∀ x ∈ a.2, x.row ∈ s.ingest.buffer.rows ++ s.flushedRows
  /-- While a flush is under way, a batch its snapshot covers has left the buffer. -/
  passed : s.flusher = .idle ∨
    ∀ a ∈ s.appended, a ∈ s.uncovered ∨ ∀ x ∈ a.2, x.row ∈ s.flushedRows

variable {codec} {s s' : State V}

theorem inv_start {tables : Tables V} {dir : WalDir}
    (h : ∀ file bs, dir.get? file = some bs → Wal.format.leftover bs = []) (rotationBytes : ℕ) :
    Inv codec (start codec tables dir rotationBytes) where
  inOrder := WalWriter.inOrder_openWithRotation h rotationBytes
  logged := by simp [start]
  placed := by simp [start]
  passed := Or.inl rfl

/-- An append keeps what is said of the old batches, and places the new one in flight. -/
theorem Inv.append (h : Inv codec s) {samples : List (ValidatedSample V)}
    (hs : step codec s (.append samples) = some s') : Inv codec s' := by
  by_cases hp : (codec.toVec samples).length < u32Size
  · rw [step, IngestState.appendWal_ok hp] at hs
    cases hs
    obtain ⟨hinOrder, hnew⟩ := h.inOrder.appended codec.crc32 hp
    refine ⟨hinOrder, ?_, ?_, ?_⟩
    · intro a ha
      rcases List.mem_cons.mp ha with rfl | ha
      · exact Or.inl hnew
      · rcases h.logged a ha with hd | hc
        · exact Or.inl (hd.mono (WalWriter.grows_appended _))
        · exact Or.inr hc
    · intro a ha
      rcases List.mem_cons.mp ha with rfl | ha
      · exact Or.inl (List.mem_cons_self ..)
      · rcases h.placed a ha with hf | hr
        · exact Or.inl (List.mem_cons_of_mem _ hf)
        · exact Or.inr hr
    · refine h.passed.imp id fun hpass a ha => ?_
      rcases List.mem_cons.mp ha with rfl | ha
      · exact Or.inl (List.mem_cons_self ..)
      · exact (hpass a ha).imp (List.mem_cons_of_mem _) id
  · rw [step, IngestState.appendWal, WalWriter.append_tooLarge hp] at hs
    cases hs
    exact ⟨h.inOrder, h.logged, h.placed, h.passed⟩

/-- What leaves a list with one of its places is what stood there. -/
theorem eq_or_mem_eraseIdx {α : Type} {l : List α} {i : ℕ} {a b : α} (hi : l[i]? = some b)
    (ha : a ∈ l) : a = b ∨ a ∈ l.eraseIdx i := by
  obtain ⟨j, hj⟩ := List.mem_iff_getElem?.mp ha
  by_cases hji : j = i
  · rw [hji, hi] at hj
    exact Or.inl (Option.some.inj hj).symm
  · exact Or.inr (List.mem_eraseIdx_iff_getElem?.mpr ⟨j, hji, hj⟩)

/-- An insertion moves one batch from its client to the buffer. -/
theorem Inv.insert (h : Inv codec s) {client : ℕ}
    (hs : step codec s (.insert client) = some s') : Inv codec s' := by
  rw [step] at hs
  split at hs
  · cases hs
  · rename_i recordSeq samples hclient
    cases hs
    refine ⟨h.inOrder, h.logged, ?_, h.passed⟩
    intro a ha
    rcases h.placed a ha with hf | hr
    · -- the batch that left the list of clients is the one inserted
      rcases eq_or_mem_eraseIdx hclient hf with rfl | hf
      · refine Or.inr fun x hx => List.mem_append_left _ ?_
        exact Buffer.mem_rows_insertBatch.mpr (Or.inl (List.mem_map_of_mem hx))
      · exact Or.inl hf
    · refine Or.inr fun x hx => ?_
      rcases List.mem_append.mp (hr x hx) with hb | hb
      · exact List.mem_append_left _ (Buffer.mem_rows_insertBatch.mpr (Or.inr hb))
      · exact List.mem_append_right _ hb

/-- A `take` moves the buffer to the flusher, so that exactly the batches in flight are not
covered. -/
theorem Inv.take (h : Inv codec s) (hs : step codec s .take = some s') : Inv codec s' := by
  rw [step] at hs
  split at hs
  · rename_i hidle
    split_ifs at hs
    cases hs
    have hflushed : s.flushedRows = s.ingest.tables.samples := by
      rw [State.flushedRows, hidle]
      rfl
    refine ⟨h.inOrder, h.logged, ?_, Or.inr ?_⟩ <;> intro a ha
    · refine (h.placed a ha).imp id fun hr x hx => ?_
      have := hr x hx
      rwa [hflushed] at this
    · refine (h.placed a ha).imp id fun hr x hx => ?_
      have := hr x hx
      rwa [hflushed] at this
  · cases hs

/-- A commit moves the rows of the snapshot to the tables. -/
theorem Inv.commit (h : Inv codec s) (hs : step codec s .commit = some s') : Inv codec s' := by
  rw [step] at hs
  split at hs
  · rename_i snap htaken
    cases hs
    have hflush : (flush .ok s.ingest.tables snap).2.samples =
        s.ingest.tables.samples ++ snap.samplesRows := by
      rcases flush_cases .ok s.ingest.tables snap with ⟨-, hf⟩ | ⟨-, hf, -⟩ | ⟨hf, -⟩
      · cases hf
      · cases hf
      · rw [hf]
    have hrows : ∀ r, r ∈ s.flushedRows ↔ r ∈ (flush .ok s.ingest.tables snap).2.samples := by
      intro r
      rw [State.flushedRows, htaken, hflush, List.mem_append, List.mem_append,
        Snapshot.mem_samplesRows, or_comm]
      rfl
    refine ⟨h.inOrder, ?_, ?_, Or.inr ?_⟩ <;> intro a ha
    · refine (h.logged a ha).imp id fun hc x hx => ?_
      simp only [hflush]
      exact List.mem_append_left _ (hc x hx)
    · refine (h.placed a ha).imp id fun hr x hx => ?_
      rcases List.mem_append.mp (hr x hx) with hb | hb
      · exact List.mem_append_left _ hb
      · exact List.mem_append_right _ ((hrows _).mp hb)
    · rcases h.passed with hidle | hpass
      · rw [htaken] at hidle
        cases hidle
      · exact (hpass a ha).imp id fun hr x hx => (hrows _).mp (hr x hx)
  · cases hs

/-- **A covered truncation forgets no record that is not committed**: what it deletes was in
the buffer at the `take`, hence in the snapshot or flushed before. -/
theorem Inv.truncate (h : Inv codec s) (hok : Covered codec s .truncate)
    (hs : step codec s .truncate = some s') : Inv codec s' := by
  rw [step] at hs
  split at hs
  · rename_i maxSeq hcommitted
    cases hs
    have hok := hok maxSeq (by rw [hcommitted]; rfl)
    have hflushed : s.flushedRows = s.ingest.tables.samples := by
      rw [State.flushedRows, hcommitted]
      rfl
    refine ⟨s.ingest.inOrder_truncateWal h.inOrder maxSeq, ?_, ?_, Or.inl rfl⟩ <;> intro a ha
    · rw [IngestState.truncateWal_tables]
      rcases h.logged a ha with hd | hc
      · rcases h.passed with hidle | hpass
        · rw [hcommitted] at hidle
          cases hidle
        · rcases hpass a ha with hu | hr
          · exact Or.inl (hd.truncateWal hok hu)
          · rw [hflushed] at hr
            exact Or.inr hr
      · exact Or.inr hc
    · refine (h.placed a ha).imp id fun hr x hx => ?_
      have := hr x hx
      rw [hflushed] at this
      simpa [State.flushedRows, Flusher.rows] using this
  · cases hs

theorem Inv.step {a : Action V} (h : Inv codec s) (hok : Covered codec s a)
    (hs : Concurrent.step codec s a = some s') : Inv codec s' := by
  cases a with
  | append samples => exact h.append hs
  | insert client => exact h.insert hs
  | take => exact h.take hs
  | commit => exact h.commit hs
  | truncate => exact h.truncate hok hs

theorem durable_of_inv (h : Inv codec s) : Durable codec s := by
  intro a ha x hx
  rcases h.logged a ha with hd | hc
  · exact Or.inr (hd.holdsSample hx)
  · exact Or.inl (hc x hx)

/-! ### What is durable, and what is not -/

/-- **No acknowledged sample is lost in a covered run**: every sample whose append has
completed is committed or still in the log, in every state reached from a log of whole
files by steps of any number of clients and the flusher in any order, as long as every file with
a record that was overtaken by the `take` is the current one or goes beyond the watermark. -/
theorem durable_of_covered (tables : Tables V) (dir : WalDir) (rotationBytes : ℕ)
    (hdir : ∀ file bs, dir.get? file = some bs → Wal.format.leftover bs = [])
    (hrun : Runs (Runs.ofFn (step codec)) (Covered codec)
      (start codec tables dir rotationBytes) s) :
    Durable codec s :=
  durable_of_inv (hrun.invariant (inv_start hdir rotationBytes) fun h hok hs => h.step hok hs)

/-! ### A run of each kind -/

section Instances

open Encoding (sample)

/-- The server on an empty log, rotating at 128 bytes. -/
def fresh (codec : Extern ℤ) : State ℤ := start codec .empty .empty 128

set_option maxRecDepth 100000 in
/-- Two batches are flushed while the client of a third one is between its two steps: the file of
the two is deleted, and the record of the third is in the current one. -/
theorem durable_of_covered_overtaken :
    ∃ s, Runs (Runs.ofFn (step (.serving []))) (Covered (.serving [])) (fresh (.serving [])) s ∧
      s.appended.length = 3 ∧ s.uncovered.length = 1 ∧
        (s.ingest.dir.records Encoding.crc32).length = 1 ∧ Durable (.serving []) s := by
  obtain ⟨s, hrun, hp⟩ := Runs.exists_of_foldlM (f := step (.serving []))
    (C := Covered (.serving [])) (s := fresh (.serving []))
    (p := fun s => s.appended.length == 3 && s.uncovered.length == 1 &&
      (s.ingest.dir.records Encoding.crc32).length == 1)
    [.append [sample 1], .insert 0, .append [sample 2], .insert 0, .append [sample 3], .take,
      .commit, .truncate]
    (by decide +kernel)
  simp only [Bool.and_eq_true, beq_iff_eq] at hp
  obtain ⟨⟨happended, huncovered⟩, hrecords⟩ := hp
  exact ⟨s, hrun, happended, huncovered, hrecords,
    durable_of_covered .empty .empty 128 (by simp) hrun⟩

set_option maxRecDepth 100000 in
/-- **A client overtaken between its two steps loses its batch**: the first client's record is
in file 0 and not in the buffer when the second client's append fills the file; the flush of the
second batch deletes file 0. -/
theorem overtaken_append_lost :
    ∃ s, Runs (Runs.ofFn (step (.serving []))) (fun _ _ => True) (fresh (.serving [])) s ∧
      ¬Durable (.serving []) s := by
  obtain ⟨s, hrun, hp⟩ := Runs.exists_of_foldlM (f := step (.serving []))
    (C := fun _ _ => True) (s := fresh (.serving []))
    (p := fun s => decide (∃ a ∈ s.appended, sample 1 ∈ a.2) &&
      decide ((sample 1).row ∉ s.ingest.tables.samples) &&
      (s.ingest.dir.records Encoding.crc32).isEmpty)
    [.append [sample 1], .append [sample 2], .insert 0, .take, .commit, .truncate]
    (by decide +kernel)
  simp only [Bool.and_eq_true, decide_eq_true_eq, List.isEmpty_iff] at hp
  obtain ⟨⟨⟨a, ha, hx⟩, htable⟩, hlog⟩ := hp
  refine ⟨s, hrun, fun hd => ?_⟩
  rcases hd a ha _ hx with hrow | ⟨r, hr, -⟩
  · exact htable hrow
  · have hlog : s.ingest.dir.records (Extern.serving []).crc32 = [] := hlog
    rw [hlog] at hr
    cases hr

end Instances

end Concurrent

end Skaldberg
