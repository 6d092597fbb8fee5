import Skaldberg.Ingest.Encoding
import Skaldberg.Lib.Runs
import Skaldberg.State

/-!
# Samples without a series

A sample can only be queried through the row of its series. The buffer takes a series for
registered from the moment its snapshot is *taken*, not from the moment the snapshot is
committed, so when either commit of the flush fails, nobody will register the series again: a
failed series commit strands the samples just committed, a failed samples commit the samples
of that series to come.

`Queryable.queryable_of_registered` and `Queryable.not_queryable_of_orphan` give the exact
condition on a flush; `Queryable.series_commit_fails` is the shortest run that violates it.
-/

namespace Skaldberg

namespace Queryable

variable {V : Type}

/-- The calls of one process. -/
inductive Action (V : Type) where
  /-- A batch is appended. -/
  | append (samples : List (ValidatedSample V))
  /-- A flush, with the given commits landing. -/
  | flush (io : FlushIo)

variable (codec : Extern V)

/-- Where a call leads. -/
def step (s : IngestState V) : Action V → Option (IngestState V)
  | .append samples => some (s.appendValidated codec .ok samples).2
  | .flush io => some (s.flushOnce io).2

/-- Every committed sample has a row in the `series` table, or an entry among the series the
next flush will register. -/
def AllQueryable (s : IngestState V) : Prop :=
  ∀ r ∈ s.tables.samples, r.seriesId ∈ s.tables.seriesIds ∨ r.seriesId ∈ s.buffer.newSeries.keys

/-- When the samples commit of a flush lands, the series of every buffered sample has a row
already, or is new and the series commit lands too. -/
def Registers (s : IngestState V) : Action V → Prop
  | .flush io => io.samplesCommit = true → ∀ r ∈ s.buffer.rows,
      r.seriesId ∈ s.tables.seriesIds ∨
        r.seriesId ∈ s.buffer.newSeries.keys ∧ io.seriesCommit = true
  | .append _ => True

instance (s : IngestState V) : ∀ a, Decidable (Registers s a)
  | .flush io => inferInstanceAs (Decidable (io.samplesCommit = true → ∀ r ∈ s.buffer.rows,
      r.seriesId ∈ s.tables.seriesIds ∨
        r.seriesId ∈ s.buffer.newSeries.keys ∧ io.seriesCommit = true))
  | .append _ => instDecidableTrue

/-! ### The invariant -/

/-- Every committed sample has a row in the `series` table. -/
structure Inv (s : IngestState V) : Prop where
  /-- The buffer counts its rows. -/
  counted : s.buffer.Counted
  /-- The committed samples are registered. -/
  registered : ∀ r ∈ s.tables.samples, r.seriesId ∈ s.tables.seriesIds

variable {codec} {s s' : IngestState V}

theorem inv_open {io : ReadIo} {tables : Tables V} {dir : WalDir} {rotationBytes : ℕ}
    (h : ∀ r ∈ tables.samples, r.seriesId ∈ tables.seriesIds) :
    Inv (AppState.openWithRotation codec io tables dir rotationBytes) := by
  refine ⟨?_, h⟩
  rw [AppState.openWithRotation_buffer]
  exact Buffer.Counted.insertRecords (Buffer.counted_withKnownSeries _) _

theorem Inv.append (h : Inv s) {samples : List (ValidatedSample V)}
    (hs : step codec s (.append samples) = some s') : Inv s' := by
  rw [step] at hs
  by_cases hp : (codec.toVec samples).length < u32Size
  · rw [IngestState.appendValidated_ok hp] at hs
    cases hs
    exact ⟨h.counted.insertBatch _ _, h.registered⟩
  · rw [IngestState.appendValidated_tooLarge hp] at hs
    cases hs
    exact h

/-- What a flush leaves in the tables and among the new series, once the samples commit has
landed. -/
theorem flush_landed {io : FlushIo} (hne : s.buffer.isEmpty = false)
    (hio : io.samplesCommit = true) :
    (s.flushOnce io).2.tables.samples = s.tables.samples ++ s.buffer.take.1.samplesRows ∧
      (∀ id, id ∈ (s.flushOnce io).2.tables.seriesIds ↔
        id ∈ s.tables.seriesIds ∨ id ∈ s.buffer.newSeries.keys ∧ io.seriesCommit = true) ∧
      (s.flushOnce io).2.buffer = s.buffer.take.2 := by
  rcases s.flushOnce_cases io with ⟨-, he⟩ | ⟨-, ⟨-, hf⟩ | ⟨hf, hseries, -⟩ | ⟨hf, -, hseries⟩⟩
  · rw [he] at hne
    cases hne
  · rw [hf] at hio
    cases hio
  · rw [hf]
    refine ⟨rfl, fun id => ?_, rfl⟩
    simp [Tables.seriesIds, hseries]
  · rw [hf]
    refine ⟨by rw [IngestState.truncateWal_tables]; rfl, fun id => ?_,
      by rw [IngestState.truncateWal_buffer]; rfl⟩
    rw [IngestState.truncateWal_tables]
    simp only [IngestState.flushed, Tables.seriesIds, List.map_append,
      map_seriesId_buildSeriesBatch, List.mem_append]
    refine or_congr_right ⟨fun hid => ⟨hid, ?_⟩, And.left⟩
    rcases hseries with hc | hempty
    · exact hc
    · rw [SortedMap.isEmpty, List.isEmpty_iff] at hempty
      have hid : id ∈ s.buffer.newSeries.keys := hid
      rw [SortedMap.keys, hempty] at hid
      cases hid

/-- **A flush keeps every committed sample registered exactly when it registers what it
commits.** -/
theorem registered_flush_iff (h : Inv s) {io : FlushIo} (hne : s.buffer.isEmpty = false)
    (hio : io.samplesCommit = true) :
    (∀ r ∈ (s.flushOnce io).2.tables.samples,
        r.seriesId ∈ (s.flushOnce io).2.tables.seriesIds) ↔ Registers s (.flush io) := by
  obtain ⟨hsamples, hseries, -⟩ := flush_landed hne hio
  rw [hsamples]
  simp only [List.mem_append, Snapshot.mem_samplesRows, hseries, Registers, hio, true_implies]
  constructor
  · exact fun hall r hr => hall r (Or.inr hr)
  · rintro hrows r (hr | hr)
    · exact Or.inl (h.registered r hr)
    · exact hrows r hr

theorem Inv.flush (h : Inv s) {io : FlushIo} (hok : Registers s (.flush io))
    (hs : step codec s (.flush io) = some s') : Inv s' := by
  rw [step] at hs
  cases hs
  rcases hne : s.buffer.isEmpty with _ | _
  · rcases hio : io.samplesCommit with _ | _
    · have hday := h.counted.byDay_isEmpty hne
      rcases s.flushOnce_cases io with
        ⟨-, he⟩ | ⟨-, ⟨hf, -⟩ | ⟨-, -, -, hlanded⟩ | ⟨-, hlanded, -⟩⟩
      · rw [he] at hne
        cases hne
      · -- nothing is committed, and the buffer is gone
        rw [hf]
        exact ⟨s.buffer.counted_take, h.registered⟩
      · simp [hio, hday] at hlanded
      · simp [hio, hday] at hlanded
    · refine ⟨?_, (registered_flush_iff h hne hio).mpr hok⟩
      rw [(flush_landed hne hio).2.2]
      exact s.buffer.counted_take
  · rw [IngestState.flushOnce_of_isEmpty hne]
    exact h

theorem Inv.step {a : Action V} (h : Inv s) (hok : Registers s a)
    (hs : Queryable.step codec s a = some s') : Inv s' := by
  cases a with
  | append samples => exact h.append hs
  | flush io => exact h.flush hok hs

theorem Inv.allQueryable (h : Inv s) : AllQueryable s := fun r hr => Or.inl (h.registered r hr)

/-! ### What stays queryable, and what does not -/

/-- **Every committed sample stays queryable** in every run of appends and flushes, any of
whose commits may fail, in which a samples commit only lands for samples whose series has a row
already or gets it from the same flush. -/
theorem queryable_of_registered {io : ReadIo} {tables : Tables V} {dir : WalDir}
    {rotationBytes : ℕ} (htables : ∀ r ∈ tables.samples, r.seriesId ∈ tables.seriesIds)
    (hrun : Runs (Runs.ofFn (step codec)) Registers
      (AppState.openWithRotation codec io tables dir rotationBytes) s) : AllQueryable s :=
  (hrun.invariant (inv_open htables) fun h hok hs => h.step hok hs).allQueryable

/-- **Any other flush strands a sample**: after a run that met the condition, a flush that does
not leaves a committed sample that no query finds and no flush will register. -/
theorem not_queryable_of_orphan {ioRead : ReadIo} {tables : Tables V} {dir : WalDir}
    {rotationBytes : ℕ} (htables : ∀ r ∈ tables.samples, r.seriesId ∈ tables.seriesIds)
    (hrun : Runs (Runs.ofFn (step codec)) Registers
      (AppState.openWithRotation codec ioRead tables dir rotationBytes) s)
    {io : FlushIo} (hbad : ¬Registers s (.flush io))
    (hs : step codec s (.flush io) = some s') : ¬AllQueryable s' := by
  have hinv : Inv s := hrun.invariant (inv_open htables) fun h hok hs => h.step hok hs
  have hio : io.samplesCommit = true := by
    by_contra hc
    exact hbad fun h => absurd h hc
  have hne : s.buffer.isEmpty = false := by
    by_contra he
    refine hbad fun _ r hr => ?_
    rw [hinv.counted.rows_eq_nil (by simpa using he)] at hr
    cases hr
  rw [step] at hs
  cases hs
  intro hall
  refine hbad ((registered_flush_iff hinv hne hio).mp fun r hr => ?_)
  rcases hall r hr with h | h
  · exact h
  · rw [(flush_landed hne hio).2.2] at h
    cases h

section Instances

open Encoding (sample)

/-- A new server on an empty log and an empty catalog. -/
def fresh : IngestState ℤ :=
  AppState.openWithRotation (.serving []) .ok .empty .empty defaultRotationBytes

set_option maxRecDepth 100000 in
/-- A flush of no new series whose series commit would fail, and a failed samples commit whose
series does not come back. -/
theorem queryable_of_registered_failures :
    ∃ s, Runs (Runs.ofFn (step (.serving []))) Registers fresh s ∧
      s.tables.samples.length = 3 ∧ AllQueryable s := by
  obtain ⟨s, hrun, hp⟩ := Runs.exists_of_foldlM (f := step (.serving [])) (C := Registers)
    (s := fresh) (p := fun s => s.tables.samples.length == 3)
    [.append [sample 1], .flush .ok, .append [sample 1], .flush ⟨true, false⟩,
      .append [sample 2], .flush ⟨false, true⟩, .append [sample 1], .flush .ok]
    (by decide +kernel)
  exact ⟨s, hrun, by simpa using hp, queryable_of_registered (by simp [Tables.empty]) hrun⟩

set_option maxRecDepth 100000 in
/-- **A failed series commit strands the samples just committed.** -/
theorem series_commit_fails :
    ∃ s, Runs (Runs.ofFn (step (.serving []))) (fun _ _ => True) fresh s ∧ ¬AllQueryable s := by
  obtain ⟨s, hrun, hp⟩ := Runs.exists_of_foldlM (f := step (.serving []))
    (C := fun _ _ => True) (s := fresh)
    (p := fun s => decide ((sample 1).row ∈ s.tables.samples) && s.tables.seriesIds.isEmpty &&
      s.buffer.newSeries.keys.isEmpty)
    [.append [sample 1], .flush ⟨true, false⟩]
    (by decide +kernel)
  simp only [Bool.and_eq_true, decide_eq_true_eq, List.isEmpty_iff] at hp
  refine ⟨s, hrun, fun hall => ?_⟩
  rcases hall _ hp.1.1 with h | h
  · rw [hp.1.2] at h
    cases h
  · rw [hp.2] at h
    cases h

end Instances

end Queryable

end Skaldberg
