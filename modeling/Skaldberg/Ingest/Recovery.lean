import Skaldberg.Ingest.Concurrent
import Skaldberg.Ingest.Conservation

/-!
# Recovery

A server that has not flushed and crashes between two requests starts again with the buffer it
had. The clients may have been overtaking each other between the log and the buffer, so the
replay inserts the batches in another order than they were inserted in before the crash; but
what a buffer holds depends on that order only within a series, and there only for the order of
its points. That is `Recovery.Same`, and `Recovery.same_of_perm` is the reason: two buffers that
hold the same batches in any two orders (`Conservation.Holds`) are the same in this sense, once a
series id stands for one metric and one label map.

The rest is bookkeeping along the run: the log stays intact and has exactly one record for each
batch appended (`Recovery.Inv`).
-/

namespace Skaldberg

namespace Recovery

open Concurrent (State Action step start)
open Conservation (Holds samplesOf maxSeqOf idsOf)

variable {V : Type}

/-- The same contents: the same days, on each the same series, and of each series the same points
in any order; the same new series, and the same counters. -/
structure Same (b b' : Buffer V) : Prop where
  /-- The same days. -/
  days : b.byDay.keys = b'.byDay.keys
  /-- On each day the same series. -/
  series : ∀ day,
    ((b.byDay.get? day).getD .empty).keys = ((b'.byDay.get? day).getD .empty).keys
  /-- Of each series the same points. -/
  points : ∀ day id, (b.byDay.points day id).Perm (b'.byDay.points day id)
  /-- The same new series. -/
  newSeries : b.newSeries = b'.newSeries
  /-- The same ids taken to be registered. -/
  knownSeries : b.knownSeries = b'.knownSeries
  /-- The same number of samples. -/
  sampleCount : b.sampleCount = b'.sampleCount
  /-- The same estimate of their memory. -/
  bytesEstimate : b.bytesEstimate = b'.bytesEstimate
  /-- The same watermark. -/
  maxRecordSeq : b.maxRecordSeq = b'.maxRecordSeq

/-- The samples of a series all have one metric and one label map. -/
def Identified (samples : List (ValidatedSample V)) : Prop :=
  ∀ x ∈ samples, ∀ y ∈ samples, x.seriesId = y.seriesId → x.metric = y.metric ∧ x.labels = y.labels

instance (samples : List (ValidatedSample V)) : Decidable (Identified samples) :=
  inferInstanceAs (Decidable (∀ x ∈ samples, ∀ y ∈ samples, x.seriesId = y.seriesId →
    x.metric = y.metric ∧ x.labels = y.labels))

/-! ### The order of the batches -/

theorem keys_eq_of_mem {α β β' : Type} [LinearOrder α] {m : SortedMap α β} {m' : SortedMap α β'}
    (h : ∀ k, k ∈ m.keys ↔ k ∈ m'.keys) : m.keys = m'.keys := by
  have hp : m.keys.Perm m'.keys :=
    (List.perm_ext_iff_of_nodup m.keys_nodup m'.keys_nodup).mpr h
  exact hp.eq_of_pairwise (fun a b _ _ hab hba => absurd hab (lt_asymm hba)) m.keys_pairwise
    m'.keys_pairwise

/-- The entry of a series does not depend on the order of the samples. -/
theorem firstEntry_eq_of_perm {xs ys : List (ValidatedSample V)} (hp : xs.Perm ys)
    (hident : Identified xs) (id : ℤ) : Buffer.firstEntry xs id = Buffer.firstEntry ys id := by
  rcases hx : xs.find? fun s => s.seriesId = id with _ | x
  · have hy : (ys.find? fun s => s.seriesId = id) = none :=
      List.find?_eq_none.mpr fun y hy => List.find?_eq_none.mp hx y (hp.mem_iff.mpr hy)
    rw [Buffer.firstEntry, Buffer.firstEntry, hx, hy]
  · have hxid : x.seriesId = id := by simpa using List.find?_some hx
    have hsome : (ys.find? fun s => s.seriesId = id).isSome := by
      rw [List.find?_isSome]
      exact ⟨x, hp.mem_iff.mp (List.mem_of_find?_eq_some hx), by simpa using hxid⟩
    obtain ⟨y, hy⟩ := Option.isSome_iff_exists.mp hsome
    have hyid : y.seriesId = id := by simpa using List.find?_some hy
    have hid := hident x (List.mem_of_find?_eq_some hx) y
      (hp.mem_iff.mpr (List.mem_of_find?_eq_some hy)) (hxid.trans hyid.symm)
    rw [Buffer.firstEntry, Buffer.firstEntry, hx, hy, Option.map_some, Option.map_some,
      Buffer.entryOf, Buffer.entryOf, hxid, hyid, hid.1, hid.2]

/-- **The order of the batches does not matter**: two buffers over one seed that hold the same
batches, in any two orders, are the same. -/
theorem same_of_perm {b b' : Buffer V} {e e' : List (Logged V)} (hp : e.Perm e')
    (hident : Identified (samplesOf e)) (hknown : b.knownSeries = b'.knownSeries)
    (hb : Holds b.knownSeries e b.take.1) (hb' : Holds b'.knownSeries e' b'.take.1)
    (hd : b.byDay.Dense) (hd' : b'.byDay.Dense) : Same b b' := by
  have hsamples : (samplesOf e).Perm (samplesOf e') := hp.flatMap_right _
  have hpoints : ∀ day id, (b.byDay.points day id).Perm (b'.byDay.points day id) := by
    intro day id
    have h : b.byDay.points day id = _ := hb.points day id
    have h' : b'.byDay.points day id = _ := hb'.points day id
    rw [h, h']
    exact (hsamples.filter _).map _
  have hnil : ∀ day id, b.byDay.points day id ≠ [] ↔ b'.byDay.points day id ≠ [] := by
    intro day id
    rw [← List.length_pos_iff_ne_nil, (hpoints day id).length_eq, List.length_pos_iff_ne_nil]
  refine ⟨?_, fun day => ?_, hpoints, ?_, hknown, ?_, ?_, ?_⟩
  · refine keys_eq_of_mem fun day => ?_
    rw [hd.mem_keys_iff, hd'.mem_keys_iff]
    exact exists_congr (hnil day)
  · refine keys_eq_of_mem fun id => ?_
    rw [hd.get?_series_iff, hd'.get?_series_iff]
    exact hnil day id
  · refine SortedMap.ext_get? fun id => ?_
    have h : b.newSeries.get? id = _ := hb.newSeries id
    have h' : b'.newSeries.get? id = _ := hb'.newSeries id
    rw [h, h', hknown, firstEntry_eq_of_perm hsamples hident]
  · have h : b.sampleCount = _ := hb.sampleCount
    have h' : b'.sampleCount = _ := hb'.sampleCount
    rw [h, h', hsamples.length_eq]
  · have h : b.bytesEstimate = _ := hb.bytesEstimate
    have h' : b'.bytesEstimate = _ := hb'.bytesEstimate
    rw [h, h', hsamples.length_eq]
  · have h : b.maxRecordSeq = _ := hb.maxRecordSeq
    have h' : b'.maxRecordSeq = _ := hb'.maxRecordSeq
    rw [h, h', maxSeqOf, maxSeqOf]
    exact (hp.map Prod.fst).foldr_eq 0

/-! ### Batches and records -/

/-- Insert batches one after the other. -/
def insertAll (b : Buffer V) (e : List (Logged V)) : Buffer V :=
  e.foldl (fun b a => b.insertBatch a.1 a.2) b

variable (codec : Extern V)

/-- The batches that records spell, those that do not parse left out. -/
def batches (rs : List WalRecord) : List (Logged V) :=
  rs.filterMap fun r => (codec.fromSlice r.payload).map fun samples => (r.recordSeq, samples)

variable {codec}

theorem insertRecords_eq (b : Buffer V) (rs : List WalRecord) :
    b.insertRecords codec rs = insertAll b (batches codec rs) := by
  induction rs generalizing b with
  | nil => rfl
  | cons r rs ih =>
    rw [Buffer.insertRecords, List.foldl_cons, batches, List.filterMap_cons]
    rcases hp : codec.fromSlice r.payload with _ | samples
    · exact ih b
    · exact ih (b.insertBatch r.recordSeq samples)

theorem samplesOf_batches (rs : List WalRecord) :
    samplesOf (batches codec rs) = recordSamples codec rs := by
  induction rs with
  | nil => rfl
  | cons r rs ih =>
    rw [batches, List.filterMap_cons, recordSamples, List.flatMap_cons]
    rcases hp : codec.fromSlice r.payload with _ | samples
    · exact ih
    · exact congrArg (samples ++ ·) ih

/-- A batch that the payload text does not lose is the batch of its record. -/
theorem batches_record {as : List (Logged V)}
    (h : ∀ a ∈ as, codec.fromSlice (codec.toVec a.2) = some a.2) :
    batches codec (as.map (Logged.record codec)) = as := by
  rw [batches, List.filterMap_map]
  refine (List.filterMap_congr fun a ha => ?_).trans (List.filterMap_some ..)
  simp only [Function.comp_apply, Logged.record, h a ha]
  rfl

theorem insertAll_append (b : Buffer V) (e e' : List (Logged V)) :
    insertAll b (e ++ e') = insertAll (insertAll b e) e' := List.foldl_append

theorem knownSeries_insertAll (b : Buffer V) (e : List (Logged V)) :
    (insertAll b e).knownSeries = b.knownSeries := by
  induction e generalizing b with
  | nil => rfl
  | cons a e ih => exact (ih _).trans (b.insertBatch_knownSeries a.1 a.2)

theorem dense_insertAll {b : Buffer V} (h : b.byDay.Dense) (e : List (Logged V)) :
    (insertAll b e).byDay.Dense := by
  induction e generalizing b with
  | nil => exact h
  | cons a e ih => exact ih (Buffer.dense_insertBatch h a.1 a.2)

theorem holds_insertAll (seed : List ℤ) (e : List (Logged V)) :
    Holds (insertAll (.withKnownSeries seed) e).knownSeries e
      (insertAll (.withKnownSeries seed) e).take.1 := by
  induction e using List.reverseRecOn with
  | nil =>
    refine Conservation.holds_empty (.withKnownSeries seed) ?_
    simp [Buffer.take, Buffer.withKnownSeries, SortedMap.keys]
  | append_singleton e a ih =>
    rw [insertAll_append]
    exact ih.insertBatch a

/-- **What is inserted over a seed does not depend on the order of the batches.** -/
theorem same_insertAll (seed : List ℤ) {e e' : List (Logged V)} (hp : e.Perm e')
    (hident : Identified (samplesOf e)) :
    Same (insertAll (.withKnownSeries seed) e) (insertAll (.withKnownSeries seed) e') :=
  same_of_perm hp hident (by rw [knownSeries_insertAll, knownSeries_insertAll])
    (holds_insertAll seed e) (holds_insertAll seed e') (dense_insertAll ByDay.dense_empty e)
    (dense_insertAll ByDay.dense_empty e')

/-! ### The log of a run without a flush -/

/-- A client's step. -/
def ByClient (_ : State V) : Action V → Prop
  | .append _ => True
  | .insert _ => True
  | _ => False

instance (s : State V) : ∀ a, Decidable (ByClient s a)
  | .append _ => instDecidableTrue
  | .insert _ => instDecidableTrue
  | .take => instDecidableFalse
  | .commit => instDecidableFalse
  | .truncate => instDecidableFalse

variable (codec) in
/-- What a run of clients keeps: an intact log with the records it started with and one for each
batch appended; and a buffer filled with what was replayed and what was appended, the batches
in flight left out. -/
structure Inv (tables : Tables V) (dir : WalDir) (s : State V) : Prop where
  /-- The tables are as they were. -/
  catalog : s.ingest.tables = tables
  /-- The log is intact. -/
  intact : Wal.Intact codec.crc32 s.ingest.dir
  /-- The log's writer is in order. -/
  inOrder : s.ingest.wal.InOrder s.ingest.dir
  /-- The log has its first records and those of the batches appended. -/
  records : (s.ingest.dir.records codec.crc32).Perm
    (s.appended.map (Logged.record codec) ++ dir.records codec.crc32)
  /-- The buffer has what was replayed, and the batches appended but for those in flight. -/
  buffer : ∃ done, (done ++ s.inFlight).Perm s.appended ∧
    s.ingest.buffer = insertAll (.withKnownSeries tables.seriesIds)
      (batches codec (dir.records codec.crc32) ++ done)

variable {tables : Tables V} {dir : WalDir} {s s' : State V}

theorem inv_start (hdir : Wal.Intact codec.crc32 dir) (rotationBytes : ℕ) :
    Inv codec tables dir (start codec tables dir rotationBytes) where
  catalog := rfl
  intact := hdir.create _
  inOrder := WalWriter.inOrder_openWithRotation (fun file bs h => (hdir file bs h).1) rotationBytes
  records := WalDir.records_create_perm dir _
  buffer := by
    refine ⟨[], List.Perm.refl _, ?_⟩
    rw [List.append_nil, ← insertRecords_eq, ← hdir.readable_eq]
    exact AppState.openWithRotation_buffer .ok tables dir rotationBytes

/-- An append adds a record and puts its batch in flight. -/
theorem Inv.append (h : Inv codec tables dir s) {samples : List (ValidatedSample V)}
    (hs : step codec s (.append samples) = some s') : Inv codec tables dir s' := by
  by_cases hp : (codec.toVec samples).length < u32Size
  · rw [step, IngestState.appendWal_ok hp] at hs
    cases hs
    refine ⟨h.catalog, h.intact.appended h.inOrder hp, (h.inOrder.appended codec.crc32 hp).1,
      (h.inOrder.records_appended hp).trans (h.records.cons _), ?_⟩
    obtain ⟨done, hdone, hbuf⟩ := h.buffer
    exact ⟨done, List.perm_middle.trans (hdone.cons _), hbuf⟩
  · rw [step, IngestState.appendWal, WalWriter.append_tooLarge hp] at hs
    cases hs
    exact ⟨h.catalog, h.intact, h.inOrder, h.records, h.buffer⟩

/-- An insertion takes one batch out of flight and into the buffer. -/
theorem Inv.insert (h : Inv codec tables dir s) {client : ℕ}
    (hs : step codec s (.insert client) = some s') : Inv codec tables dir s' := by
  rw [step] at hs
  split at hs
  · cases hs
  · rename_i recordSeq samples hclient
    cases hs
    obtain ⟨done, hdone, hbuf⟩ := h.buffer
    refine ⟨h.catalog, h.intact, h.inOrder, h.records,
      done ++ [(recordSeq, samples)], ?_, ?_⟩
    · rw [List.append_assoc, List.singleton_append]
      refine (List.Perm.append_left done ?_).trans hdone
      obtain ⟨hlt, hget⟩ := List.getElem?_eq_some_iff.mp hclient
      rw [← hget]
      exact List.getElem_cons_eraseIdx_perm hlt
    · rw [← List.append_assoc, insertAll_append, ← hbuf]
      rfl

theorem Inv.step {a : Action V} (h : Inv codec tables dir s) (hok : ByClient s a)
    (hs : Concurrent.step codec s a = some s') : Inv codec tables dir s' := by
  cases a with
  | append samples => exact h.append hs
  | insert client => exact h.insert hs
  | take => exact hok.elim
  | commit => exact hok.elim
  | truncate => exact hok.elim

/-! ### What a restart finds -/

/-- **A restart finds the buffer the crash lost**: after any run of clients without a flush on a
server opened on an intact log, once every append has completed, opening the log again fills the
buffer with what it held, as long as the payload text of a batch is read back as that batch and
a series id stands for one metric and one label map. -/
theorem same_of_restart {rotationBytes rotationBytes' : ℕ} (hdir : Wal.Intact codec.crc32 dir)
    (hrun : Runs (Runs.ofFn (Concurrent.step codec)) ByClient
      (start codec tables dir rotationBytes) s)
    (hdone : s.inFlight = [])
    (hcodec : ∀ a ∈ s.appended, codec.fromSlice (codec.toVec a.2) = some a.2)
    (hident : Identified (recordSamples codec (Wal.readable codec.crc32 dir) ++
      samplesOf s.appended)) :
    Same (AppState.openWithRotation codec .ok s.ingest.tables s.ingest.dir rotationBytes').buffer
      s.ingest.buffer := by
  have hinv : Inv codec tables dir s :=
    hrun.invariant (inv_start hdir rotationBytes) fun h hok hs => h.step hok hs
  obtain ⟨done, hperm, hbuf⟩ := hinv.buffer
  rw [hdone, List.append_nil] at hperm
  rw [AppState.openWithRotation_buffer, AppState.knownSeries_ok, hinv.catalog, insertRecords_eq,
    hbuf, hinv.intact.readable_eq]
  rw [hdir.readable_eq, ← samplesOf_batches] at hident
  -- the replay inserts the batches in file order, the clients in theirs
  have hreplayed : (batches codec (s.ingest.dir.records codec.crc32)).Perm
      (batches codec (dir.records codec.crc32) ++ s.appended) := by
    refine (hinv.records.filterMap _).trans ?_
    rw [List.filterMap_append]
    refine List.perm_append_comm.trans (List.Perm.append_left _ ?_)
    exact List.Perm.of_eq (batches_record hcodec)
  refine same_insertAll _ (hreplayed.trans (hperm.symm.append_left _)) ?_
  rw [← Conservation.samplesOf_append] at hident
  have hsamples := hreplayed.flatMap_right Prod.snd
  intro x hx y hy
  exact hident x (hsamples.mem_iff.mp hx) y (hsamples.mem_iff.mp hy)

section Instances

open Encoding (sample)

/-- The encodings, reading back two batches. -/
def serving : Extern ℤ := .serving [[sample 1], [sample 2]]

set_option maxRecDepth 100000 in
/-- Two clients, the second overtaking the first between the log and the buffer, and a log file
rotated out in between. -/
theorem same_of_restart_overtaken :
    ∃ s, Runs (Runs.ofFn (Concurrent.step serving)) ByClient (start serving .empty .empty 128) s ∧
      s.appended.length = 2 ∧
      Same (AppState.openWithRotation serving .ok s.ingest.tables s.ingest.dir 128).buffer
        s.ingest.buffer := by
  obtain ⟨s, hrun, hp⟩ := Runs.exists_of_foldlM (f := Concurrent.step serving)
    (C := ByClient) (s := start serving .empty .empty 128)
    (p := fun s => s.appended.length == 2 && s.inFlight.isEmpty &&
      decide (∀ a ∈ s.appended, serving.fromSlice (serving.toVec a.2) = some a.2) &&
      decide (Identified (recordSamples serving (Wal.readable serving.crc32 .empty) ++
        samplesOf s.appended)))
    [.append [sample 1], .append [sample 2], .insert 0, .insert 0]
    (by decide +kernel)
  simp only [Bool.and_eq_true, beq_iff_eq, List.isEmpty_iff, decide_eq_true_eq] at hp
  obtain ⟨⟨⟨hlen, hdone⟩, hcodec⟩, hident⟩ := hp
  have hempty : Wal.Intact serving.crc32 .empty := by
    intro file bs h
    cases h
  exact ⟨s, hrun, hlen, same_of_restart hempty hrun hdone hcodec hident⟩

end Instances

end Recovery

end Skaldberg
