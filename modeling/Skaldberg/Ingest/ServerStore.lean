import Skaldberg.Ingest.Backpressure
import Skaldberg.Lib.StagedStore

/-!
# The server as a store

To its clients the server is a store with a stage (`StagedStore`): the buffer is the stage, a flush
the move, and what stands in the `samples` table is found under the rows of the `series` table. The
requests and the flusher of `Skaldberg.Backpressure` are followed here by the store they implement
(`ServerStore.State`), operation by operation (`ServerStore.meaning`), any append and any commit
failing.

`ServerStore.Refines` says what the two have to do with one another. The buffer, the snapshot of the
flusher and the table hold the rows of the items of each stage; the ids are the keys; and whatever
row a series has or is about to have is that of one of these items. Every step of the server keeps
it (`ServerStore.Refines.step`): of what a step changes, only that counts which `ServerStore.Effect`
tells apart.
-/

namespace Skaldberg

/-- The row that registers the series of a sample. -/
def ValidatedSample.seriesRow {V : Type} (x : ValidatedSample V) : SeriesRow :=
  ⟨x.seriesId, x.metric, x.labels⟩

namespace ServerStore

open Backpressure (Action)
open Concurrent (Flusher)

variable {R V : Type}

/-- The rows the flusher is about to register. -/
def newRows : Flusher V → List SeriesRow
  | .taken snap => buildSeriesBatch snap
  | _ => []

/-- A server, and the store it implements. -/
structure State (R V : Type) where
  /-- The server. -/
  server : Backpressure.State R V
  /-- The store. -/
  store : StagedStore (ValidatedSample V) ℤ

/-- What a step of the server does to the store, if anything. -/
def meaning (s : Backpressure.State R V) :
    Action R → Option (StagedStore.Action (ValidatedSample V))
  | .insert task =>
    match s.tasks[task]? with
    | some ⟨.logged _ samples, _⟩ => some (.accept samples)
    | _ => none
  | .take => some .take
  | .commit io => some (.commit io.samplesCommit io.seriesCommit)
  | _ => none

/-- What a step of the server leaves of the store. -/
def follow (s : State R V) (a : Action R) : StagedStore (ValidatedSample V) ℤ :=
  match meaning s.server a with
  | some act => s.store.next ValidatedSample.seriesId act
  | none => s.store

variable (codec : Extern V) {E : Type} (validate : R → ℤ → Except E (ValidatedSample V)) (c S : ℕ)

/-- Where an action leads. -/
def step (s : State R V) (a : Action R) : Option (State R V) :=
  (Backpressure.step codec validate c S s.server a).map fun server => ⟨server, follow s a⟩

/-- A new server on an empty log and an empty catalog. -/
def start (rotationBytes : ℕ) : State R V where
  server := Backpressure.start (AppState.openWithRotation codec .ok .empty .empty rotationBytes)
  store := .empty ∅

/-! ### What a step changes -/

/-- What a step changes of the buffer, the tables and the flusher. -/
inductive Effect (s s' : Backpressure.State R V) :
    Option (StagedStore.Action (ValidatedSample V)) → Prop
  /-- Nothing that counts. -/
  | none (hbuffer : s'.ingest.buffer = s.ingest.buffer)
      (htables : s'.ingest.tables = s.ingest.tables) (hrows : s'.flusher.rows = s.flusher.rows)
      (hnew : newRows s'.flusher = newRows s.flusher) :
      Effect s s' none
  /-- A batch is inserted. -/
  | insert (recordSeq : ℕ) (samples : List (ValidatedSample V))
      (hbuffer : s'.ingest.buffer = s.ingest.buffer.insertBatch recordSeq samples)
      (htables : s'.ingest.tables = s.ingest.tables) (hflusher : s'.flusher = s.flusher) :
      Effect s s' (some (.accept samples))
  /-- The buffer is swapped out. -/
  | take (hidle : s.flusher = .idle) (hbuffer : s'.ingest.buffer = s.ingest.buffer.take.2)
      (htables : s'.ingest.tables = s.ingest.tables)
      (hflusher : s'.flusher = .taken s.ingest.buffer.take.1) : Effect s s' (some .take)
  /-- A snapshot is committed, as far as that goes. -/
  | commit (io : FlushIo) (snap : Snapshot V) (htaken : s.flusher = .taken snap)
      (hbuffer : s'.ingest.buffer = s.ingest.buffer)
      (htables : s'.ingest.tables = (flush io s.ingest.tables snap).2)
      (hrows : s'.flusher.rows = []) (hnew : newRows s'.flusher = []) :
      Effect s s' (some (.commit io.samplesCommit io.seriesCommit))

variable {codec validate c S} {s s' : Backpressure.State R V} {a : Action R}

/-- **What a step can do**: nothing that counts, or one of the operations of the store. -/
theorem effect_of_step (hs : Backpressure.step codec validate c S s a = some s') :
    Effect s s' (meaning s a) := by
  cases a with
  | letIn raws =>
    rw [Backpressure.step] at hs
    split_ifs at hs
    cases hs
    exact .none rfl rfl rfl rfl
  | check task =>
    rw [Backpressure.step] at hs
    split at hs
    · split at hs <;> cases hs <;> exact .none rfl rfl rfl rfl
    · cases hs
  | reject task =>
    rw [Backpressure.step] at hs
    split at hs <;> cases hs
    exact .none rfl rfl rfl rfl
  | spawn task nowMs =>
    rw [Backpressure.step] at hs
    split at hs
    · dsimp only at hs
      split_ifs at hs <;> cases hs <;> exact .none rfl rfl rfl rfl
    · cases hs
  | log task io =>
    rw [Backpressure.step] at hs
    split at hs
    · rename_i samples live ht
      have hbuffer : (s.ingest.appendWal codec io samples).2.buffer = s.ingest.buffer :=
        IngestState.appendWal_buffer io s.ingest samples
      have htables : (s.ingest.appendWal codec io samples).2.tables = s.ingest.tables := rfl
      split at hs
      · rename_i ingest happend
        rw [happend] at hbuffer htables
        cases hs
        exact .none hbuffer htables rfl rfl
      · rename_i recordSeq ingest happend
        rw [happend] at hbuffer htables
        cases hs
        exact .none hbuffer htables rfl rfl
    · cases hs
  | insert task =>
    rw [Backpressure.step] at hs
    split at hs
    · rename_i recordSeq samples live ht
      cases hs
      rw [meaning, ht]
      exact .insert recordSeq samples rfl rfl rfl
    · cases hs
  | timeout task =>
    rw [Backpressure.step] at hs
    split at hs
    · split_ifs at hs <;> cases hs <;> exact .none rfl rfl rfl rfl
    · cases hs
  | take =>
    rw [Backpressure.step] at hs
    split at hs
    · rename_i hidle
      split_ifs at hs
      cases hs
      exact .take hidle rfl rfl rfl
    · cases hs
  | commit io =>
    rw [Backpressure.step] at hs
    split at hs
    · rename_i snap htaken
      split at hs
      · rename_i hflush
        cases hs
        exact .commit io snap htaken rfl (by rw [hflush]) rfl rfl
      · rename_i hflush
        cases hs
        exact .commit io snap htaken rfl (by rw [hflush]) rfl rfl
    · cases hs
  | truncate =>
    rw [Backpressure.step] at hs
    split at hs
    · rename_i maxSeq hcommitted
      cases hs
      refine .none (IngestState.truncateWal_buffer _) (IngestState.truncateWal_tables _) ?_ ?_
      · rw [hcommitted]
        rfl
      · rw [hcommitted]
        rfl
    · cases hs

/-- A step is an operation that works out, unless it is a commit that does not land. -/
theorem lands_meaning (h : ∀ io, a = .commit io → io = .ok)
    {act : StagedStore.Action (ValidatedSample V)} (hact : meaning s a = some act) : act.Lands := by
  cases a with
  | insert task =>
    rw [meaning] at hact
    split at hact <;> cases hact
    trivial
  | take =>
    cases hact
    trivial
  | commit io =>
    cases hact
    rw [h io rfl]
    exact ⟨rfl, rfl⟩
  | _ => cases hact

/-! ### What a flush and a batch do to the rows -/

/-- **What a commit adds to the tables**, of a snapshot that registers no series without holding a
sample: the samples if their commit lands, and the series if theirs does too. -/
theorem flush_tables (io : FlushIo) (t : Tables V) {snap : Snapshot V}
    (h : snap.byDay.isEmpty = true → snap.newSeries.isEmpty = true) :
    (flush io t snap).2.samples =
        t.samples ++ (if io.samplesCommit then snap.samplesRows else []) ∧
      (flush io t snap).2.series =
        t.series ++
          (if io.samplesCommit && io.seriesCommit then buildSeriesBatch snap else []) := by
  have hrows : snap.byDay.isEmpty = true → snap.samplesRows = [] :=
    Snapshot.samplesRows_of_isEmpty
  have hbatch : snap.newSeries.isEmpty = true → buildSeriesBatch snap = [] :=
    buildSeriesBatch_of_isEmpty
  rcases flush_cases io t snap with ⟨hf, hio⟩ | ⟨hf, hio, -, hlanded⟩ | ⟨hf, hlanded, hseries⟩
  · simp [hf, hio]
  · rcases hlanded with hlanded | hempty
    · simp [hf, hio, hlanded]
    · simp [hf, hio, hrows hempty]
  · rw [hf]
    rcases hlanded with hlanded | hempty
    · rcases hseries with hseries | hnew
      · simp [hlanded, hseries]
      · simp [hlanded, hbatch hnew]
    · simp [hrows hempty, hbatch (h hempty)]

/-- **A batch registers its own series**, each under one of its samples. -/
theorem mem_buildSeriesBatch_insertBatch {b : Buffer V} {recordSeq : ℕ}
    {samples : List (ValidatedSample V)} {r : SeriesRow}
    (hr : r ∈ buildSeriesBatch (b.insertBatch recordSeq samples).take.1) :
    r ∈ buildSeriesBatch b.take.1 ∨ ∃ x ∈ samples, x.seriesRow = r := by
  obtain ⟨⟨id, entry⟩, he, rfl⟩ := List.mem_map.mp hr
  have hget : (b.insertBatch recordSeq samples).newSeries.get? id = some entry :=
    SortedMap.get?_eq_some_iff.mpr he
  have hold : b.newSeries.get? id = some entry →
      (⟨id, entry.metric, entry.labels⟩ : SeriesRow) ∈ buildSeriesBatch b.take.1 := fun h =>
    List.mem_map.mpr ⟨(id, entry), SortedMap.get?_eq_some_iff.mp h, rfl⟩
  rw [Buffer.get?_newSeries_insertBatch] at hget
  split_ifs at hget
  · exact Or.inl (hold hget)
  · rcases Option.or_eq_some_iff.mp hget with hget | ⟨-, hfirst⟩
    · exact Or.inl (hold hget)
    · obtain ⟨x, hx, rfl⟩ := Option.map_eq_some_iff.mp hfirst
      have hid : x.seriesId = id := by simpa using List.find?_some hx
      exact Or.inr ⟨x, List.mem_of_find?_eq_some hx, by rw [← hid]; rfl⟩

/-! ### The store of a server -/

/-- The store that a server implements. -/
structure Refines (s : Backpressure.State R V) (st : StagedStore (ValidatedSample V) ℤ) :
    Prop where
  /-- The buffer counts its rows. -/
  counted : s.ingest.buffer.Counted
  /-- The buffer has the items on the stage. -/
  pending : (s.ingest.buffer.rows : Multiset (SampleRow V)) = st.pending.map ValidatedSample.row
  /-- The flusher has the items that are moved. -/
  moving : (s.flusher.rows : Multiset (SampleRow V)) = st.moving.map ValidatedSample.row
  /-- The table has the items of the store. -/
  stored : (s.ingest.tables.samples : Multiset (SampleRow V)) = st.stored.map ValidatedSample.row
  /-- The ids taken to be registered are the keys that are known. -/
  known : ∀ id, id ∈ s.ingest.buffer.knownSeries ↔ id ∈ st.known
  /-- The new ids are those of the items on the stage that are not known. -/
  new : ∀ id, id ∈ s.ingest.buffer.newSeries.keys ↔
    id ∉ st.known ∧ ∃ x ∈ st.pending, x.seriesId = id
  /-- The ids the flusher is to register are the keys about to be listed. -/
  fresh : ∀ id, id ∈ (newRows s.flusher).map SeriesRow.seriesId ↔ id ∈ st.fresh
  /-- The ids with a row are the keys that are listed. -/
  listed : ∀ id, id ∈ s.ingest.tables.seriesIds ↔ id ∈ st.listed
  /-- A new series is that of an item on the stage. -/
  newRow : ∀ r ∈ buildSeriesBatch s.ingest.buffer.take.1, ∃ x ∈ st.pending, x.seriesRow = r
  /-- A series about to be registered is that of an item that is moved. -/
  freshRow : ∀ r ∈ newRows s.flusher, ∃ x ∈ st.moving, x.seriesRow = r
  /-- A row is that of an item of the store. -/
  listedRow : ∀ r ∈ s.ingest.tables.series, ∃ x ∈ st.stored, x.seriesRow = r
  /-- No series has two rows. -/
  oneRow : s.ingest.tables.seriesIds.Nodup

section Refines

variable {st : StagedStore (ValidatedSample V) ℤ}

theorem Refines.fresh_eq_empty (h : Refines s st) (hnew : newRows s.flusher = []) :
    st.fresh = ∅ := by
  refine Set.eq_empty_iff_forall_notMem.mpr fun id hid => ?_
  have hmem := (h.fresh id).mpr hid
  rw [hnew] at hmem
  cases hmem

theorem Refines.moving_eq_zero (h : Refines s st) (hrows : s.flusher.rows = []) :
    st.moving = 0 := by
  have hmoving := h.moving
  rw [hrows] at hmoving
  exact Multiset.map_eq_zero.mp hmoving.symm

/-- An insertion puts its batch on the stage. -/
theorem Refines.insert (h : Refines s st) {recordSeq : ℕ} {samples : List (ValidatedSample V)}
    (hbuffer : s'.ingest.buffer = s.ingest.buffer.insertBatch recordSeq samples)
    (htables : s'.ingest.tables = s.ingest.tables) (hflusher : s'.flusher = s.flusher) :
    Refines s' (st.next ValidatedSample.seriesId (.accept samples)) where
  counted := hbuffer ▸ h.counted.insertBatch recordSeq samples
  pending := by
    change _ = (st.pending + samples).map _
    have hrows := Multiset.coe_eq_coe.mpr (s.ingest.buffer.rows_insertBatch recordSeq samples)
    rw [hbuffer, hrows, ← Multiset.coe_add, h.pending, Multiset.map_add, add_comm]
    rfl
  moving := hflusher ▸ h.moving
  stored := htables ▸ h.stored
  known id := by
    rw [hbuffer, Buffer.insertBatch_knownSeries]
    exact h.known id
  new id := by
    change _ ↔ id ∉ st.known ∧ ∃ x ∈ st.pending + samples, _
    rw [hbuffer, Buffer.mem_newSeries_insertBatch, h.new, h.known]
    simp only [Multiset.mem_add, Multiset.mem_coe, List.mem_map]
    constructor
    · rintro (⟨hk, x, hx, hid⟩ | ⟨⟨x, hx, hid⟩, hk⟩)
      · exact ⟨hk, x, Or.inl hx, hid⟩
      · exact ⟨hk, x, Or.inr hx, hid⟩
    · rintro ⟨hk, x, hx | hx, hid⟩
      · exact Or.inl ⟨hk, x, hx, hid⟩
      · exact Or.inr ⟨⟨x, hx, hid⟩, hk⟩
  fresh := hflusher ▸ h.fresh
  listed := htables ▸ h.listed
  newRow r hr := by
    rw [hbuffer] at hr
    rcases mem_buildSeriesBatch_insertBatch hr with hr | ⟨x, hx, rfl⟩
    · obtain ⟨x, hx, rfl⟩ := h.newRow r hr
      exact ⟨x, Multiset.mem_add.mpr (Or.inl hx), rfl⟩
    · exact ⟨x, Multiset.mem_add.mpr (Or.inr hx), rfl⟩
  freshRow := hflusher ▸ h.freshRow
  listedRow := htables ▸ h.listedRow
  oneRow := htables ▸ h.oneRow

/-- A swap-out moves what is on the stage, and makes its new series known. -/
theorem Refines.take (h : Refines s st) (hidle : s.flusher = .idle)
    (hbuffer : s'.ingest.buffer = s.ingest.buffer.take.2)
    (htables : s'.ingest.tables = s.ingest.tables)
    (hflusher : s'.flusher = .taken s.ingest.buffer.take.1) :
    Refines s' (st.next ValidatedSample.seriesId .take) := by
  have hmoving : st.moving = 0 := h.moving_eq_zero (by rw [hidle]; rfl)
  have hfresh : st.fresh = ∅ := h.fresh_eq_empty (by rw [hidle]; rfl)
  refine ⟨hbuffer ▸ s.ingest.buffer.counted_take, by rw [hbuffer]; rfl, ?_, htables ▸ h.stored,
    fun id => ?_, fun id => ?_, fun id => ?_, htables ▸ h.listed, fun r hr => ?_, fun r hr => ?_,
    htables ▸ h.listedRow, htables ▸ h.oneRow⟩
  · change _ = (st.moving + st.pending).map _
    rw [hflusher, hmoving, zero_add]
    exact h.pending
  · change _ ↔ id ∈ st.known ∨ ∃ x ∈ st.pending, x.seriesId = id
    rw [hbuffer]
    simp only [Buffer.take, Finset.mem_union, List.mem_toFinset, h.known, h.new]
    by_cases hk : id ∈ st.known
    · simp [hk]
    · simp [hk]
  · rw [hbuffer]
    refine ⟨fun hid => (by cases hid), ?_⟩
    rintro ⟨-, x, hx, -⟩
    exact absurd hx (Multiset.notMem_zero x)
  · change _ ↔ id ∈ st.fresh ∪ _
    rw [hflusher, hfresh, Set.empty_union, newRows, map_seriesId_buildSeriesBatch]
    exact h.new id
  · rw [hbuffer] at hr
    cases hr
  · rw [hflusher] at hr
    obtain ⟨x, hx, rfl⟩ := h.newRow r hr
    exact ⟨x, Multiset.mem_add.mpr (Or.inr hx), rfl⟩

/-- A commit stores what is moved and lists its new series, or not. -/
theorem Refines.commit (h : Refines s st) (hapart : st.Apart) {io : FlushIo} {snap : Snapshot V}
    (htaken : s.flusher = .taken snap) (hbuffer : s'.ingest.buffer = s.ingest.buffer)
    (htables : s'.ingest.tables = (flush io s.ingest.tables snap).2)
    (hrows : s'.flusher.rows = []) (hnew : newRows s'.flusher = []) :
    Refines s' (st.next ValidatedSample.seriesId (.commit io.samplesCommit io.seriesCommit)) := by
  have hmoving : (snap.byDay.rows : Multiset (SampleRow V)) =
      st.moving.map ValidatedSample.row := by
    have hmoving := h.moving
    rwa [htaken] at hmoving
  have hfresh : ∀ id, id ∈ (buildSeriesBatch snap).map SeriesRow.seriesId ↔ id ∈ st.fresh := by
    have hfresh := h.fresh
    rwa [htaken] at hfresh
  have hfreshRow : ∀ r ∈ buildSeriesBatch snap, ∃ x ∈ st.moving, x.seriesRow = r := by
    have hfreshRow := h.freshRow
    rwa [htaken] at hfreshRow
  -- a snapshot without samples has no series to register
  have hempty : snap.byDay.isEmpty = true → snap.newSeries.isEmpty = true := by
    intro hday
    rw [SortedMap.isEmpty, List.isEmpty_iff] at hday ⊢
    refine List.eq_nil_iff_forall_not_mem.mpr fun e he => ?_
    obtain ⟨x, hx, -⟩ := hfreshRow _ (List.mem_map_of_mem he)
    have hrow := Multiset.mem_map_of_mem ValidatedSample.row hx
    rw [← hmoving, ByDay.rows, hday] at hrow
    cases hrow
  obtain ⟨hsamples, hseries⟩ := flush_tables io s.ingest.tables hempty
  rw [← htables] at hsamples hseries
  have hids : s'.ingest.tables.seriesIds = s.ingest.tables.seriesIds ++
      if io.samplesCommit && io.seriesCommit then (buildSeriesBatch snap).map SeriesRow.seriesId
      else [] := by
    rw [Tables.seriesIds, hseries, List.map_append]
    split_ifs <;> rfl
  refine ⟨hbuffer ▸ h.counted, hbuffer ▸ h.pending, by rw [hrows]; rfl, ?_, hbuffer ▸ h.known,
    hbuffer ▸ h.new, fun id => ?_, fun id => ?_, hbuffer ▸ h.newRow, fun r hr => ?_,
    fun r hr => ?_, ?_⟩
  · change _ = (if io.samplesCommit then st.stored + st.moving else st.stored).map _
    rw [hsamples]
    split_ifs
    · rw [← Multiset.coe_add, h.stored, Multiset.map_add, ← hmoving,
        Multiset.coe_eq_coe.mpr snap.samplesRows_perm]
    · rw [List.append_nil, h.stored]
  · rw [hnew]
    exact ⟨fun hid => (by cases hid), fun hid => absurd hid (Set.notMem_empty id)⟩
  · change _ ↔ id ∈ if io.samplesCommit && io.seriesCommit then st.listed ∪ st.fresh else st.listed
    rw [hids, List.mem_append, h.listed]
    split_ifs
    · exact or_congr_right (hfresh id)
    · exact ⟨fun hid => hid.resolve_right List.not_mem_nil, Or.inl⟩
  · rw [hnew] at hr
    cases hr
  · change ∃ x ∈ if io.samplesCommit then st.stored + st.moving else st.stored, _
    rw [hseries] at hr
    rcases List.mem_append.mp hr with hr | hr
    · obtain ⟨x, hx, rfl⟩ := h.listedRow r hr
      refine ⟨x, ?_, rfl⟩
      split_ifs
      · exact Multiset.mem_add.mpr (Or.inl hx)
      · exact hx
    · split_ifs at hr with hio
      · obtain ⟨x, hx, rfl⟩ := hfreshRow r hr
        rw [(Bool.and_eq_true_iff.mp hio).1]
        exact ⟨x, Multiset.mem_add.mpr (Or.inr hx), rfl⟩
      · cases hr
  · rw [hids]
    split_ifs
    · refine List.nodup_append.mpr ⟨h.oneRow, ?_, ?_⟩
      · rw [map_seriesId_buildSeriesBatch]
        exact snap.newSeries.keys_nodup
      · rintro id hid id' hid' rfl
        exact Set.disjoint_left.mp hapart.disjoint ((hfresh id).mp hid') ((h.listed id).mp hid)
    · rw [List.append_nil]
      exact h.oneRow

/-- **Every step of the server is one of its store**, or none at all. -/
theorem Refines.step (h : Refines s st) (hapart : st.Apart)
    (hs : Backpressure.step codec validate c S s a = some s') :
    Refines s' (follow ⟨s, st⟩ a) := by
  have heffect := effect_of_step hs
  rw [follow]
  generalize meaning s a = act at heffect
  cases heffect with
  | none hbuffer htables hrows hnew =>
    exact ⟨hbuffer ▸ h.counted, hbuffer ▸ h.pending, hrows ▸ h.moving, htables ▸ h.stored,
      hbuffer ▸ h.known, hbuffer ▸ h.new, hnew ▸ h.fresh, htables ▸ h.listed, hbuffer ▸ h.newRow,
      hnew ▸ h.freshRow, htables ▸ h.listedRow, htables ▸ h.oneRow⟩
  | insert recordSeq samples hbuffer htables hflusher => exact h.insert hbuffer htables hflusher
  | take hidle hbuffer htables hflusher => exact h.take hidle hbuffer htables hflusher
  | commit io snap htaken hbuffer htables hrows hnew =>
    exact h.commit hapart htaken hbuffer htables hrows hnew

end Refines

/-! ### Runs -/

/-- What a run keeps: the server implements its store. -/
structure Inv (s : State R V) : Prop where
  /-- The server implements the store. -/
  refines : Refines s.server s.store
  /-- No item is made up. -/
  sound : s.store.Sound
  /-- No key is listed twice. -/
  apart : s.store.Apart

variable {t t' : State R V}

theorem inv_start (rotationBytes : ℕ) :
    Inv (start codec rotationBytes : State R V) where
  refines := by
    have hbuffer : (start codec rotationBytes : State R V).server.ingest.buffer =
        .withKnownSeries [] := by
      refine (AppState.openWithRotation_buffer .ok .empty .empty rotationBytes).trans ?_
      rfl
    refine ⟨by rw [hbuffer]; rfl, by rw [hbuffer]; rfl, rfl, rfl, fun id => ?_, fun id => ?_,
      fun id => ?_, fun id => ?_, fun r hr => ?_, fun r hr => ?_, fun r hr => ?_, List.nodup_nil⟩
    · rw [hbuffer]
      exact ⟨fun hid => (by cases hid), fun hid => absurd hid (Set.notMem_empty id)⟩
    · rw [hbuffer]
      refine ⟨fun hid => (by cases hid), ?_⟩
      rintro ⟨-, x, hx, -⟩
      exact absurd hx (Multiset.notMem_zero x)
    · exact ⟨fun hid => (by cases hid), fun hid => absurd hid (Set.notMem_empty id)⟩
    · exact ⟨fun hid => (by cases hid), fun hid => absurd hid (Set.notMem_empty id)⟩
    · rw [hbuffer] at hr
      cases hr
    · cases hr
    · cases hr
  sound := StagedStore.sound_empty ∅
  apart := StagedStore.apart_empty ∅

/-- A step of the server is one of its store. -/
theorem exists_step (hs : step codec validate c S t a = some t') :
    Backpressure.step codec validate c S t.server a = some t'.server ∧ t'.store = follow t a := by
  obtain ⟨server, hserver, rfl⟩ := Option.map_eq_some_iff.mp hs
  exact ⟨hserver, rfl⟩

theorem Inv.step (h : Inv t) (hs : ServerStore.step codec validate c S t a = some t') :
    Inv t' := by
  obtain ⟨hserver, hstore⟩ := exists_step hs
  refine ⟨?_, ?_, ?_⟩
  · rw [hstore]
    exact h.refines.step h.apart hserver
  · rw [hstore, follow]
    split
    · exact h.sound.next _
    · exact h.sound
  · rw [hstore, follow]
    split
    · exact h.apart.next _
    · exact h.apart

/-- **The server implements its store** in every run, whatever is appended, whichever appends and
commits fail and however the steps interleave. -/
theorem inv_run {rotationBytes : ℕ} {ok : State R V → Action R → Prop}
    (hrun : Runs (Runs.ofFn (step codec validate c S)) ok (start codec rotationBytes) t) : Inv t :=
  hrun.invariant (inv_start rotationBytes) fun h _ hs => h.step hs

/-! ### What is accepted -/

/-- The batch a request is appending. -/
def batch : Backpressure.Phase R V → List (ValidatedSample V)
  | .appending samples => samples
  | .logged _ samples => samples
  | _ => []

/-- A sample is what validation makes of some raw sample at some time. -/
def Validated (validate : R → ℤ → Except E (ValidatedSample V)) (x : ValidatedSample V) : Prop :=
  ∃ raw nowMs, validate raw nowMs = .ok x

variable (validate) in
/-- What is appended or accepted has been validated. -/
structure Vetted (t : State R V) : Prop where
  /-- A request appends validated samples. -/
  tasks : ∀ task ∈ t.server.tasks, ∀ x ∈ batch task.phase, Validated validate x
  /-- The accepted items are validated samples. -/
  accepted : ∀ x ∈ t.store.accepted, Validated validate x

theorem validated_of_mem_accepted {raws : List R} {nowMs : ℤ} {x : ValidatedSample V}
    (hx : x ∈ raws.filterMap fun raw => (validate raw nowMs).toOption) : Validated validate x := by
  obtain ⟨raw, -, hraw⟩ := List.mem_filterMap.mp hx
  refine ⟨raw, nowMs, ?_⟩
  rcases hv : validate raw nowMs with e | y
  · rw [hv] at hraw
    cases hraw
  · rw [hv] at hraw
    cases hraw
    rfl

/-- **The batch of a request is validated**, from its first step on. -/
theorem validated_tasks_step
    (h : ∀ task ∈ s.tasks, ∀ x ∈ batch task.phase, Validated validate x)
    (hs : Backpressure.step codec validate c S s a = some s') :
    ∀ task ∈ s'.tasks, ∀ x ∈ batch task.phase, Validated validate x := by
  have herase : ∀ {i}, ∀ task ∈ (s.finish i).tasks, ∀ x ∈ batch task.phase,
      Validated validate x := fun task ht => h task (List.mem_of_mem_eraseIdx ht)
  have hadvance : ∀ {i phase live}, (∀ x ∈ batch phase, Validated validate x) →
      ∀ task ∈ (s.advance i phase live).tasks, ∀ x ∈ batch task.phase,
        Validated validate x := by
    intro i phase live hphase task ht
    rcases List.mem_cons.mp ht with rfl | ht
    · exact hphase
    · exact h task (List.mem_of_mem_eraseIdx ht)
  cases a with
  | letIn raws =>
    rw [Backpressure.step] at hs
    split_ifs at hs
    cases hs
    intro task ht
    rcases List.mem_cons.mp ht with rfl | ht
    · exact fun x hx => absurd hx List.not_mem_nil
    · exact h task ht
  | check i =>
    rw [Backpressure.step] at hs
    split at hs
    · split at hs <;> cases hs
      · exact herase
      · exact hadvance fun x hx => absurd hx List.not_mem_nil
    · cases hs
  | reject i =>
    rw [Backpressure.step] at hs
    split at hs <;> cases hs
    exact herase
  | spawn i nowMs =>
    rw [Backpressure.step] at hs
    split at hs
    · dsimp only at hs
      split_ifs at hs <;> cases hs
      · exact herase
      · exact hadvance fun x hx => validated_of_mem_accepted hx
    · cases hs
  | log i io =>
    rw [Backpressure.step] at hs
    split at hs
    · rename_i samples live ht
      have hsamples : ∀ x ∈ samples, Validated validate x :=
        h _ (List.mem_of_getElem? ht)
      split at hs <;> cases hs
      · exact herase
      · exact hadvance hsamples
    · cases hs
  | insert i =>
    rw [Backpressure.step] at hs
    split at hs <;> cases hs
    exact herase
  | timeout i =>
    rw [Backpressure.step] at hs
    split at hs
    · rename_i phase ht
      split_ifs at hs <;> cases hs
      · exact hadvance (h _ (List.mem_of_getElem? ht))
      · exact herase
    · cases hs
  | take =>
    rw [Backpressure.step] at hs
    split at hs
    · split_ifs at hs
      cases hs
      exact h
    · cases hs
  | commit io =>
    rw [Backpressure.step] at hs
    split at hs
    · split at hs <;> cases hs <;> exact h
    · cases hs
  | truncate =>
    rw [Backpressure.step] at hs
    split at hs <;> cases hs
    exact h

theorem Vetted.step (h : Vetted validate t)
    (hs : ServerStore.step codec validate c S t a = some t') : Vetted validate t' := by
  obtain ⟨hserver, hstore⟩ := exists_step hs
  refine ⟨validated_tasks_step h.tasks hserver, ?_⟩
  rw [hstore, follow]
  split
  · rename_i act hmeaning
    cases a with
    | insert i =>
      rw [meaning] at hmeaning
      split at hmeaning <;> cases hmeaning
      rename_i recordSeq samples live ht
      intro x hx
      rcases Multiset.mem_add.mp hx with hx | hx
      · exact h.accepted x hx
      · exact h.tasks _ (List.mem_of_getElem? ht) x hx
    | take =>
      cases hmeaning
      exact h.accepted
    | commit io =>
      cases hmeaning
      exact h.accepted
    | _ => cases hmeaning
  · exact h.accepted

/-- **What is accepted has been validated**, in every run. -/
theorem vetted_run {rotationBytes : ℕ} {ok : State R V → Action R → Prop}
    (hrun : Runs (Runs.ofFn (step codec validate c S)) ok (start codec rotationBytes) t) :
    Vetted validate t := by
  have hstart : Vetted validate (start codec rotationBytes : State R V) :=
    ⟨fun task ht => absurd ht List.not_mem_nil, fun x hx => absurd hx (Multiset.notMem_zero x)⟩
  exact hrun.invariant hstart fun h _ hs => h.step hs

end ServerStore

end Skaldberg
