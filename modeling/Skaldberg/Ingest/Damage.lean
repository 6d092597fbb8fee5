import Skaldberg.Ingest.Encoding
import Skaldberg.Lib.Runs
import Skaldberg.State

/-!
# Damaged records

A replay stops at the first damaged record and the server starts without the records behind
it. They are still on disk, but nothing remembers that they are needed: the next record gets a
number above theirs, and the first flush with it in its snapshot deletes every file but the
current one.

`Damage.safe_of_protected` says what it takes for the records behind the damage to survive, for
any directory and any damage to it; `Damage.intact_record_deleted` is a directory with one bad
checksum whose intact second record is gone after one append and one flush.
-/

namespace Skaldberg

namespace Damage

variable {V : Type}

/-- The calls made to a started server. -/
inductive Action (V : Type) where
  /-- A batch is appended. -/
  | append (samples : List (ValidatedSample V))
  /-- A flush succeeds. -/
  | flush

variable (codec : Extern V)

/-- Where a call leads. -/
def step (s : IngestState V) : Action V → Option (IngestState V)
  | .append samples => some (s.appendValidated codec .ok samples).2
  | .flush => some (s.flushOnce .ok).2

/-- Every intact record of the directory the server was started on is committed or still on
disk. -/
def Safe (dir : WalDir) (s : IngestState V) : Prop :=
  ∀ r ∈ dir.records codec.crc32, ∀ b, codec.fromSlice r.payload = some b →
    (∀ x ∈ b, x.row ∈ s.tables.samples) ∨ r ∈ s.dir.records codec.crc32

/-- The intact records of a directory that a replay does not reach. -/
def missed (dir : WalDir) : List WalRecord :=
  (dir.records codec.crc32).filter fun r => r ∉ Wal.readable codec.crc32 dir

/-- When a buffer is flushed, every file with an intact record that was not replayed is the
current file or goes beyond the watermark. -/
def Protected (dir : WalDir) (s : IngestState V) : Action V → Prop
  | .flush => s.buffer.isEmpty = false →
      s.Protects codec s.buffer.maxRecordSeq (missed codec dir)
  | .append _ => True

instance (dir : WalDir) (s : IngestState V) : ∀ a, Decidable (Protected codec dir s a)
  | .flush => inferInstanceAs (Decidable (s.buffer.isEmpty = false →
      s.Protects codec s.buffer.maxRecordSeq (missed codec dir)))
  | .append _ => instDecidableTrue

/-! ### The invariant -/

/-- An intact record is committed, or on disk and either in the buffer or missed by the
replay. -/
def Inv (dir : WalDir) (s : IngestState V) : Prop :=
  ∀ r ∈ dir.records codec.crc32, ∀ b, codec.fromSlice r.payload = some b →
    (∀ x ∈ b, x.row ∈ s.tables.samples) ∨
      r ∈ s.dir.records codec.crc32 ∧ (r ∈ missed codec dir ∨ ∀ x ∈ b, x.row ∈ s.buffer.rows)

variable {codec} {dir : WalDir} {s s' : IngestState V}

theorem inv_open (io : ReadIo) (tables : Tables V) (rotationBytes : ℕ) :
    Inv codec dir (AppState.openWithRotation codec io tables dir rotationBytes) := by
  intro r hr b hb
  refine Or.inr ⟨WalDir.records_mono (WalDir.grows_create _ _) hr, ?_⟩
  by_cases hread : r ∈ Wal.readable codec.crc32 dir
  · refine Or.inr fun x hx => ?_
    rw [AppState.openWithRotation_buffer, (Buffer.rows_insertRecords _ _).mem_iff]
    refine List.mem_append_left _ (List.mem_map_of_mem ?_)
    exact List.mem_flatMap.mpr ⟨r, hread, by rwa [hb]⟩
  · exact Or.inl (List.mem_filter.mpr ⟨hr, by simpa using hread⟩)

theorem inv_append (h : Inv codec dir s) {samples : List (ValidatedSample V)}
    (hs : step codec s (.append samples) = some s') : Inv codec dir s' := by
  rw [step] at hs
  by_cases hp : (codec.toVec samples).length < u32Size
  · rw [IngestState.appendValidated_ok hp] at hs
    cases hs
    intro r hr b hb
    refine (h r hr b hb).imp id fun ⟨hd, hw⟩ => ⟨?_, hw.imp id fun hbuf x hx => ?_⟩
    · exact WalDir.records_mono (WalWriter.grows_appended _) hd
    · exact Buffer.mem_rows_insertBatch.mpr (Or.inr (hbuf x hx))
  · rw [IngestState.appendValidated_tooLarge hp] at hs
    cases hs
    exact h

/-- A flush commits what was replayed, and a protected one keeps what was not. -/
theorem inv_flush (h : Inv codec dir s) (hok : Protected codec dir s .flush)
    (hs : step codec s .flush = some s') : Inv codec dir s' := by
  rw [step] at hs
  cases hs
  rcases s.flushOnce_cases .ok with ⟨hf, -⟩ | ⟨hne, ⟨-, hio⟩ | ⟨-, hio, -⟩ | ⟨hf, -, -⟩⟩
  · rw [hf]
    exact h
  · cases hio
  · cases hio
  · rw [hf]
    intro r hr b hb
    have hprotects : s.flushed.Protects codec s.buffer.maxRecordSeq (missed codec dir) := hok hne
    simp only [IngestState.truncateWal_tables]
    rcases h r hr b hb with hc | ⟨hd, hmiss | hbuf⟩
    · exact Or.inl fun x hx => List.mem_append_left _ (hc x hx)
    · exact Or.inr ⟨hprotects.mem_records hmiss hd, Or.inl hmiss⟩
    · exact Or.inl fun x hx =>
        List.mem_append_right _ (Snapshot.mem_samplesRows.mpr (hbuf x hx))

theorem inv_step {a : Action V} (h : Inv codec dir s) (hok : Protected codec dir s a)
    (hs : step codec s a = some s') : Inv codec dir s' := by
  cases a with
  | append samples => exact inv_append h hs
  | flush => exact inv_flush h hok hs

/-! ### What survives, and what does not -/

/-- **Every intact record survives the damage in a protected run**: from any directory, damaged
in any way, through any appends and flushes, it is committed or still on disk, as long as
whenever the buffer is flushed every file with an intact record that the replay did not reach is
the current file or goes beyond the watermark. -/
theorem safe_of_protected {io : ReadIo} {tables : Tables V} {rotationBytes : ℕ}
    (hrun : Runs (Runs.ofFn (step codec)) (Protected codec dir)
      (AppState.openWithRotation codec io tables dir rotationBytes) s) : Safe codec dir s := by
  intro r hr b hb
  have hinv : Inv codec dir s :=
    hrun.invariant (inv_open io tables rotationBytes) fun h hok hs => inv_step h hok hs
  exact (hinv r hr b hb).imp id And.left

section Instances

open Encoding (sample)

/-- The encodings, reading back three batches. -/
def serving : Extern ℤ := .serving [[sample 1], [sample 2], [sample 3]]

/-- The frame of a batch of one sample, its last byte overwritten. -/
def damagedFrame (seq : ℕ) (id : ℤ) : Bytes :=
  (Wal.frame serving.crc32 seq (serving.toVec [sample id])).bytes.dropLast ++ [0]

/-- The frame of a batch of one sample. -/
def intactFrame (seq : ℕ) (id : ℤ) : Bytes :=
  (Wal.frame serving.crc32 seq (serving.toVec [sample id])).bytes

/-- A damaged and an intact record in one file. -/
def oneFile : WalDir := .ofList [(0, damagedFrame 1 1 ++ intactFrame 2 2)]

/-- The same, the file rotated out. -/
def twoFiles : WalDir := .ofList [(0, damagedFrame 1 1 ++ intactFrame 2 2), (1, [])]

set_option maxRecDepth 100000 in
/-- The records behind the damage are in the current file. -/
theorem safe_of_protected_current_file :
    ∃ s, Runs (Runs.ofFn (step serving)) (Protected serving oneFile)
        (AppState.openWithRotation serving .ok .empty oneFile defaultRotationBytes) s ∧
      s.tables.samples.length = 1 ∧ Safe serving oneFile s := by
  obtain ⟨s, hrun, hp⟩ := Runs.exists_of_foldlM (f := step serving)
    (C := Protected serving oneFile)
    (s := AppState.openWithRotation serving .ok .empty oneFile defaultRotationBytes)
    (p := fun s => s.tables.samples.length == 1) [.append [sample 3], .flush]
    (by decide +kernel)
  exact ⟨s, hrun, by simpa using hp, safe_of_protected hrun⟩

set_option maxRecDepth 100000 in
/-- **An intact record is deleted without having been read**: the first record of file 0 has a bad
checksum, the second is intact, and one append and one flush later file 0 is gone. -/
theorem intact_record_deleted :
    ∃ s, Runs (Runs.ofFn (step serving)) (fun _ _ => True)
        (AppState.openWithRotation serving .ok .empty twoFiles defaultRotationBytes) s ∧
      ¬Safe serving twoFiles s := by
  obtain ⟨s, hrun, hp⟩ := Runs.exists_of_foldlM (f := step serving) (C := fun _ _ => True)
    (s := AppState.openWithRotation serving .ok .empty twoFiles defaultRotationBytes)
    (p := fun s => decide ((sample 2).row ∉ s.tables.samples) &&
      decide (⟨2, serving.toVec [sample 2]⟩ ∉ s.dir.records serving.crc32))
    [.append [sample 3], .flush]
    (by decide +kernel)
  simp only [Bool.and_eq_true, decide_eq_true_eq] at hp
  refine ⟨s, hrun, fun hsafe => ?_⟩
  rcases hsafe ⟨2, serving.toVec [sample 2]⟩ (by decide +kernel) [sample 2]
    (by decide +kernel) with hc | hd
  · exact hp.1 (hc _ (List.mem_singleton_self _))
  · exact hp.2 hd

end Instances

end Damage

end Skaldberg
