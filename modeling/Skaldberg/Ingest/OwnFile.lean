import Skaldberg.Ingest.FailedAppend

/-!
# The writer's own file

A truncation spares the current file, and knows it by the writer's counter. A rotation advances
that counter before it opens the next file: if the file does not open, the append fails, and the
writer is left with a counter that is one file ahead of its handle. To the next truncation the file
of the handle is then a file like any other.

`OwnFile.safe_iff` says how far the two stay together: over every sequence of appends, truncations
and re-opens, on whatever files the log had, the writer keeps its own file and what it acknowledges
can be read, as long as every rotation opens its file; and one that does not puts the file of the
handle within reach of a truncation at once. In `OwnFile.own_file_removed` the record of a later,
successful append goes with it.
-/

namespace Skaldberg

/-! ### Appends without write failures -/

namespace WalWriter

variable {crc32 : Bytes → UInt32} {w : WalWriter} {dir : WalDir} {payload : Bytes}

/-- The frame of a payload fills the current file: the append that writes it rotates. -/
def Fills (w : WalWriter) (payload : Bytes) : Prop :=
  payload.length < u32Size ∧ w.rotationBytes ≤ w.fileBytes + (headerBytes + payload.length)

instance (w : WalWriter) (payload : Bytes) : Decidable (w.Fills payload) :=
  inferInstanceAs (Decidable (_ ∧ _))

/-- The writer that a rotation leaves if the next file does not open. -/
def stranded (w : WalWriter) (payload : Bytes) : WalWriter :=
  { w with
    fileSeq := (w.fileSeq + 1) % u64Size
    fileBytes := w.fileBytes + (headerBytes + payload.length)
    nextRecordSeq := (w.nextRecordSeq + 1) % u64Size }

/-- An append whose rotation, if it comes to one, opens the next file. -/
theorem append_of_nextOpens {nextOpens : Bool} (hp : payload.length < u32Size)
    (h : nextOpens = false → ¬w.Fills payload) :
    w.append crc32 ⟨none, true, nextOpens⟩ dir payload =
      (.ok w.nextRecordSeq, w.appended crc32 dir payload) := by
  cases nextOpens with
  | true => exact append_ok hp
  | false =>
    have hlen : ¬payload.length > u32Size - 1 := by omega
    have hfill : ¬w.fileBytes + (headerBytes + payload.length) ≥ w.rotationBytes :=
      fun hge => h rfl ⟨hp, hge⟩
    simp only [append, hlen, if_false, Bool.not_true, Bool.false_eq_true, appended,
      Wal.length_frame_bytes, hfill]

/-- **A failed rotation** leaves the frame in the file, and the counter one file further. -/
theorem append_of_stranded (h : w.Fills payload) :
    w.append crc32 ⟨none, true, false⟩ dir payload =
      (.error .io, w.stranded payload,
        dir.write w.file (Wal.frame crc32 w.nextRecordSeq payload).bytes) := by
  have hp := h.1
  have hlen : ¬payload.length > u32Size - 1 := by omega
  have hfill : w.fileBytes + (headerBytes + payload.length) ≥ w.rotationBytes := h.2
  simp only [append, hlen, if_false, Bool.not_true, Bool.false_eq_true, Wal.length_frame_bytes,
    hfill, if_true, rotate, stranded]

/-- A writer whose handle is on the current file, which exists. -/
structure OnCurrent (w : WalWriter) (dir : WalDir) : Prop where
  /-- The handle is on the current file. -/
  handle : w.file = w.fileSeq
  /-- The current file exists. -/
  current : (dir.get? w.fileSeq).isSome

theorem onCurrent_openWithRotation (dir : WalDir) (rotationBytes : ℕ) :
    (openWithRotation dir rotationBytes).1.OnCurrent (openWithRotation dir rotationBytes).2 :=
  ⟨rfl, isSome_current_openWithRotation dir rotationBytes⟩

theorem OnCurrent.appended (h : w.OnCurrent dir) (crc32 : Bytes → UInt32) (payload : Bytes) :
    (w.appended crc32 dir payload).1.OnCurrent (w.appended crc32 dir payload).2 := by
  rw [WalWriter.appended]
  simp only
  split_ifs
  · exact ⟨rfl, by simp [WalDir.get?_create]⟩
  · obtain ⟨bs, hbs⟩ := Option.isSome_iff_exists.mp h.current
    obtain ⟨x, hx⟩ := WalDir.grows_write dir w.file
      (Wal.frame crc32 w.nextRecordSeq payload).bytes w.fileSeq bs hbs
    exact ⟨h.handle, by rw [hx]; rfl⟩

/-- **A truncation spares the file of a handle that is on the current file**, whatever its
watermark. -/
theorem OnCurrent.get?_truncateThrough (h : w.OnCurrent dir) (n : ℕ) :
    ∃ bs, dir.get? w.file = some bs ∧ (w.truncateThrough dir n).get? w.file = some bs := by
  obtain ⟨bs, hbs⟩ := Option.isSome_iff_exists.mp h.current
  rw [← h.handle] at hbs
  exact ⟨bs, hbs, WalWriter.get?_truncateThrough.mpr
    ⟨hbs, fun hrem => (mem_removed.mp hrem).2.1 h.handle⟩⟩

theorem OnCurrent.truncateThrough (h : w.OnCurrent dir) (n : ℕ) :
    w.OnCurrent (w.truncateThrough dir n) := by
  obtain ⟨bs, -, hbs⟩ := h.get?_truncateThrough n
  rw [h.handle] at hbs
  exact ⟨h.handle, by rw [hbs]; rfl⟩

end WalWriter

namespace OwnFile

open FailedAppend (yielded yielded_of_intact)

/-! ### Runs -/

/-- A log, its writer, and what the writer owes a reader. -/
structure State where
  /-- The writer. -/
  writer : WalWriter
  /-- The files. -/
  dir : WalDir
  /-- The records whose append has returned, and whose numbers no truncation has passed since. -/
  acked : List WalRecord

/-- A call on the log. -/
inductive Call where
  /-- A payload is appended; should that rotate, the next file opens or does not. -/
  | append (nextOpens : Bool) (payload : Bytes)
  /-- The log is truncated. -/
  | truncateThrough (flushedThroughSeq : ℕ)
  /-- The log is closed and opened again. -/
  | reopen (rotationBytes : ℕ)
  deriving DecidableEq

variable (crc32 : Bytes → UInt32)

/-- Where a call leads. -/
def step (s : State) : Call → State
  | .append nextOpens payload =>
    match s.writer.append crc32 ⟨none, true, nextOpens⟩ s.dir payload with
    | (.ok recordSeq, written) => ⟨written.1, written.2, s.acked ++ [⟨recordSeq, payload⟩]⟩
    | (.error _, written) => ⟨written.1, written.2, s.acked⟩
  | .truncateThrough flushedThroughSeq =>
    { s with
      dir := s.writer.truncateThrough s.dir flushedThroughSeq
      acked := s.acked.filter fun r => decide (flushedThroughSeq < r.recordSeq) }
  | .reopen rotationBytes =>
    { s with
      writer := (WalWriter.openWithRotation s.dir rotationBytes).1
      dir := (WalWriter.openWithRotation s.dir rotationBytes).2 }

/-- A log that is opened. -/
def start (dir : WalDir) (rotationBytes : ℕ) : State where
  writer := (WalWriter.openWithRotation dir rotationBytes).1
  dir := (WalWriter.openWithRotation dir rotationBytes).2
  acked := []

/-- The log after a list of calls. -/
def run (dir : WalDir) (rotationBytes : ℕ) (calls : List Call) : State :=
  calls.foldl (step crc32) (start dir rotationBytes)

variable {crc32} in
theorem run_concat (dir : WalDir) (rotationBytes : ℕ) (calls : List Call) (c : Call) :
    run crc32 dir rotationBytes (calls ++ [c]) =
      step crc32 (run crc32 dir rotationBytes calls) c := by
  rw [run, List.foldl_append]
  rfl

/-- The file that the handle appends to is there, and a truncation through any number given out
leaves it there. -/
def KeepsFile (s : State) : Prop :=
  ∀ n < s.writer.nextRecordSeq, ∃ bs, s.dir.get? s.writer.file = some bs ∧
    (s.writer.truncateThrough s.dir n).get? s.writer.file = some bs

/-- In every state of a run the writer keeps its file; and if the log could be read to begin with,
what the writer owes a reader is yielded. -/
def Safe (dir : WalDir) (rotationBytes : ℕ) (calls : List Call) : Prop :=
  ∀ done, done <+: calls → KeepsFile (run crc32 dir rotationBytes done) ∧
    (Wal.Intact crc32 dir → ∀ r ∈ (run crc32 dir rotationBytes done).acked,
      r ∈ yielded crc32 (run crc32 dir rotationBytes done).dir)

/-- No append of a run that fills its file fails to open the next one. -/
def NextOpens (dir : WalDir) (rotationBytes : ℕ) (calls : List Call) : Prop :=
  ∀ done payload, done ++ [.append false payload] <+: calls →
    ¬(run crc32 dir rotationBytes done).writer.Fills payload

/-- The numbers of a log leave room for some more of them. -/
def Fits (dir : WalDir) (n : ℕ) : Prop :=
  n + 1 < u64Size ∧ ∀ r ∈ dir.records crc32, r.recordSeq + 1 + n < u64Size

variable {crc32} {s : State} {dir : WalDir} {rotationBytes : ℕ} {calls : List Call}

theorem safe_concat {c : Call} (h : Safe crc32 dir rotationBytes (calls ++ [c])) :
    Safe crc32 dir rotationBytes calls ∧
      KeepsFile (step crc32 (run crc32 dir rotationBytes calls) c) := by
  refine ⟨fun done hdone => h done (hdone.trans (List.prefix_append calls [c])), ?_⟩
  rw [← run_concat]
  exact (h _ List.prefix_rfl).1

theorem nextOpens_concat {c : Call} :
    NextOpens crc32 dir rotationBytes (calls ++ [c]) ↔
      NextOpens crc32 dir rotationBytes calls ∧
        ∀ payload, c = .append false payload →
          ¬(run crc32 dir rotationBytes calls).writer.Fills payload := by
  constructor
  · intro h
    refine ⟨fun done payload hdone => h done payload (hdone.trans (List.prefix_append calls [c])),
      ?_⟩
    rintro payload rfl
    exact h calls payload List.prefix_rfl
  · rintro ⟨h, hc⟩ done payload hdone
    rcases List.prefix_concat_iff.mp hdone with heq | hdone
    · obtain ⟨rfl, hlast⟩ := List.append_inj' heq rfl
      exact hc payload (List.cons.inj hlast).1.symm
    · exact h done payload hdone

theorem NextOpens.before {done : List Call} (h : NextOpens crc32 dir rotationBytes calls)
    (hdone : done <+: calls) : NextOpens crc32 dir rotationBytes done :=
  fun earlier payload hearlier => h earlier payload (hearlier.trans hdone)

theorem step_append {nextOpens : Bool} {payload : Bytes} (hp : payload.length < u32Size)
    (h : nextOpens = false → ¬s.writer.Fills payload) :
    step crc32 s (.append nextOpens payload) =
      ⟨(s.writer.appended crc32 s.dir payload).1, (s.writer.appended crc32 s.dir payload).2,
        s.acked ++ [⟨s.writer.nextRecordSeq, payload⟩]⟩ := by
  rw [step, WalWriter.append_of_nextOpens hp h]

theorem step_append_tooLarge {nextOpens : Bool} {payload : Bytes}
    (hp : ¬payload.length < u32Size) : step crc32 s (.append nextOpens payload) = s := by
  rw [step, WalWriter.append_tooLarge hp]

/-! ### Rotations that open their file -/

/-- What a call keeps whose rotation, if it comes to one, opens its file. -/
theorem onCurrent_step (h : s.writer.OnCurrent s.dir) {c : Call}
    (hc : ∀ payload, c = .append false payload → ¬s.writer.Fills payload) :
    (step crc32 s c).writer.OnCurrent (step crc32 s c).dir := by
  cases c with
  | append nextOpens payload =>
    by_cases hp : payload.length < u32Size
    · rw [step_append hp fun hb => hc payload (by rw [hb])]
      exact h.appended crc32 payload
    · rw [step_append_tooLarge hp]
      exact h
  | truncateThrough n => exact h.truncateThrough n
  | reopen rotationBytes => exact WalWriter.onCurrent_openWithRotation s.dir rotationBytes

/-- A log that can be read, its writer in order, with all that the writer owes a reader. -/
structure Recorded (crc32 : Bytes → UInt32) (s : State) : Prop where
  /-- The writer is in order. -/
  inOrder : s.writer.InOrder s.dir
  /-- Every file reads to its end. -/
  intact : Wal.Intact crc32 s.dir
  /-- What is owed is there. -/
  acked : ∀ r ∈ s.acked, r ∈ s.dir.records crc32

theorem intact_openWithRotation (h : Wal.Intact crc32 dir) (rotationBytes : ℕ) :
    Wal.Intact crc32 (WalWriter.openWithRotation dir rotationBytes).2 := by
  rw [WalWriter.openWithRotation]
  exact h.create _

theorem records_openWithRotation (dir : WalDir) (rotationBytes : ℕ) :
    ((WalWriter.openWithRotation dir rotationBytes).2.records crc32).Perm (dir.records crc32) := by
  rw [WalWriter.openWithRotation]
  exact WalDir.records_create_perm dir _

theorem intact_truncateThrough (h : Wal.Intact crc32 dir) (w : WalWriter) (n : ℕ) :
    Wal.Intact crc32 (w.truncateThrough dir n) :=
  fun file bs hf => h file bs (WalWriter.get?_truncateThrough.mp hf).1

theorem recorded_start (h : Wal.Intact crc32 dir) (rotationBytes : ℕ) :
    Recorded crc32 (start dir rotationBytes) where
  inOrder := WalWriter.inOrder_openWithRotation (fun file bs hf => (h file bs hf).1) rotationBytes
  intact := intact_openWithRotation h rotationBytes
  acked := by simp [start]

theorem Recorded.step (h : Recorded crc32 s) {c : Call}
    (hc : ∀ payload, c = .append false payload → ¬s.writer.Fills payload) :
    Recorded crc32 (step crc32 s c) := by
  cases c with
  | append nextOpens payload =>
    by_cases hp : payload.length < u32Size
    · rw [step_append hp fun hb => hc payload (by rw [hb])]
      obtain ⟨horder, hmem⟩ := h.inOrder.appended crc32 hp
      refine ⟨horder, h.intact.appended h.inOrder hp, fun r hr => ?_⟩
      rcases List.mem_append.mp hr with hr | hr
      · exact WalDir.records_mono (WalWriter.grows_appended payload) (h.acked r hr)
      · rw [List.mem_singleton.mp hr]
        exact hmem
    · rw [step_append_tooLarge hp]
      exact h
  | truncateThrough n =>
    refine ⟨h.inOrder.truncateThrough n, intact_truncateThrough h.intact s.writer n, fun r hr => ?_⟩
    obtain ⟨hr, hbeyond⟩ := List.mem_filter.mp hr
    rcases WalWriter.mem_records_truncateThrough (h.acked r hr) with hkept | ⟨e, he, hre⟩
    · exact hkept
    · -- a file that goes has no number beyond the watermark
      have hmax := (WalWriter.mem_removed.mp he).2.2
      obtain ⟨f, hf, rfl⟩ := List.mem_map.mp hre
      have hle := Wal.le_scanMaxRecordSeq (List.mem_of_mem_filter hf)
      have hlt : n < Wal.hdrSeq f.hdr := of_decide_eq_true hbeyond
      omega
  | reopen rotationBytes =>
    exact ⟨WalWriter.inOrder_openWithRotation h.inOrder.boundary rotationBytes,
      intact_openWithRotation h.intact rotationBytes,
      fun r hr => (records_openWithRotation s.dir rotationBytes).mem_iff.mpr (h.acked r hr)⟩

/-- **A run whose rotations open their files** has its handle on the current file, and if the log
could be read to begin with, it has recorded what it acknowledged. -/
theorem inv_run (h : NextOpens crc32 dir rotationBytes calls) :
    (run crc32 dir rotationBytes calls).writer.OnCurrent (run crc32 dir rotationBytes calls).dir ∧
      (Wal.Intact crc32 dir → Recorded crc32 (run crc32 dir rotationBytes calls)) := by
  induction calls using List.reverseRecOn with
  | nil =>
    exact ⟨WalWriter.onCurrent_openWithRotation dir rotationBytes,
      fun hdir => recorded_start hdir rotationBytes⟩
  | append_singleton calls c ih =>
    obtain ⟨hcalls, hc⟩ := nextOpens_concat.mp h
    obtain ⟨hcurrent, hrec⟩ := ih hcalls
    rw [run_concat]
    exact ⟨onCurrent_step hcurrent hc, fun hdir => (hrec hdir).step hc⟩

theorem safe_of_nextOpens (h : NextOpens crc32 dir rotationBytes calls) :
    Safe crc32 dir rotationBytes calls := by
  intro done hdone
  obtain ⟨hcurrent, hrec⟩ := inv_run (h.before hdone)
  refine ⟨fun n _ => hcurrent.get?_truncateThrough n, fun hdir r hr => ?_⟩
  rw [yielded_of_intact (hrec hdir).intact]
  exact (hrec hdir).acked r hr

/-! ### A rotation that does not -/

/-- The numbers of a log that can be read, with room for `n` more: they are below the next one. -/
structure Numbered (crc32 : Bytes → UInt32) (n : ℕ) (s : State) : Prop where
  /-- Every file reads to its end. -/
  intact : Wal.Intact crc32 s.dir
  /-- The numbers are below the next one. -/
  below : ∀ r ∈ s.dir.records crc32, r.recordSeq < s.writer.nextRecordSeq
  /-- Numbers start at 1. -/
  pos : 0 < s.writer.nextRecordSeq
  /-- There is room for some more. -/
  room : s.writer.nextRecordSeq + n < u64Size

theorem Numbered.inOrder {n : ℕ} (h : Numbered crc32 n s) (hs : s.writer.OnCurrent s.dir) :
    s.writer.InOrder s.dir :=
  ⟨hs.handle, hs.current, fun file bs hf => (h.intact file bs hf).1, by have := h.room; omega⟩

/-- Opening a log takes up its numbers. -/
theorem numbered_openWithRotation {n : ℕ} (h : Wal.Intact crc32 dir) (hfit : Fits crc32 dir n)
    (rotationBytes : ℕ) : Numbered crc32 n (start dir rotationBytes) := by
  obtain ⟨hbelow, hex, hpos⟩ := WalWriter.nextRecordSeq_openWithRotation h
    (fun r hr => by have := hfit.2 r hr; omega) rotationBytes
  refine ⟨intact_openWithRotation h rotationBytes, fun r hr => ?_, hpos, ?_⟩
  · exact hbelow r ((records_openWithRotation dir rotationBytes).mem_iff.mp hr)
  · show (WalWriter.openWithRotation dir rotationBytes).1.nextRecordSeq + n < u64Size
    rcases hex with hone | ⟨r, hr, hnext⟩
    · have := hfit.1
      omega
    · have := hfit.2 r hr
      omega

/-- A call that rotates properly, if at all, gives out at most one number. -/
theorem Numbered.step {n : ℕ} (h : Numbered crc32 (n + 1) s) (hs : s.writer.OnCurrent s.dir)
    {c : Call} (hc : ∀ payload, c = .append false payload → ¬s.writer.Fills payload) :
    Numbered crc32 n (step crc32 s c) := by
  have hroom := h.room
  cases c with
  | append nextOpens payload =>
    by_cases hp : payload.length < u32Size
    · have hnext : (s.writer.appended crc32 s.dir payload).1.nextRecordSeq =
          s.writer.nextRecordSeq + 1 := by
        rw [WalWriter.nextRecordSeq_appended, Nat.mod_eq_of_lt (by omega)]
      rw [step_append hp fun hb => hc payload (by rw [hb])]
      refine ⟨h.intact.appended (h.inOrder hs) hp, fun r hr => ?_, ?_, ?_⟩
      · rw [((h.inOrder hs).records_appended hp).mem_iff, List.mem_cons] at hr
        rw [hnext]
        rcases hr with rfl | hr
        · exact Nat.lt_succ_self _
        · exact (h.below r hr).trans (Nat.lt_succ_self _)
      · rw [hnext]
        exact Nat.succ_pos _
      · rw [hnext]
        omega
    · rw [step_append_tooLarge hp]
      exact ⟨h.intact, h.below, h.pos, by omega⟩
  | truncateThrough k =>
    refine ⟨intact_truncateThrough h.intact s.writer k, fun r hr => ?_, h.pos, ?_⟩
    · obtain ⟨file, bs, hf, hr⟩ := WalDir.mem_records.mp hr
      exact h.below r (WalDir.mem_records.mpr
        ⟨file, bs, (WalWriter.get?_truncateThrough.mp hf).1, hr⟩)
    · exact (Nat.lt_succ_self _).trans hroom
  | reopen rotationBytes =>
    have hfit : Fits crc32 s.dir n := by
      refine ⟨?_, fun r hr => ?_⟩
      · have := h.pos
        omega
      · have := h.below r hr
        omega
    have hopen := numbered_openWithRotation h.intact hfit rotationBytes
    exact ⟨hopen.intact, hopen.below, hopen.pos, hopen.room⟩

theorem numbered_run {n : ℕ} (hdir : Wal.Intact crc32 dir)
    (hfit : Fits crc32 dir (calls.length + n)) (h : NextOpens crc32 dir rotationBytes calls) :
    Numbered crc32 n (run crc32 dir rotationBytes calls) := by
  induction calls using List.reverseRecOn generalizing n with
  | nil => exact numbered_openWithRotation hdir (by simpa using hfit) rotationBytes
  | append_singleton calls c ih =>
    obtain ⟨hcalls, hc⟩ := nextOpens_concat.mp h
    rw [List.length_append, List.length_singleton, Nat.add_assoc, Nat.add_comm 1 n] at hfit
    rw [run_concat]
    exact (ih hfit hcalls).step (inv_run hcalls).1 hc

/-- A scan of the file of the handle, one frame later, finds no number past the one given out. -/
theorem Numbered.scanMaxRecordSeq_le {n : ℕ} (h : Numbered crc32 n s)
    (hs : s.writer.OnCurrent s.dir) {payload bs : Bytes} (hp : payload.length < u32Size)
    (hbs : (s.dir.write s.writer.file
      (Wal.frame crc32 s.writer.nextRecordSeq payload).bytes).get? s.writer.file = some bs) :
    Wal.scanMaxRecordSeq bs ≤ s.writer.nextRecordSeq := by
  have hseq := (h.inOrder hs).seq_lt
  have hclean := h.intact.write s.writer.file hp hseq s.writer.file bs hbs
  obtain ⟨old, hold⟩ := Option.isSome_iff_exists.mp hs.current
  rw [← hs.handle] at hold
  rw [WalDir.get?_write hold, if_pos rfl] at hbs
  cases hbs
  refine hclean.scanMaxRecordSeq_le_iff.mpr fun r hr => ?_
  rw [Wal.fileRecords_append_frame (h.intact _ old hold).1 hp hseq] at hr
  rcases List.mem_append.mp hr with hr | hr
  · exact (h.below r (WalDir.mem_records.mpr ⟨_, old, hold, hr⟩)).le
  · rw [List.mem_singleton.mp hr]

/-- **A rotation whose file does not open** leaves the file of the handle to the next truncation:
all its numbers were given out, and it is not the current file. -/
theorem not_keepsFile_of_fills (h : Numbered crc32 1 s) (hs : s.writer.OnCurrent s.dir)
    {payload : Bytes} (hfills : s.writer.Fills payload) :
    ¬KeepsFile (step crc32 s (.append false payload)) := by
  have hnext : (s.writer.stranded payload).nextRecordSeq = s.writer.nextRecordSeq + 1 :=
    Nat.mod_eq_of_lt h.room
  have hahead : (s.writer.stranded payload).file ≠ (s.writer.stranded payload).fileSeq := by
    show s.writer.file ≠ (s.writer.fileSeq + 1) % u64Size
    rw [hs.handle, u64Size]
    omega
  rw [step, WalWriter.append_of_stranded hfills]
  intro hkeeps
  obtain ⟨bs, hbs, hkept⟩ := hkeeps s.writer.nextRecordSeq (hnext ▸ Nat.lt_succ_self _)
  exact (WalWriter.get?_truncateThrough.mp hkept).2 (WalWriter.mem_removed.mpr
    ⟨hbs, hahead, h.scanMaxRecordSeq_le hs hfills.1 hbs⟩)

theorem nextOpens_of_safe (hdir : Wal.Intact crc32 dir) (hfit : Fits crc32 dir calls.length)
    (h : Safe crc32 dir rotationBytes calls) : NextOpens crc32 dir rotationBytes calls := by
  induction calls using List.reverseRecOn with
  | nil =>
    intro done payload hdone
    exact absurd (List.prefix_nil.mp hdone) (by simp)
  | append_singleton calls c ih =>
    obtain ⟨hcalls, hkeeps⟩ := safe_concat h
    rw [List.length_append, List.length_singleton] at hfit
    have hopens := ih ⟨by have := hfit.1; omega, fun r hr => by have := hfit.2 r hr; omega⟩ hcalls
    refine nextOpens_concat.mpr ⟨hopens, ?_⟩
    rintro payload rfl hfills
    exact not_keepsFile_of_fills (numbered_run hdir hfit hopens) (inv_run hopens).1 hfills hkeeps

/-- **The writer keeps its own file as long as its rotations open theirs**: every run of appends,
truncations and re-opens, on any files, in which no append that fills its file fails to open the
next one, keeps the file of the handle in every state, and what it acknowledges can be read if the
files could. And on files that can be read, while the numbers last, no other run does. -/
theorem safe_iff (crc32 : Bytes → UInt32) (dir : WalDir) (rotationBytes : ℕ) (calls : List Call) :
    (NextOpens crc32 dir rotationBytes calls → Safe crc32 dir rotationBytes calls) ∧
      (Wal.Intact crc32 dir → Fits crc32 dir calls.length →
        Safe crc32 dir rotationBytes calls → NextOpens crc32 dir rotationBytes calls) :=
  ⟨safe_of_nextOpens, nextOpens_of_safe⟩

section Instances

/-- A record that rotates its file out, its truncation, and another record. -/
def rotated : List Call := [.append true [104, 105], .truncateThrough 1, .append true [3]]

set_option maxRecDepth 100000 in
/-- The writer keeps its file through a rotation and a truncation. -/
theorem safe_iff_rotated : Safe Encoding.crc32 .empty 17 rotated :=
  (safe_iff Encoding.crc32 .empty 17 rotated).1 fun done payload hdone => by
    have hmem : Call.append false payload ∈ rotated :=
      hdone.subset (List.mem_append_right done (List.mem_singleton_self _))
    simp [rotated] at hmem

/-- The same calls, where the file after the first record does not open. -/
def stranded : List Call := [.append false [104, 105], .truncateThrough 1, .append true [3]]

set_option maxRecDepth 100000 in
/-- **The writer's file is removed**: the rotation fails and leaves the handle on file 0 and the
counter at 1, the truncation removes file 0, and the record of the next append, which succeeds, is
written where no reader finds it. -/
theorem own_file_removed :
    ¬Safe Encoding.crc32 .empty 17 stranded ∧
      (run Encoding.crc32 .empty 17 stranded).acked = [⟨2, [3]⟩] ∧
      yielded Encoding.crc32 (run Encoding.crc32 .empty 17 stranded).dir = [] := by
  have hacked : (run Encoding.crc32 .empty 17 stranded).acked = [⟨2, [3]⟩] := by decide +kernel
  have hyielded : yielded Encoding.crc32 (run Encoding.crc32 .empty 17 stranded).dir = [] := by
    decide +kernel
  refine ⟨fun hsafe => ?_, hacked, hyielded⟩
  have hread := (hsafe stranded List.prefix_rfl).2 (fun file bs hf => by cases hf) ⟨2, [3]⟩
    (hacked ▸ List.mem_singleton_self _)
  rw [hyielded] at hread
  exact List.not_mem_nil hread

end Instances

end OwnFile

end Skaldberg
