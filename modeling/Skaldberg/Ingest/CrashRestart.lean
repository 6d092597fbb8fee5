import Skaldberg.Ingest.CleanLog
import Skaldberg.Ingest.Encoding
import Skaldberg.Lib.Runs

/-!
# Crashes in the middle of an append

A crash during an append leaves the first bytes of a frame at the end of the current file.
The next process opens that same file for appending, as it finds it: nothing is cut off, and no
new file is begun. Its first record is then framed from inside the torn one, and a replay
loses it and everything behind it.

`CrashRestart.recovered_of_clean_appends` is the exact limit of what the log guarantees: every
acknowledged record is recovered, in order, in a run that appends to clean files only
(`Wal.Clean`). `CrashRestart.append_after_torn_tail_lost` loses a record in four steps, at the
rotation size of the server.
-/

namespace Skaldberg

namespace CrashRestart

/-- The log, its writer while a process runs, and the records acknowledged so far. -/
structure State where
  /-- The files. -/
  dir : WalDir
  /-- The writer. -/
  writer : Option WalWriter
  /-- The records whose append returned, in order. -/
  acked : List WalRecord

/-- What can happen to a log. -/
inductive Action where
  /-- A process opens the log. -/
  | «open» (rotationBytes : ℕ)
  /-- An append succeeds. -/
  | append (payload : Bytes)
  /-- The process crashes inside an append, `k` bytes of the frame written. -/
  | crash (payload : Bytes) (k : ℕ)

variable (crc32 : Bytes → UInt32)

/-- Where an action leads, if it can happen. -/
def step (s : State) : Action → Option State
  | .open rotationBytes =>
    let opened := WalWriter.openWithRotation s.dir rotationBytes
    some { s with dir := opened.2, writer := some opened.1 }
  | .append payload =>
    s.writer.bind fun w =>
      match w.append crc32 .ok s.dir payload with
      | (.ok recordSeq, written) =>
        some ⟨written.2, some written.1, s.acked ++ [⟨recordSeq, payload⟩]⟩
      | (.error _, _) => none
  | .crash payload k =>
    s.writer.bind fun w =>
      if k < (Wal.frame crc32 w.nextRecordSeq payload).bytes.length then
        some { s with
          dir := (w.append crc32 ⟨some k, true, true⟩ s.dir payload).2.2
          writer := none }
      else none

/-- No file, no process. -/
def start : State := ⟨.empty, none, []⟩

/-- An iteration that stops at the first error yields every acknowledged record, in the order
of the appends. -/
def Recovered (s : State) : Prop := s.acked.Sublist (Wal.okPrefix (WalIter.items crc32 s.dir))

/-- No append succeeds on a file that does not read cleanly to its end, or past the last
file number. -/
def CleanAppend (s : State) : Action → Prop
  | .append _ => ∀ w ∈ s.writer, w.fileSeq + 1 < u64Size ∧
      ∀ bs ∈ s.dir.get? w.file, Wal.Clean crc32 bs
  | _ => True

instance (s : State) : ∀ a, Decidable (CleanAppend crc32 s a)
  | .append _ => inferInstanceAs (Decidable (∀ w ∈ s.writer, w.fileSeq + 1 < u64Size ∧
      ∀ bs ∈ s.dir.get? w.file, Wal.Clean crc32 bs))
  | .open _ => instDecidableTrue
  | .crash _ _ => instDecidableTrue

/-! ### The invariant -/

/-- Only the last file of the log may be torn, the writer is on it, and what is acknowledged
can be read. -/
structure Inv (s : State) : Prop where
  /-- Every file but the last is clean. -/
  clean : ∀ bs ∈ s.dir.values.dropLast, Wal.Clean crc32 bs
  /-- The writer is on the last file. -/
  writer : ∀ w ∈ s.writer, w.OnLast s.dir
  /-- The acknowledged records are readable. -/
  recovered : s.acked.Sublist (Wal.readable crc32 s.dir)

variable {crc32} {s s' : State}

theorem inv_start : Inv crc32 start where
  clean := by simp [start, SortedMap.values]
  writer := by simp [start]
  recovered := List.Sublist.slnil

/-- Opening a log changes nothing a replay reads. -/
theorem Inv.open (h : Inv crc32 s) {rotationBytes : ℕ}
    (hs : step crc32 s (.open rotationBytes) = some s') : Inv crc32 s' := by
  have hvalues := WalWriter.values_openWithRotation s.dir rotationBytes
  have hon := WalWriter.onLast_openWithRotation s.dir rotationBytes
  rw [step] at hs
  generalize WalWriter.openWithRotation s.dir rotationBytes = opened at hs hvalues hon
  cases hs
  refine ⟨fun bs hbs => ?_, fun w hw => ?_, ?_⟩
  · rcases hvalues with hv | ⟨-, hv⟩
    · exact h.clean bs (by rwa [← hv])
    · simp only [hv] at hbs
      cases hbs
  · cases hw
    exact hon
  · rw [Wal.readable_of_values (d := s.dir)]
    · exact h.recovered
    · exact hvalues.imp id fun ⟨hnil, hv⟩ => by rw [hv, hnil]; rfl

/-- A crash spoils at most the end of the last file. -/
theorem Inv.crash (h : Inv crc32 s) {payload : Bytes} {k : ℕ}
    (hs : step crc32 s (.crash payload k) = some s') : Inv crc32 s' := by
  rw [step] at hs
  obtain ⟨w, hw, hs⟩ := Option.bind_eq_some_iff.mp hs
  split_ifs at hs
  cases hs
  have hon := h.writer w hw
  obtain ⟨files, bs, -, hfiles, hwrite⟩ := hon.values
  by_cases hp : payload.length < u32Size
  · have happend : (w.append crc32 ⟨some k, true, true⟩ s.dir payload).2.2 =
        s.dir.write w.file ((Wal.frame crc32 w.nextRecordSeq payload).bytes.take k) := by
      have hlen : ¬payload.length > u32Size - 1 := by omega
      simp only [WalWriter.append, hlen, if_false]
    have hclean : ∀ b ∈ files, Wal.Clean crc32 b := by
      have := h.clean
      rwa [hfiles, List.dropLast_concat] at this
    have hvalues := hwrite ((Wal.frame crc32 w.nextRecordSeq payload).bytes.take k)
    rw [← happend] at hvalues
    refine ⟨?_, fun w hw => (by cases hw), ?_⟩
    · rw [hvalues, List.dropLast_concat]
      exact hclean
    · rw [Wal.readable_of_clean hvalues hclean]
      refine h.recovered.trans ?_
      rw [Wal.readable_of_clean hfiles hclean]
      exact ((Wal.okPrefix_fileItems_append _ _).sublist).append_left _
  · rw [WalWriter.append_tooLarge hp]
    exact ⟨h.clean, fun w hw => (by cases hw), h.recovered⟩

/-- **An append to a clean file is read back**, behind everything that was. -/
theorem Inv.append (h : Inv crc32 s) {payload : Bytes} (hok : CleanAppend crc32 s (.append payload))
    (hs : step crc32 s (.append payload) = some s') : Inv crc32 s' := by
  rw [step] at hs
  obtain ⟨w, hw, hs⟩ := Option.bind_eq_some_iff.mp hs
  by_cases hp : payload.length < u32Size
  · rw [WalWriter.append_ok hp] at hs
    cases hs
    have hon := h.writer w hw
    obtain ⟨hnext, hcleanFile⟩ := hok w hw
    obtain ⟨files, bs, hbs, hfiles, hwrite⟩ := hon.values
    have hclean : ∀ b ∈ files, Wal.Clean crc32 b := by
      have := h.clean
      rwa [hfiles, List.dropLast_concat] at this
    have hbsClean := hcleanFile bs hbs
    have hnew := hbsClean.append_frame hp hon.seq_lt
    have hvalues := hwrite (Wal.frame crc32 w.nextRecordSeq payload).bytes
    have hwritten : Wal.readable crc32
        (s.dir.write w.file (Wal.frame crc32 w.nextRecordSeq payload).bytes) =
          Wal.readable crc32 s.dir ++ [(⟨w.nextRecordSeq, payload⟩ : WalRecord)] := by
      rw [Wal.readable_of_clean hvalues hclean, Wal.readable_of_clean hfiles hclean,
        hnew.fileItems_eq, hbsClean.fileItems_eq,
        Wal.fileRecords_append_frame hbsClean.1 hp hon.seq_lt, Wal.okPrefix_map_ok,
        Wal.okPrefix_map_ok, List.append_assoc]
    have hrecovered : (s.acked ++ [(⟨w.nextRecordSeq, payload⟩ : WalRecord)]).Sublist
        (Wal.readable crc32
        (s.dir.write w.file (Wal.frame crc32 w.nextRecordSeq payload).bytes)) := by
      rw [hwritten]
      exact h.recovered.append_right _
    have honLast : (w.appended crc32 s.dir payload).1.OnLast (w.appended crc32 s.dir payload).2 :=
      hon.appended hnext payload
    have hlast : ∀ k ∈ (s.dir.write w.file
        (Wal.frame crc32 w.nextRecordSeq payload).bytes).keys, k ≤ w.fileSeq :=
      fun k hk => hon.last k ((WalDir.mem_keys_write hbs).mp hk)
    rw [WalWriter.appended] at honLast ⊢
    simp only [Nat.mod_eq_of_lt hnext] at honLast ⊢
    split_ifs at honLast ⊢ with hrot
    · -- rotated: an empty file after the one just written
      have hcreate := WalDir.values_create fun k hk => (hlast k hk).trans (Nat.le_succ w.fileSeq)
      refine ⟨fun b hb => ?_, fun w' hw' => ?_, ?_⟩
      · rcases hcreate with hv | ⟨-, hv⟩
        · rw [hv, hvalues, List.dropLast_concat] at hb
          exact hclean b hb
        · rw [hv, List.dropLast_concat, hvalues] at hb
          rcases List.mem_append.mp hb with hb | hb
          · exact hclean b hb
          · rw [List.mem_singleton.mp hb]
            exact hnew
      · cases hw'
        exact honLast
      · rw [Wal.readable_of_values (hcreate.imp id And.right)]
        exact hrecovered
    · refine ⟨fun b hb => ?_, fun w' hw' => ?_, hrecovered⟩
      · rw [hvalues, List.dropLast_concat] at hb
        exact hclean b hb
      · cases hw'
        exact honLast
  · rw [WalWriter.append_tooLarge hp] at hs
    cases hs

theorem Inv.step {a : Action} (h : Inv crc32 s) (hok : CleanAppend crc32 s a)
    (hs : CrashRestart.step crc32 s a = some s') : Inv crc32 s' := by
  cases a with
  | «open» rotationBytes => exact h.open hs
  | append payload => exact h.append hok hs
  | crash payload k => exact h.crash hs

/-! ### What is recovered, and what is not -/

/-- **Every acknowledged record is recovered, in order**, after any number of crashes inside an
append, at any cut, and re-opens with any rotation size, in a run that appends only to files
that read cleanly to their end. -/
theorem recovered_of_clean_appends
    (hrun : Runs (Runs.ofFn (step crc32)) (CleanAppend crc32) start s) : Recovered crc32 s := by
  rw [Recovered, WalIter.items_eq]
  exact (hrun.invariant inv_start fun h hok hs => h.step hok hs).recovered

section Instances

set_option maxRecDepth 100000 in
/-- A crash before the first byte of a frame, and one inside a frame nothing is appended
behind. -/
theorem recovered_of_clean_appends_two_crashes :
    ∃ s, Runs (Runs.ofFn (step Encoding.crc32)) (CleanAppend Encoding.crc32) start s ∧
      s.acked.length = 3 ∧ Recovered Encoding.crc32 s := by
  obtain ⟨s, hrun, hp⟩ := Runs.exists_of_foldlM (f := step Encoding.crc32)
    (C := CleanAppend Encoding.crc32) (s := start) (p := fun s => s.acked.length == 3)
    [.open 40, .append [104, 105], .append [1], .crash [2, 3] 0, .open 40, .append [4],
      .crash [5] 9, .open 40]
    (by decide +kernel)
  exact ⟨s, hrun, by simpa using hp, recovered_of_clean_appends hrun⟩

set_option maxRecDepth 100000 in
/-- **A record appended behind a torn one is lost**: three bytes of the first frame reach the
disk, and the record of the next process is read as part of it. -/
theorem append_after_torn_tail_lost :
    ∃ s, Runs (Runs.ofFn (step Encoding.crc32)) (fun _ _ => True) start s ∧
      ¬Recovered Encoding.crc32 s := by
  obtain ⟨s, hrun, hp⟩ := Runs.exists_of_foldlM (f := step Encoding.crc32) (C := fun _ _ => True)
    (s := start)
    (p := fun s => s.acked.length == 1 &&
      (Wal.okPrefix (WalIter.items Encoding.crc32 s.dir)).isEmpty)
    [.open defaultRotationBytes, .crash [104, 105] 3, .open defaultRotationBytes, .append [1]]
    (by decide +kernel)
  simp only [Bool.and_eq_true, beq_iff_eq, List.isEmpty_iff] at hp
  refine ⟨s, hrun, fun hr => ?_⟩
  have hlen := hr.length_le
  rw [hp.1, hp.2] at hlen
  exact absurd hlen (by decide)

end Instances

end CrashRestart

end Skaldberg
