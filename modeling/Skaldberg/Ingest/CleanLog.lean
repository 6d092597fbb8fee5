import Mathlib.Data.List.Flatten
import Skaldberg.Ingest.WalIter

/-!
# Logs written without crashes

One process after the other opens the log, appends to it, truncates it and closes it again, and no
file operation fails. What such a life leaves on disk is as regular as one would hope
(`CleanLog.Inv`): every file reads cleanly to its end, the sequence numbers ascend through the
files, only the last file can be empty, and the writer is on it. `CleanLog.inv_run` keeps all of
this together, for fewer appends than the counters have numbers.

The one thing that is not on disk is how far the numbers had got. A writer takes it from the
largest number it finds (`CleanLog.nextRecordSeq_openWithRotation`), which is the last one given
out only while the log still has a record.
-/

namespace Skaldberg

/-! ### Writers on the last file -/

/-- A writer on the last file of its log. -/
structure WalWriter.OnLast (w : WalWriter) (dir : WalDir) : Prop where
  /-- The handle is on the current file. -/
  handle : w.file = w.fileSeq
  /-- The current file exists. -/
  current : (dir.get? w.fileSeq).isSome
  /-- No file comes after it. -/
  last : ∀ k ∈ dir.keys, k ≤ w.fileSeq
  /-- The next sequence number is a `u64`. -/
  seq_lt : w.nextRecordSeq < u64Size

namespace WalWriter

variable {crc32 : Bytes → UInt32} {w : WalWriter} {dir : WalDir}

/-- The files of a log whose writer is on the last one. -/
theorem OnLast.values (h : w.OnLast dir) :
    ∃ files bs, dir.get? w.file = some bs ∧ dir.values = files ++ [bs] ∧
      ∀ bytes, (dir.write w.file bytes).values = files ++ [bs ++ bytes] := by
  obtain ⟨bs, hbs⟩ := Option.isSome_iff_exists.mp h.current
  rw [← h.handle] at hbs
  have hlast := h.last
  rw [← h.handle] at hlast
  obtain ⟨a, -, ha⟩ := dir.upsert_last hlast fun _ => ([] : Bytes)
  refine ⟨a.map Prod.snd, bs, hbs, by simp [SortedMap.values, ha, hbs], fun bytes => ?_⟩
  obtain ⟨a', hu, ha'⟩ := dir.upsert_last hlast fun _ => bs ++ bytes
  have haa : a' = a := List.append_cancel_right (ha'.symm.trans ha)
  have hwrite : dir.write w.file bytes = dir.upsert w.file fun _ => bs ++ bytes := by
    rw [WalDir.write, hbs]
    rfl
  simp [hwrite, SortedMap.values, hu, haa]

theorem onLast_openWithRotation (dir : WalDir) (rotationBytes : ℕ) :
    (openWithRotation dir rotationBytes).1.OnLast (openWithRotation dir rotationBytes).2 where
  handle := rfl
  current := isSome_current_openWithRotation dir rotationBytes
  last := by
    intro k hk
    simp only [openWithRotation, WalDir.create, SortedMap.mem_keys_upsert] at hk ⊢
    rcases hk with rfl | hk
    · exact le_rfl
    · rcases hl : dir.keys.getLast? with _ | l
      · rw [List.getLast?_eq_none_iff.mp hl] at hk
        cases hk
      · exact SortedMap.le_getLast_keys hl hk
  seq_lt := nextRecordSeq_openWithRotation_lt dir rotationBytes

/-- Opening a log again finds its files as they are, and the same one last. -/
theorem OnLast.openWithRotation (h : w.OnLast dir) (rotationBytes : ℕ) :
    (WalWriter.openWithRotation dir rotationBytes).1.fileSeq = w.fileSeq ∧
      (WalWriter.openWithRotation dir rotationBytes).2 = dir := by
  have hmem : w.fileSeq ∈ dir.keys := SortedMap.contains_iff_mem_keys.mp h.current
  have hkey : dir.keys.getLast?.getD 0 = w.fileSeq := by
    rcases hl : dir.keys.getLast? with _ | l
    · rw [List.getLast?_eq_none_iff.mp hl] at hmem
      cases hmem
    · exact le_antisymm (h.last _ (List.mem_of_getLast? hl)) (SortedMap.le_getLast_keys hl hmem)
  refine ⟨hkey, SortedMap.ext_get? fun k => ?_⟩
  simp only [WalWriter.openWithRotation, hkey, WalDir.get?_create]
  split_ifs with hk
  · obtain ⟨bs, hbs⟩ := Option.isSome_iff_exists.mp h.current
    rw [hk, hbs]
    rfl
  · rfl

/-- A writer stays on the last file when it appends, as long as the file numbers do not wrap. -/
theorem OnLast.appended (h : w.OnLast dir) (hnext : w.fileSeq + 1 < u64Size) (payload : Bytes) :
    (w.appended crc32 dir payload).1.OnLast (w.appended crc32 dir payload).2 := by
  have hpos : 0 < u64Size := by decide
  obtain ⟨bs, hbs⟩ := Option.isSome_iff_exists.mp h.current
  rw [← h.handle] at hbs
  have hlast : ∀ k ∈ (dir.write w.file
      (Wal.frame crc32 w.nextRecordSeq payload).bytes).keys, k ≤ w.fileSeq :=
    fun k hk => h.last k ((WalDir.mem_keys_write hbs).mp hk)
  rw [WalWriter.appended]
  simp only [Nat.mod_eq_of_lt hnext]
  split_ifs
  · refine ⟨rfl, by simp [WalDir.get?_create], fun k hk => ?_, Nat.mod_lt _ hpos⟩
    rcases SortedMap.mem_keys_upsert.mp hk with rfl | hk
    · exact le_rfl
    · exact (hlast k hk).trans (Nat.le_succ w.fileSeq)
  · refine ⟨h.handle, ?_, hlast, Nat.mod_lt _ hpos⟩
    rw [WalDir.get?_write hbs, ← h.handle, if_pos rfl]
    rfl

theorem OnLast.records_write (h : w.OnLast dir) (hi : Wal.Intact crc32 dir) {payload : Bytes}
    (hp : payload.length < u32Size) :
    (dir.write w.file (Wal.frame crc32 w.nextRecordSeq payload).bytes).records crc32 =
      dir.records crc32 ++ [⟨w.nextRecordSeq, payload⟩] := by
  obtain ⟨files, bs, hbs, hfiles, hwrite⟩ := h.values
  rw [WalDir.records, hwrite, WalDir.records, hfiles]
  simp only [List.flatMap_append, List.flatMap_singleton, List.append_assoc,
    Wal.fileRecords_append_frame (hi _ bs hbs).1 hp h.seq_lt]

/-- **A writer on the last file adds its record at the end of the log.** -/
theorem OnLast.records_appended (h : w.OnLast dir) (hi : Wal.Intact crc32 dir)
    (hnext : w.fileSeq + 1 < u64Size) {payload : Bytes} (hp : payload.length < u32Size) :
    (w.appended crc32 dir payload).2.records crc32 =
      dir.records crc32 ++ [⟨w.nextRecordSeq, payload⟩] := by
  obtain ⟨files, bs, hbs, hfiles, hwrite⟩ := h.values
  have hwritten := h.records_write hi hp
  rw [WalWriter.appended]
  simp only [Nat.mod_eq_of_lt hnext]
  split_ifs
  · have hlast : ∀ k ∈ (dir.write w.file
        (Wal.frame crc32 w.nextRecordSeq payload).bytes).keys, k ≤ w.fileSeq + 1 :=
      fun k hk => (h.last k ((WalDir.mem_keys_write hbs).mp hk)).trans (Nat.le_succ _)
    rw [← hwritten, WalDir.records, WalDir.records]
    rcases WalDir.values_create hlast with hv | ⟨-, hv⟩
    · rw [hv]
    · rw [hv, List.flatMap_append, List.flatMap_singleton, Wal.fileRecords_nil, List.append_nil]
  · exact hwritten

/-- The files behind an append: the old ones, the current one longer by a frame, and if it was
rotated out an empty one. -/
theorem OnLast.get?_appended (h : w.OnLast dir) (hnext : w.fileSeq + 1 < u64Size)
    {payload : Bytes} {file : ℕ} {bs : Bytes}
    (hf : (w.appended crc32 dir payload).2.get? file = some bs) :
    (file ≠ w.fileSeq ∧ dir.get? file = some bs) ∨
    (file = w.fileSeq ∧ ∃ old, dir.get? w.fileSeq = some old ∧
      bs = old ++ (Wal.frame crc32 w.nextRecordSeq payload).bytes) ∨
    (file = w.fileSeq + 1 ∧ (w.appended crc32 dir payload).1.fileSeq = file ∧ bs = []) := by
  obtain ⟨old, hold⟩ := Option.isSome_iff_exists.mp h.current
  have hbs : dir.get? w.file = some old := by rw [h.handle, hold]
  have hwrite : ∀ k b, (dir.write w.file (Wal.frame crc32 w.nextRecordSeq payload).bytes).get? k =
      some b → (k ≠ w.fileSeq ∧ dir.get? k = some b) ∨
        (k = w.fileSeq ∧ b = old ++ (Wal.frame crc32 w.nextRecordSeq payload).bytes) := by
    intro k b hk
    rw [WalDir.get?_write hbs, h.handle] at hk
    split_ifs at hk with heq
    · cases hk
      exact Or.inr ⟨heq, rfl⟩
    · exact Or.inl ⟨heq, hk⟩
  rw [WalWriter.appended] at hf ⊢
  simp only [Nat.mod_eq_of_lt hnext] at hf ⊢
  split_ifs at hf ⊢ with hrot
  · rw [WalDir.get?_create] at hf
    split_ifs at hf with heq
    · -- there was no file past the last one
      have hnone : (dir.write w.file
          (Wal.frame crc32 w.nextRecordSeq payload).bytes).get? (w.fileSeq + 1) = none := by
        by_contra hsome
        obtain ⟨b, hb⟩ := Option.ne_none_iff_exists'.mp hsome
        rcases hwrite _ _ hb with ⟨-, hold'⟩ | ⟨heq', -⟩
        · have hmem : w.fileSeq + 1 ∈ dir.keys :=
            SortedMap.contains_iff_mem_keys.mp (by rw [SortedMap.contains, hold']; rfl)
          have := h.last _ hmem
          omega
        · omega
      rw [hnone] at hf
      cases hf
      exact Or.inr (Or.inr ⟨heq, heq.symm, rfl⟩)
    · rcases hwrite _ _ hf with hl | ⟨hk, hb⟩
      · exact Or.inl hl
      · exact Or.inr (Or.inl ⟨hk, old, hold, hb⟩)
  · rcases hwrite _ _ hf with hl | ⟨hk, hb⟩
    · exact Or.inl hl
    · exact Or.inr (Or.inl ⟨hk, old, hold, hb⟩)

/-- What reading clean files one after the other makes of the next number `n`: it ends past every
record of the files, and is `n` still or one past some record. -/
theorem foldl_scanMaxRecordSeq (l : List Bytes) {n : ℕ} (hn : 0 < n)
    (hclean : ∀ bs ∈ l, Wal.Clean crc32 bs)
    (hl : ∀ bs ∈ l, ∀ r ∈ Wal.fileRecords crc32 bs, r.recordSeq + 1 < u64Size) {N : ℕ}
    (hN : l.foldl (fun next bs =>
      let m := Wal.scanMaxRecordSeq bs
      if (m + 1) % u64Size > next then (m + 1) % u64Size else next) n = N) :
    n ≤ N ∧ (∀ bs ∈ l, ∀ r ∈ Wal.fileRecords crc32 bs, r.recordSeq < N) ∧
      (N = n ∨ ∃ bs ∈ l, ∃ r ∈ Wal.fileRecords crc32 bs, r.recordSeq + 1 = N) := by
  induction l generalizing n with
  | nil =>
    subst hN
    simp
  | cons bs l ih =>
    have hbs := hclean bs (List.mem_cons_self ..)
    have hmax : ∀ r ∈ Wal.fileRecords crc32 bs, r.recordSeq ≤ Wal.scanMaxRecordSeq bs :=
      hbs.scanMaxRecordSeq_le_iff.mp le_rfl
    have hfound := hbs.exists_scanMaxRecordSeq
    have hsmall : Wal.scanMaxRecordSeq bs + 1 < u64Size := by
      rcases hfound with h0 | ⟨r, hr, hrm⟩
      · rw [h0]
        decide
      · rw [← hrm]
        exact hl bs (List.mem_cons_self ..) r hr
    rw [List.foldl_cons] at hN
    simp only [Nat.mod_eq_of_lt hsmall] at hN
    obtain ⟨hle, hall, hex⟩ := ih (by split_ifs <;> omega)
      (fun b hb => hclean b (List.mem_cons_of_mem _ hb))
      (fun b hb => hl b (List.mem_cons_of_mem _ hb)) hN
    have hn' : n ≤ if Wal.scanMaxRecordSeq bs + 1 > n then Wal.scanMaxRecordSeq bs + 1
      else n := by
      split_ifs <;> omega
    have hm' : Wal.scanMaxRecordSeq bs + 1 ≤
        if Wal.scanMaxRecordSeq bs + 1 > n then Wal.scanMaxRecordSeq bs + 1 else n := by
      split_ifs <;> omega
    refine ⟨hn'.trans hle, fun b hb r hr => ?_, ?_⟩
    · rcases List.mem_cons.mp hb with rfl | hb
      · have := hmax r hr
        omega
      · exact hall b hb r hr
    · rcases hex with hN | ⟨b, hb, r, hr, hrN⟩
      · split_ifs at hN with hgt
        · rcases hfound with h0 | ⟨r, hr, hrm⟩
          · omega
          · exact Or.inr ⟨bs, List.mem_cons_self .., r, hr, by omega⟩
        · exact Or.inl hN
      · exact Or.inr ⟨b, List.mem_cons_of_mem _ hb, r, hr, hrN⟩

/-- **The next number after opening an intact log** is past every number in it, and no further
than it has to be. -/
theorem nextRecordSeq_openWithRotation (hi : Wal.Intact crc32 dir)
    (hlt : ∀ r ∈ dir.records crc32, r.recordSeq + 1 < u64Size) (rotationBytes : ℕ) :
    (∀ r ∈ dir.records crc32,
        r.recordSeq < (openWithRotation dir rotationBytes).1.nextRecordSeq) ∧
      ((openWithRotation dir rotationBytes).1.nextRecordSeq = 1 ∨
        ∃ r ∈ dir.records crc32,
          r.recordSeq + 1 = (openWithRotation dir rotationBytes).1.nextRecordSeq) ∧
      0 < (openWithRotation dir rotationBytes).1.nextRecordSeq := by
  obtain ⟨hle, hall, hex⟩ := foldl_scanMaxRecordSeq dir.values Nat.one_pos
    (fun bs hbs => hi.clean_of_mem_values hbs)
    (fun bs hbs r hr => hlt r (List.mem_flatMap.mpr ⟨bs, hbs, hr⟩)) rfl
  refine ⟨fun r hr => ?_, hex.imp id ?_, hle⟩
  · obtain ⟨bs, hbs, hr⟩ := List.mem_flatMap.mp hr
    exact hall bs hbs r hr
  · rintro ⟨bs, hbs, r, hr, hrN⟩
    exact ⟨r, List.mem_flatMap.mpr ⟨bs, hbs, hr⟩, hrN⟩

end WalWriter

namespace CleanLog

/-! ### The life of a log -/

/-- A log, its writer, and the records whose append has returned, in order. -/
structure State where
  /-- The writer. -/
  writer : WalWriter
  /-- The files. -/
  dir : WalDir
  /-- The records whose append has returned. -/
  acked : List WalRecord

/-- What is done with a log. -/
inductive Action where
  /-- A payload is appended. -/
  | append (payload : Bytes)
  /-- The log is truncated. -/
  | truncateThrough (flushedThroughSeq : ℕ)
  /-- The log is closed and opened again. -/
  | reopen (rotationBytes : ℕ)
  deriving DecidableEq

variable (crc32 : Bytes → UInt32)

/-- Where an action leads. -/
def step (s : State) : Action → State
  | .append payload =>
    match s.writer.append crc32 .ok s.dir payload with
    | (.ok recordSeq, written) => ⟨written.1, written.2, s.acked ++ [⟨recordSeq, payload⟩]⟩
    | (.error _, written) => ⟨written.1, written.2, s.acked⟩
  | .truncateThrough flushedThroughSeq =>
    { s with dir := s.writer.truncateThrough s.dir flushedThroughSeq }
  | .reopen rotationBytes =>
    { s with
      writer := (WalWriter.openWithRotation s.dir rotationBytes).1
      dir := (WalWriter.openWithRotation s.dir rotationBytes).2 }

/-- A log opened where there was none. -/
def start (rotationBytes : ℕ) : State where
  writer := (WalWriter.openWithRotation .empty rotationBytes).1
  dir := (WalWriter.openWithRotation .empty rotationBytes).2
  acked := []

/-- The log after a list of actions. -/
def run (rotationBytes : ℕ) (acts : List Action) : State :=
  acts.foldl (step crc32) (start rotationBytes)

/-- The payload an action appends, if its length fits the header. -/
def Action.payload? : Action → Option Bytes
  | .append payload => if payload.length < u32Size then some payload else none
  | _ => none

/-- The payloads a run appends. -/
def payloads (acts : List Action) : List Bytes := acts.filterMap Action.payload?

variable {crc32} {s : State} {n : ℕ}

theorem step_append {payload : Bytes} (hp : payload.length < u32Size) :
    step crc32 s (.append payload) =
      ⟨(s.writer.appended crc32 s.dir payload).1, (s.writer.appended crc32 s.dir payload).2,
        s.acked ++ [⟨s.writer.nextRecordSeq, payload⟩]⟩ := by
  rw [step, WalWriter.append_ok hp]

theorem step_append_tooLarge {payload : Bytes} (hp : ¬payload.length < u32Size) :
    step crc32 s (.append payload) = s := by
  rw [step, WalWriter.append_tooLarge hp]

theorem run_concat (rotationBytes : ℕ) (acts : List Action) (a : Action) :
    run crc32 rotationBytes (acts ++ [a]) = step crc32 (run crc32 rotationBytes acts) a := by
  rw [run, List.foldl_append]
  rfl

/-! ### What a log is like -/

variable (crc32) in
/-- What the life of a log keeps, `n` appends into it: the files are clean, their numbers ascend
below the next one, the files that are not the current one have records, and if there is a record
at all the last number given out is in the log – in the current file, if that has any. -/
structure Inv (n : ℕ) (s : State) : Prop where
  /-- The writer is on the last file. -/
  onLast : s.writer.OnLast s.dir
  /-- Every file reads cleanly to its end. -/
  intact : Wal.Intact crc32 s.dir
  /-- The numbers ascend through the files. -/
  ascending : (s.dir.records crc32).Pairwise fun r r' => r.recordSeq < r'.recordSeq
  /-- Every number in the log is below the next one. -/
  below : ∀ r ∈ s.dir.records crc32, r.recordSeq < s.writer.nextRecordSeq
  /-- Number 0 is not given out. -/
  pos : 0 < s.writer.nextRecordSeq
  /-- There are no more numbers than appends. -/
  next_le : s.writer.nextRecordSeq ≤ n + 1
  /-- There are no more rotations than appends. -/
  fileSeq_le : s.writer.fileSeq ≤ n
  /-- Only the current file can be empty. -/
  nonempty : ∀ file bs, s.dir.get? file = some bs → file ≠ s.writer.fileSeq →
    Wal.fileRecords crc32 bs ≠ []
  /-- If the current file has a record, it has the last one. -/
  latest : ∀ bs, s.dir.get? s.writer.fileSeq = some bs → Wal.fileRecords crc32 bs ≠ [] →
    ∃ r ∈ Wal.fileRecords crc32 bs, r.recordSeq + 1 = s.writer.nextRecordSeq
  /-- If the log has a record, it has the last one. -/
  last : s.dir.records crc32 = [] ∨
    ∃ r ∈ s.dir.records crc32, r.recordSeq + 1 = s.writer.nextRecordSeq

theorem Inv.inOrder (h : Inv crc32 n s) : s.writer.InOrder s.dir where
  handle := h.onLast.handle
  current := h.onLast.current
  boundary := fun file bs hf => (h.intact file bs hf).1
  seq_lt := h.onLast.seq_lt

theorem mem_records_of_file {dir : WalDir} {file : ℕ} {bs : Bytes} (hf : dir.get? file = some bs)
    {r : WalRecord} (hr : r ∈ Wal.fileRecords crc32 bs) : r ∈ dir.records crc32 :=
  WalDir.mem_records.mpr ⟨file, bs, hf, hr⟩

theorem get?_start {rotationBytes file : ℕ} {bs : Bytes}
    (hf : (start rotationBytes).dir.get? file = some bs) :
    file = (start rotationBytes).writer.fileSeq ∧ bs = [] := by
  simp only [start, WalWriter.openWithRotation, WalDir.get?_create] at hf
  split_ifs at hf with hk
  · cases hf
    exact ⟨hk, rfl⟩
  · cases hf

theorem records_start (rotationBytes : ℕ) : (start rotationBytes).dir.records crc32 = [] := by
  refine List.eq_nil_iff_forall_not_mem.mpr fun r hr => ?_
  obtain ⟨file, bs, hf, hr⟩ := WalDir.mem_records.mp hr
  rw [(get?_start hf).2, Wal.fileRecords_nil] at hr
  cases hr

theorem inv_start (rotationBytes : ℕ) : Inv crc32 0 (start rotationBytes) := by
  have hrecords : (start rotationBytes).dir.records crc32 = [] := records_start rotationBytes
  refine ⟨WalWriter.onLast_openWithRotation .empty rotationBytes, fun file bs hf => ?_, ?_, ?_,
    Nat.one_pos, le_rfl, le_rfl, fun file bs hf hne => ?_, fun bs hf hne => ?_, Or.inl hrecords⟩
  · rw [(get?_start hf).2]
    exact Wal.clean_nil
  · rw [hrecords]
    exact List.Pairwise.nil
  · simp [hrecords]
  · exact absurd (get?_start hf).1 hne
  · rw [(get?_start hf).2, Wal.fileRecords_nil] at hne
    exact absurd rfl hne

/-- An append keeps a log regular, as long as there is a number left. -/
theorem Inv.append (h : Inv crc32 n s) (hn : n + 2 < u64Size) {payload : Bytes}
    (hp : payload.length < u32Size) : Inv crc32 (n + 1) (step crc32 s (.append payload)) := by
  have hfile : s.writer.fileSeq + 1 < u64Size := by
    have := h.fileSeq_le
    omega
  have hnext : s.writer.nextRecordSeq + 1 < u64Size := by
    have := h.next_le
    omega
  have hrecords := h.onLast.records_appended h.intact hfile hp
  have hseq : (s.writer.appended crc32 s.dir payload).1.nextRecordSeq =
      s.writer.nextRecordSeq + 1 := by
    rw [WalWriter.nextRecordSeq_appended, Nat.mod_eq_of_lt hnext]
  have hfileSeq : (s.writer.appended crc32 s.dir payload).1.fileSeq = s.writer.fileSeq ∨
      (s.writer.appended crc32 s.dir payload).1.fileSeq = s.writer.fileSeq + 1 := by
    rw [WalWriter.appended]
    simp only [Nat.mod_eq_of_lt hfile]
    split_ifs
    · exact Or.inr rfl
    · exact Or.inl rfl
  have hcurrent : ∀ old, s.dir.get? s.writer.fileSeq = some old →
      Wal.fileRecords crc32 (old ++ (Wal.frame crc32 s.writer.nextRecordSeq payload).bytes) =
        Wal.fileRecords crc32 old ++ [⟨s.writer.nextRecordSeq, payload⟩] := fun old hold =>
    Wal.fileRecords_append_frame (h.intact _ old hold).1 hp h.onLast.seq_lt
  rw [step_append hp]
  refine ⟨h.onLast.appended hfile payload, h.intact.appended h.inOrder hp, ?_, ?_, ?_, ?_, ?_, ?_,
    ?_, ?_⟩
  · rw [hrecords]
    refine List.pairwise_append.mpr ⟨h.ascending, List.pairwise_singleton .., fun r hr r' hr' => ?_⟩
    rw [List.mem_singleton.mp hr']
    exact h.below r hr
  · intro r hr
    simp only [hrecords, hseq] at hr ⊢
    rcases List.mem_append.mp hr with hr | hr
    · exact (h.below r hr).trans (Nat.lt_succ_self _)
    · rw [List.mem_singleton.mp hr]
      exact Nat.lt_succ_self _
  · simp only [hseq]
    exact Nat.succ_pos _
  · simp only [hseq]
    have := h.next_le
    omega
  · have := h.fileSeq_le
    simp only
    omega
  · intro file bs hf hne
    rcases h.onLast.get?_appended hfile hf with ⟨hk, hold⟩ | ⟨-, old, hold, rfl⟩ | ⟨-, heq, -⟩
    · exact h.nonempty file bs hold hk
    · rw [hcurrent old hold]
      simp
    · exact absurd heq.symm hne
  · intro bs hf hne
    simp only [hseq]
    rcases h.onLast.get?_appended hfile hf with ⟨hk, -⟩ | ⟨-, old, hold, rfl⟩ | ⟨-, -, rfl⟩
    · -- the current file is the old one or the new one
      rcases hfileSeq with heq | heq
      · exact absurd heq hk
      · rw [heq] at hf
        rcases h.onLast.get?_appended hfile hf with ⟨-, hold⟩ | ⟨hk', -⟩ | ⟨-, -, rfl⟩
        · have hmem : s.writer.fileSeq + 1 ∈ s.dir.keys :=
            SortedMap.contains_iff_mem_keys.mp (by rw [SortedMap.contains, hold]; rfl)
          have := h.onLast.last _ hmem
          omega
        · omega
        · exact absurd Wal.fileRecords_nil hne
    · rw [hcurrent old hold]
      exact ⟨_, List.mem_append_right _ (List.mem_singleton_self _), rfl⟩
    · exact absurd Wal.fileRecords_nil hne
  · refine Or.inr ⟨⟨s.writer.nextRecordSeq, payload⟩, ?_, hseq.symm⟩
    simp only [hrecords]
    exact List.mem_append_right _ (List.mem_singleton_self _)

/-- A truncation keeps a log regular: it removes either no file with the last number, or all the
files but the current one. -/
theorem Inv.truncateThrough (h : Inv crc32 n s) (through : ℕ) :
    Inv crc32 n (step crc32 s (.truncateThrough through)) := by
  have hget : ∀ {file bs}, (s.writer.truncateThrough s.dir through).get? file = some bs →
      s.dir.get? file = some bs := fun hf => (WalWriter.get?_truncateThrough.mp hf).1
  have hsub : ((s.writer.truncateThrough s.dir through).records crc32).Sublist
      (s.dir.records crc32) := by
    simp only [WalDir.records, SortedMap.values, WalWriter.truncateThrough, SortedMap.filter]
    exact (List.filter_sublist.map _).flatMap _
  change Inv crc32 n { s with dir := s.writer.truncateThrough s.dir through }
  refine ⟨⟨h.onLast.handle, (h.inOrder.truncateThrough through).current, fun k hk => ?_,
    h.onLast.seq_lt⟩, fun file bs hf => h.intact file bs (hget hf), h.ascending.sublist hsub,
    fun r hr => h.below r (hsub.subset hr), h.pos, h.next_le, h.fileSeq_le,
    fun file bs hf hne => h.nonempty file bs (hget hf) hne, fun bs hf hne =>
      h.latest bs (hget hf) hne,
    ?_⟩
  · obtain ⟨bs, hbs⟩ := Option.isSome_iff_exists.mp (SortedMap.contains_iff_mem_keys.mpr hk)
    exact h.onLast.last k (SortedMap.contains_iff_mem_keys.mp (by
      rw [SortedMap.contains, hget hbs]; rfl))
  · rcases h.last with hnil | ⟨r, hr, hrn⟩
    · refine Or.inl (List.sublist_nil.mp ?_)
      rw [← hnil]
      exact hsub
    · obtain ⟨bs, hbs⟩ := Option.isSome_iff_exists.mp (h.inOrder.truncateThrough through).current
      by_cases hcur : Wal.fileRecords crc32 bs = []
      · rcases WalWriter.mem_records_truncateThrough (s := through) hr with hr' | ⟨e, he, hre⟩
        · exact Or.inr ⟨r, hr', hrn⟩
        · -- the last number is gone, so every other file is, and the current one has no record
          obtain ⟨hfile, -, hmax⟩ := WalWriter.mem_removed.mp he
          have hle := (h.intact _ _ hfile).scanMaxRecordSeq_le_iff.mp hmax r hre
          refine Or.inl (List.eq_nil_iff_forall_not_mem.mpr fun r' hr' => ?_)
          obtain ⟨file', bs', hf', hr'⟩ := WalDir.mem_records.mp hr'
          by_cases hk : file' = s.writer.fileSeq
          · simp only [hk, hbs] at hf'
            cases hf'
            rw [hcur] at hr'
            cases hr'
          · refine (WalWriter.get?_truncateThrough.mp hf').2
              (WalWriter.mem_removed.mpr ⟨hget hf', hk, ?_⟩)
            refine (h.intact _ _ (hget hf')).scanMaxRecordSeq_le_iff.mpr fun r'' hr'' => ?_
            have := h.below r'' (mem_records_of_file (hget hf') hr'')
            omega
      · obtain ⟨r', hr', hrn'⟩ := h.latest bs (hget hbs) hcur
        exact Or.inr ⟨r', mem_records_of_file hbs hr', hrn'⟩

/-- Opening a log again keeps it regular; if no record is left the numbers start over. -/
theorem Inv.reopen (h : Inv crc32 n s) (hn : n + 1 < u64Size) (rotationBytes : ℕ) :
    Inv crc32 n (step crc32 s (.reopen rotationBytes)) ∧
      ((step crc32 s (.reopen rotationBytes)).writer.nextRecordSeq = s.writer.nextRecordSeq ∨
        s.dir.records crc32 = []) := by
  obtain ⟨hfile, hdir⟩ := h.onLast.openWithRotation rotationBytes
  have hon := WalWriter.onLast_openWithRotation s.dir rotationBytes
  obtain ⟨hbelow, hex, hpos⟩ := WalWriter.nextRecordSeq_openWithRotation h.intact (fun r hr => by
    have := h.below r hr
    have := h.next_le
    omega) rotationBytes
  -- either a record is left, and then the last one, or the numbers start over
  have hnext : (s.dir.records crc32 = [] ∧
        (WalWriter.openWithRotation s.dir rotationBytes).1.nextRecordSeq = 1) ∨
      (WalWriter.openWithRotation s.dir rotationBytes).1.nextRecordSeq =
        s.writer.nextRecordSeq := by
    rcases h.last with hnil | ⟨r, hr, hrn⟩
    · rw [hnil] at hex
      exact Or.inl ⟨hnil, by simpa using hex⟩
    · refine Or.inr (le_antisymm ?_ ?_)
      · have := h.pos
        rcases hex with h1 | ⟨r', hr', hrn'⟩
        · omega
        · have := h.below r' hr'
          omega
      · have := hbelow r hr
        omega
  change Inv crc32 n ⟨_, _, s.acked⟩ ∧ _
  rw [hdir] at hon ⊢
  refine ⟨⟨hon, h.intact, h.ascending, hbelow, hpos, ?_, ?_, fun file bs hf hne => ?_,
    fun bs hf hne => ?_, ?_⟩, ?_⟩
  · have := h.next_le
    rcases hnext with ⟨-, heq⟩ | heq <;> simp only [heq] <;> omega
  · simp only [hfile]
    exact h.fileSeq_le
  · exact h.nonempty file bs hf (by rwa [← hfile])
  · simp only [hfile] at hf
    obtain ⟨r, hr, hrn⟩ := h.latest bs hf hne
    rcases hnext with ⟨hnil, -⟩ | heq
    · have := mem_records_of_file hf hr
      rw [hnil] at this
      cases this
    · exact ⟨r, hr, hrn.trans heq.symm⟩
  · rcases hnext with ⟨hnil, -⟩ | heq
    · exact Or.inl hnil
    · simp only [heq]
      exact h.last
  · rcases hnext with ⟨hnil, -⟩ | heq
    · exact Or.inr hnil
    · exact Or.inl heq

theorem payloads_concat (acts : List Action) (a : Action) :
    payloads (acts ++ [a]) = payloads acts ++ a.payload?.toList := by
  rw [payloads, payloads, List.filterMap_append]
  rcases h : a.payload? with _ | p
  · simp [h]
  · simp [h]

/-- **The life of a log keeps it regular**, for fewer appends than there are numbers. -/
theorem inv_run (rotationBytes : ℕ) {acts : List Action}
    (hn : (payloads acts).length + 1 < u64Size) :
    Inv crc32 (payloads acts).length (run crc32 rotationBytes acts) := by
  induction acts using List.reverseRecOn with
  | nil => exact inv_start rotationBytes
  | append_singleton acts a ih =>
    rw [payloads_concat, List.length_append] at hn ⊢
    have ih := ih (by omega)
    rw [run_concat]
    cases a with
    | append payload =>
      by_cases hp : payload.length < u32Size
      · simp only [Action.payload?, hp, if_true, Option.toList_some, List.length_singleton]
          at hn ⊢
        exact ih.append hn hp
      · simp only [Action.payload?, hp, if_false]
        rw [step_append_tooLarge hp]
        exact ih
    | truncateThrough through => exact ih.truncateThrough through
    | reopen rotationBytes => exact (ih.reopen (by omega) rotationBytes).1

end CleanLog

end Skaldberg
