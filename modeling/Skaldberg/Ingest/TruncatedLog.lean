import Skaldberg.Ingest.CleanLog
import Skaldberg.Ingest.Encoding

/-!
# Reading a log cut short

A log written without crashes, and never truncated by its writer, holds the payloads that were
appended under the numbers 1, 2, 3, … (`TruncatedLog.records_run`), over however many files and
re-opens. Cut any number of bytes off its last file that has any, and an iteration still yields
the records that fit into what remains, and then at most one error: that is
`TruncatedLog.items_cut`.

Where the cut falls – inside a header, inside a payload, on a boundary – decides only whether there
is an error, because a frame cut short is not read at all.
-/

namespace Skaldberg

namespace TruncatedLog

open CleanLog (Action Inv run step payloads)

/-- The bytes a record takes in the log. -/
def recordBytes (r : WalRecord) : ℕ := headerBytes + r.payload.length

/-- Payloads numbered from 1. -/
def numbered (ps : List Bytes) : List WalRecord := ps.mapIdx fun i p => ⟨i + 1, p⟩

/-- The bytes of all the files of a log. -/
def logBytes (dir : WalDir) : ℕ := (dir.values.map List.length).sum

/-- The log with `n` bytes cut from the end of a file. -/
def cut (dir : WalDir) (file n : ℕ) : WalDir :=
  match dir.get? file with
  | some bs => dir.insert file (bs.take (bs.length - n))
  | none => dir

/-- A file with no byte in any file behind it. -/
def LastNonempty (dir : WalDir) (file : ℕ) : Prop := ∀ e ∈ dir.entries, file < e.1 → e.2 = []

instance (dir : WalDir) (file : ℕ) : Decidable (LastNonempty dir file) :=
  inferInstanceAs (Decidable (∀ e ∈ dir.entries, file < e.1 → e.2 = []))

/-- No action truncates the log. -/
def NoTruncation (acts : List Action) : Prop := ∀ n, .truncateThrough n ∉ acts

variable {crc32 : Bytes → UInt32} {dir : WalDir} {bs : Bytes}

/-! ### A clean file cut short -/

theorem length_frame {f : Frame UInt8} (hf : f ∈ Wal.format.frames bs) :
    f.bytes.length = recordBytes (Wal.record f) := by
  rw [Frame.bytes, List.length_append, (Wal.format.wellFormed_of_mem_frames bs f hf).1]
  rfl

theorem encode_frames_of_clean (h : Wal.Clean crc32 bs) :
    Frame.encode (Wal.format.frames bs) = bs := by
  have hbytes := Wal.format.encode_frames_append_leftover bs
  rwa [h.1, List.append_nil] at hbytes

theorem length_of_clean (h : Wal.Clean crc32 bs) :
    bs.length = ((Wal.fileRecords crc32 bs).map recordBytes).sum := by
  have hlen := Frame.length_encode (Wal.format.frames bs)
  rw [encode_frames_of_clean h] at hlen
  rw [hlen, Wal.fileRecords, List.filter_eq_self.mpr h.2, List.map_map]
  exact congrArg List.sum (List.map_congr_left fun f hf => length_frame hf)

/-- **A clean file cut short** yields the records that fit into what remains, and then at most one
torn record. -/
theorem fileItems_take (h : Wal.Clean crc32 bs) (m : ℕ) :
    Wal.fileItems crc32 (bs.take m) =
      (fitting recordBytes m (Wal.fileRecords crc32 bs)).map .ok ++
        Wal.tailItem (Wal.format.leftover (bs.take m)) := by
  have hframes := Wal.format.frames_take_encode (Wal.format.wellFormed_of_mem_frames bs) m
  rw [encode_frames_of_clean h] at hframes
  rw [Wal.fileItems, hframes, Wal.fileRecords, List.filter_eq_self.mpr h.2, fitting_map,
    fitting_congr fun f hf => length_frame hf, List.map_map]
  refine congrArg (· ++ _) (List.map_congr_left fun f hf => ?_)
  exact Wal.frameItem_of_crcOk (h.2 f ((fitting_prefixOf _ _).subset hf))

theorem tailItem_cases (bs : Bytes) :
    Wal.tailItem bs = [] ∨ ∃ seq len, Wal.tailItem bs = [.error (.truncated seq len)] := by
  rw [Wal.tailItem]
  rcases readExact headerBytes bs with _ | ⟨hdr, r⟩
  · exact Or.inl rfl
  · exact Or.inr ⟨_, _, rfl⟩

/-! ### An intact log cut short -/

/-- **An intact log cut short** in its last file that has a byte yields the records that fit into
what remains, and then at most one torn record. -/
theorem dirItems_cut (h : Wal.Intact crc32 dir) {file n : ℕ} (hfile : dir.get? file = some bs)
    (hlast : LastNonempty dir file) (hn : n ≤ bs.length) :
    Wal.dirItems crc32 (cut dir file n) =
      (fitting recordBytes (logBytes dir - n) (dir.records crc32)).map .ok ++
        Wal.tailItem (Wal.format.leftover (bs.take (bs.length - n))) := by
  obtain ⟨a, b, -, hb, hcut, hdir⟩ := dir.upsert_split file fun _ => bs.take (bs.length - n)
  simp only [hfile, Option.toList_some, List.map_cons, List.map_nil] at hdir
  have hclean : ∀ e ∈ a, Wal.Clean crc32 e.2 := fun e he =>
    h e.1 e.2 (SortedMap.get?_eq_some_iff.mpr (by rw [hdir]; simp [he]))
  have hempty : ∀ e ∈ b, e.2 = [] := fun e he =>
    hlast e (by rw [hdir]; simp [he]) (hb e he)
  have hnil : (b.flatMap fun e => Wal.fileItems crc32 e.2) = [] :=
    List.flatMap_eq_nil_iff.mpr fun e he => by rw [hempty e he, Wal.fileItems_nil]
  have hitems : (a.flatMap fun e => Wal.fileItems crc32 e.2) =
      (a.flatMap fun e => Wal.fileRecords crc32 e.2).map .ok := by
    rw [List.map_flatMap]
    exact List.flatMap_congr fun e he => (hclean e he).fileItems_eq
  have hrecords : dir.records crc32 =
      (a.flatMap fun e => Wal.fileRecords crc32 e.2) ++ Wal.fileRecords crc32 bs := by
    have hnone : (b.flatMap fun e => Wal.fileRecords crc32 e.2) = [] :=
      List.flatMap_eq_nil_iff.mpr fun e he => by rw [hempty e he, Wal.fileRecords_nil]
    rw [WalDir.records, SortedMap.values, hdir, List.flatMap_map, List.flatMap_append,
      List.flatMap_append, hnone, List.append_nil, List.flatMap_singleton]
  have hbytes : logBytes dir - n =
      ((a.flatMap fun e => Wal.fileRecords crc32 e.2).map recordBytes).sum + (bs.length - n) := by
    have hzero : (b.map fun e => e.2.length).sum = 0 := by
      have hlen : (b.map fun e => e.2.length) = b.map fun _ => 0 :=
        List.map_congr_left fun e he => by rw [hempty e he, List.length_nil]
      simp [hlen]
    have hsum : (a.map fun e => e.2.length).sum =
        ((a.flatMap fun e => Wal.fileRecords crc32 e.2).map recordBytes).sum := by
      clear hitems hrecords hcut hdir
      induction a with
      | nil => rfl
      | cons e a ih =>
        rw [List.map_cons, List.sum_cons, List.flatMap_cons, List.map_append, List.sum_append,
          length_of_clean (hclean e (List.mem_cons_self ..)),
          ih fun e' he' => hclean e' (List.mem_cons_of_mem e he')]
    rw [logBytes, SortedMap.values, hdir, List.map_map, List.map_append, List.map_append,
      List.sum_append, List.sum_append, ← hsum]
    simp only [Function.comp_def, hzero, List.map_cons, List.map_nil, List.sum_cons, List.sum_nil]
    omega
  rw [hrecords, hbytes, fitting_append, List.map_append, ← hitems, List.append_assoc,
    ← fileItems_take (h file bs hfile), Wal.dirItems, cut, hfile]
  simp only [SortedMap.insert, SortedMap.values, hcut, List.flatMap_map, List.flatMap_append,
    List.flatMap_cons, hnil, List.append_nil]

/-! ### The log of a run -/

theorem numbered_concat (ps : List Bytes) (p : Bytes) :
    numbered (ps ++ [p]) = numbered ps ++ [⟨ps.length + 1, p⟩] := by
  rw [numbered, List.mapIdx_concat]
  rfl

/-- **A log that is never truncated holds what was appended**, numbered from 1. -/
theorem records_run (rotationBytes : ℕ) {acts : List Action} (hacts : NoTruncation acts)
    (hn : (payloads acts).length + 1 < u64Size) :
    (run crc32 rotationBytes acts).dir.records crc32 = numbered (payloads acts) ∧
      (run crc32 rotationBytes acts).writer.nextRecordSeq = (payloads acts).length + 1 := by
  induction acts using List.reverseRecOn with
  | nil => exact ⟨CleanLog.records_start rotationBytes, rfl⟩
  | append_singleton acts a ih =>
    rw [CleanLog.payloads_concat, List.length_append] at hn
    have hinv : Inv crc32 (payloads acts).length (run crc32 rotationBytes acts) :=
      CleanLog.inv_run rotationBytes (by omega)
    obtain ⟨ihrec, ihnext⟩ := ih (fun n hmem => hacts n (List.mem_append_left _ hmem)) (by omega)
    rw [CleanLog.run_concat, CleanLog.payloads_concat]
    cases a with
    | append payload =>
      by_cases hp : payload.length < u32Size
      · simp only [Action.payload?, hp, if_true, Option.toList_some, List.length_singleton]
          at hn ⊢
        have hfile := hinv.fileSeq_le
        rw [CleanLog.step_append hp]
        simp only [hinv.onLast.records_appended hinv.intact (by omega) hp, ihrec, ihnext,
          numbered_concat, List.length_append, List.length_singleton, true_and]
        rw [WalWriter.nextRecordSeq_appended, ihnext, Nat.mod_eq_of_lt (by omega)]
      · simp only [Action.payload?, hp, if_false, Option.toList_none, List.append_nil]
        rw [CleanLog.step_append_tooLarge hp]
        exact ⟨ihrec, ihnext⟩
    | truncateThrough n =>
      exact absurd (List.mem_append_right _ (List.mem_singleton_self _)) (hacts n)
    | reopen rotationBytes' =>
      obtain ⟨hinv', hnext⟩ := hinv.reopen (by omega) rotationBytes'
      simp only [Action.payload?, Option.toList_none, List.append_nil]
      refine ⟨?_, ?_⟩
      · simp only [step, (hinv.onLast.openWithRotation rotationBytes').2]
        exact ihrec
      · rcases hnext with heq | hnil
        · rw [heq, ihnext]
        · -- nothing was appended, so the numbers start over where they were
          rw [ihrec] at hnil
          have hzero : (payloads acts).length = 0 := by
            have := congrArg List.length hnil
            simpa [numbered] using this
          have hpos := hinv'.pos
          have hle := hinv'.next_le
          omega

/-! ### What an iteration finds -/

variable (crc32) in
/-- **An iteration over a log cut short** yields exactly the records that fit into what remains, in
order and numbered from 1, and then ends or reports one torn record and ends: for any payloads, any
re-opens between the appends, any rotation sizes, and any number of bytes cut off the last file
that has any. With nothing cut it yields every record. -/
theorem items_cut (rotationBytes : ℕ) {acts : List Action} (hacts : NoTruncation acts)
    (hn : (payloads acts).length + 1 < u64Size) :
    (∀ file bs n, (run crc32 rotationBytes acts).dir.get? file = some bs →
      LastNonempty (run crc32 rotationBytes acts).dir file → n ≤ bs.length →
      ∃ tail, WalIter.items crc32 (cut (run crc32 rotationBytes acts).dir file n) =
          (fitting recordBytes (logBytes (run crc32 rotationBytes acts).dir - n)
            (numbered (payloads acts))).map .ok ++ tail ∧
        (tail = [] ∨ ∃ seq len, tail = [.error (.truncated seq len)])) ∧
    WalIter.items crc32 (run crc32 rotationBytes acts).dir =
      (numbered (payloads acts)).map .ok := by
  have hintact : Wal.Intact crc32 (run crc32 rotationBytes acts).dir :=
    (CleanLog.inv_run rotationBytes hn).intact
  have hrecords : (run crc32 rotationBytes acts).dir.records crc32 = numbered (payloads acts) :=
    (records_run rotationBytes hacts hn).1
  refine ⟨fun file bs n hfile hlast hle => ?_, ?_⟩
  · refine ⟨_, ?_, tailItem_cases (Wal.format.leftover (bs.take (bs.length - n)))⟩
    rw [WalIter.items_eq, dirItems_cut hintact hfile hlast hle, hrecords]
  · rw [WalIter.items_eq, hintact.dirItems_eq, hrecords]

section Instances

/-- Four payloads, a rotation and a re-open. -/
def fourAppends : List Action :=
  [.append [1, 2], .append [7], .append [3, 4, 5], .reopen 50, .append [9]]

set_option maxRecDepth 100000 in
/-- One byte cut off the second of two files, in the payload of the fourth record. -/
theorem items_cut_one_byte :
    ∃ tail, WalIter.items Encoding.crc32 (cut (run Encoding.crc32 40 fourAppends).dir 1 1) =
        (numbered [[1, 2], [7], [3, 4, 5]]).map .ok ++ tail ∧
      (tail = [] ∨ ∃ seq len, tail = [.error (.truncated seq len)]) := by
  have hacts : NoTruncation fourAppends := by simp [NoTruncation, fourAppends]
  obtain ⟨tail, hitems, htail⟩ := (items_cut Encoding.crc32 40 hacts (by decide +kernel)).1 1
    (Wal.frame Encoding.crc32 4 [9]).bytes 1 (by decide +kernel) (by decide +kernel)
    (by decide +kernel)
  have hfit : fitting recordBytes (logBytes (run Encoding.crc32 40 fourAppends).dir - 1)
      (numbered (payloads fourAppends)) = numbered [[1, 2], [7], [3, 4, 5]] := by
    decide +kernel
  rw [hfit] at hitems
  exact ⟨tail, hitems, htail⟩

end Instances

end TruncatedLog

end Skaldberg
