import Skaldberg.Ingest.CleanLog
import Skaldberg.Ingest.Encoding

/-!
# Appends that fail

An append that fails takes nothing back. What it has written stays at the end of the file, and the
next append, through the same handle, goes behind it:

* a write that stops short leaves the first bytes of a frame, and the frames behind are read from
  inside it;
* a failed sync leaves a whole frame under a number that the next append uses again;
* a failed rotation leaves a whole frame, counted and synced.

So `FailedAppend.allOrNothing_iff`: the only failed append a log survives, whatever is appended
behind it, is one that wrote nothing.
-/

namespace Skaldberg

namespace FailedAppend

open CleanLog (State Action Inv run step payloads)

variable (crc32 : Bytes → UInt32)

/-- The records of an iteration that stops at the first error. -/
def yielded (dir : WalDir) : List WalRecord := Wal.okPrefix (WalIter.items crc32 dir)

/-- The log behind an append whose file operations go as given. -/
def attempt (io : AppendIo) (s : State) (payload : Bytes) : State :=
  { s with
    writer := (s.writer.append crc32 io s.dir payload).2.1
    dir := (s.writer.append crc32 io s.dir payload).2.2 }

/-- The log behind successful appends. -/
def appendAll (s : State) (ps : List Bytes) : State := (ps.map Action.append).foldl (step crc32) s

/-- An iteration yields the records there were and the payloads appended since, under distinct
numbers. -/
def AllOrNothing (before : List WalRecord) (ps : List Bytes) (dir : WalDir) : Prop :=
  (yielded crc32 dir).map WalRecord.payload = before.map WalRecord.payload ++ ps ∧
    ((yielded crc32 dir).map WalRecord.recordSeq).Nodup

instance (before : List WalRecord) (ps : List Bytes) (dir : WalDir) :
    Decidable (AllOrNothing crc32 before ps dir) :=
  inferInstanceAs (Decidable (_ ∧ ((yielded crc32 dir).map WalRecord.recordSeq).Nodup))

variable {crc32} {s : State} {n : ℕ} {payload : Bytes} {io : AppendIo}

theorem yielded_of_intact {dir : WalDir} (h : Wal.Intact crc32 dir) :
    yielded crc32 dir = dir.records crc32 := by
  rw [yielded, WalIter.items_eq]
  exact h.readable_eq

/-! ### Successful appends -/

/-- Successful appends add their payloads to a regular log, which stays regular. -/
theorem appendAll_spec (h : Inv crc32 n s) {ps : List Bytes} (hps : ∀ p ∈ ps, p.length < u32Size)
    (hn : n + ps.length + 1 < u64Size) :
    Inv crc32 (n + ps.length) (appendAll crc32 s ps) ∧
      ((appendAll crc32 s ps).dir.records crc32).map WalRecord.payload =
        (s.dir.records crc32).map WalRecord.payload ++ ps := by
  induction ps generalizing n s with
  | nil => exact ⟨h, by simp [appendAll]⟩
  | cons p ps ih =>
    have hp := hps p (List.mem_cons_self ..)
    rw [List.length_cons] at hn ⊢
    have hfile := h.fileSeq_le
    obtain ⟨hinv, hrec⟩ := ih (h.append (by omega) hp)
      (fun q hq => hps q (List.mem_cons_of_mem p hq)) (by omega)
    refine ⟨?_, ?_⟩
    · rw [Nat.add_comm ps.length 1, ← Nat.add_assoc]
      exact hinv
    · refine Eq.trans hrec ?_
      rw [CleanLog.step_append hp, h.onLast.records_appended h.intact (by omega) hp]
      simp

/-- A regular log yields its records, under distinct numbers. -/
theorem allOrNothing_of_inv (h : Inv crc32 n s) {before : List WalRecord} {ps : List Bytes}
    (hrec : (s.dir.records crc32).map WalRecord.payload = before.map WalRecord.payload ++ ps) :
    AllOrNothing crc32 before ps s.dir := by
  rw [AllOrNothing, yielded_of_intact h.intact]
  exact ⟨hrec, (List.pairwise_map.mpr h.ascending).imp ne_of_lt⟩

/-! ### What a failed append leaves -/

/-- **What a failed append leaves**: some bytes of the frame, or all of it. -/
theorem attempt_error (hfail : (s.writer.append crc32 io s.dir payload).1 = .error .io) :
    payload.length < u32Size ∧
      ((∃ k, io.write = some k ∧
          (attempt crc32 io s payload).writer = s.writer ∧
          (attempt crc32 io s payload).dir = s.dir.write s.writer.file
            ((Wal.frame crc32 s.writer.nextRecordSeq payload).bytes.take k)) ∨
        io.write = none ∧ (attempt crc32 io s payload).dir = s.dir.write s.writer.file
          (Wal.frame crc32 s.writer.nextRecordSeq payload).bytes) := by
  by_cases hp : payload.length < u32Size
  · have hlen : ¬payload.length > u32Size - 1 := by omega
    refine ⟨hp, ?_⟩
    rcases io with ⟨_ | k, sync, rotate⟩
    · refine Or.inr ⟨rfl, ?_⟩
      rw [attempt]
      simp only [WalWriter.append, hlen, if_false, WalWriter.rotate] at hfail ⊢
      rcases sync with _ | _
      · rfl
      · simp only [Bool.not_true, Bool.false_eq_true, if_false] at hfail ⊢
        split_ifs at hfail ⊢
        · rfl
    · refine Or.inl ⟨k, rfl, ?_⟩
      simp only [attempt, WalWriter.append, hlen, if_false, and_self]
  · rw [WalWriter.append_tooLarge hp] at hfail
    cases hfail

theorem write_nil (dir : WalDir) (file : ℕ) : dir.write file [] = dir := by
  refine SortedMap.ext_get? fun k => ?_
  rcases hbs : dir.get? file with _ | bs
  · rw [WalDir.write, hbs]
  · rw [WalDir.get?_write hbs]
    split_ifs with hk
    · rw [hk, hbs, List.append_nil]
    · rfl

theorem write_write {dir : WalDir} {file : ℕ} {bs a b : Bytes} (hbs : dir.get? file = some bs) :
    (dir.write file a).write file b = dir.write file (a ++ b) := by
  have hself : (dir.write file a).get? file = some (bs ++ a) := by
    rw [WalDir.get?_write hbs, if_pos rfl]
  refine SortedMap.ext_get? fun k => ?_
  rw [WalDir.get?_write hself, WalDir.get?_write hbs, WalDir.get?_write hbs, List.append_assoc]
  split_ifs <;> rfl

/-- A whole frame is a record that nobody was promised. -/
theorem not_allOrNothing_of_frame (h : Inv crc32 n s) (hp : payload.length < u32Size) :
    ¬AllOrNothing crc32 (s.dir.records crc32) []
      (s.dir.write s.writer.file (Wal.frame crc32 s.writer.nextRecordSeq payload).bytes) := by
  rintro ⟨hpayloads, -⟩
  rw [yielded_of_intact (h.intact.write _ hp h.onLast.seq_lt), h.onLast.records_write h.intact hp]
    at hpayloads
  have hlen := congrArg List.length hpayloads
  simp at hlen

/-! ### Behind a torn frame -/

/-- What an append behind other bytes is read as: the records there were, and whatever those bytes
and its frame spell together. -/
theorem yielded_behind (h : Inv crc32 n s) (hn : n + 1 < u64Size) (torn p : Bytes) :
    yielded crc32 (s.writer.appended crc32 (s.dir.write s.writer.file torn) p).2 =
      s.dir.records crc32 ++ Wal.okPrefix (Wal.fileItems crc32
        (torn ++ (Wal.frame crc32 s.writer.nextRecordSeq p).bytes)) := by
  obtain ⟨files, bs, hbs, hfiles, hwrite⟩ := h.onLast.values
  have hfile : s.writer.fileSeq + 1 < u64Size := by
    have := h.fileSeq_le
    omega
  have hclean : ∀ b ∈ files, Wal.Clean crc32 b := fun b hb =>
    h.intact.clean_of_mem_values (hfiles ▸ List.mem_append_left _ hb)
  have htwo : (s.dir.write s.writer.file torn).write s.writer.file
      (Wal.frame crc32 s.writer.nextRecordSeq p).bytes =
        s.dir.write s.writer.file (torn ++ (Wal.frame crc32 s.writer.nextRecordSeq p).bytes) :=
    write_write hbs
  have hvalues := hwrite (torn ++ (Wal.frame crc32 s.writer.nextRecordSeq p).bytes)
  have hread : Wal.readable crc32 (s.dir.write s.writer.file
      (torn ++ (Wal.frame crc32 s.writer.nextRecordSeq p).bytes)) =
        s.dir.records crc32 ++ Wal.okPrefix (Wal.fileItems crc32
          (torn ++ (Wal.frame crc32 s.writer.nextRecordSeq p).bytes)) := by
    rw [Wal.readable_of_clean hvalues hclean, (h.intact _ bs hbs).fileItems_append,
      Wal.okPrefix_map_ok_append, ← List.append_assoc, WalDir.records, hfiles,
      List.flatMap_append, List.flatMap_singleton]
  rw [yielded, WalIter.items_eq]
  refine Eq.trans (Wal.readable_of_values (d := s.dir.write s.writer.file
    (torn ++ (Wal.frame crc32 s.writer.nextRecordSeq p).bytes)) ?_) hread
  rw [WalWriter.appended, htwo]
  simp only [Nat.mod_eq_of_lt hfile]
  split_ifs
  · refine (WalDir.values_create fun k hk => ?_).imp id And.right
    exact (h.onLast.last k ((WalDir.mem_keys_write hbs).mp hk)).trans (Nat.le_succ _)
  · exact Or.inl rfl

theorem take_frame (crc32 : Bytes → UInt32) (seq : ℕ) (p : Bytes) {i : ℕ} (hi : i ≤ 4) :
    (Wal.frame crc32 seq p).bytes.take i = (toLe 4 p.length).take i := by
  rw [Frame.bytes, Wal.frame]
  simp only [List.append_assoc]
  exact List.take_append_of_le_length (by simpa using hi)

/-- **The first header behind a torn frame is not that of the next frame**: some payload has
another length than the bytes of the two frames declare. -/
theorem exists_hdrLen_ne {k : ℕ} (hk : 0 < k) (hp : payload.length < u32Size) (seq : ℕ) :
    ∃ p : Bytes, p.length < u32Size ∧
      Wal.hdrLen ((((Wal.frame crc32 seq payload).bytes.take k) ++
        (Wal.frame crc32 seq p).bytes).take headerBytes) ≠ p.length := by
  have htake : ∀ p : Bytes, Wal.hdrLen ((((Wal.frame crc32 seq payload).bytes.take k) ++
      (Wal.frame crc32 seq p).bytes).take headerBytes) =
        fromLe ((((Wal.frame crc32 seq payload).bytes.take k) ++
          (Wal.frame crc32 seq p).bytes).take 4) := by
    intro p
    rw [Wal.hdrLen, List.take_take]
    rfl
  by_cases hfour : 4 ≤ k
  · -- the length is that of the torn frame
    have hlen : ∀ p : Bytes, Wal.hdrLen ((((Wal.frame crc32 seq payload).bytes.take k) ++
        (Wal.frame crc32 seq p).bytes).take headerBytes) = payload.length := by
      intro p
      have hle : 4 ≤ ((Wal.frame crc32 seq payload).bytes.take k).length := by
        rw [List.length_take, Wal.length_frame_bytes, headerBytes]
        omega
      rw [htake, List.take_append_of_le_length hle, List.take_take, Nat.min_eq_left hfour,
        take_frame crc32 seq payload le_rfl, List.take_of_length_le (by simp)]
      exact fromLe_toLe_of_lt (by simpa [u32Size] using hp)
    by_cases hone : payload.length = 1
    · exact ⟨[], by decide, by rw [hlen, hone]; decide⟩
    · exact ⟨[0], by decide, by rw [hlen]; exact hone⟩
  · -- the length of the next frame is shifted up by the bytes of the torn one
    refine ⟨[0], by decide, ?_⟩
    have htorn : ((Wal.frame crc32 seq payload).bytes.take k).length = k := by
      rw [List.length_take, Wal.length_frame_bytes, headerBytes]
      omega
    have hnext : (Wal.frame crc32 seq [0]).bytes.take (4 - k) = (toLe 4 1).take (4 - k) :=
      take_frame crc32 seq [0] (Nat.sub_le 4 k)
    rw [htake, List.take_append, List.take_of_length_le (by omega), htorn, hnext, fromLe_append,
      htorn]
    have hone : 1 ≤ fromLe ((toLe 4 1).take (4 - k)) := by
      obtain rfl | rfl | rfl : k = 1 ∨ k = 2 ∨ k = 3 := by omega
      all_goals decide
    have hpow : 256 ≤ 256 ^ k := Nat.le_self_pow (by omega) 256
    have := Nat.mul_le_mul hpow hone
    simp only [List.length_singleton]
    omega

/-- **A torn frame hides what is appended behind it.** -/
theorem not_allOrNothing_of_torn (h : Inv crc32 n s) (hn : n + 1 < u64Size) {k : ℕ} (hk : 0 < k)
    (hp : payload.length < u32Size) :
    ∃ p : Bytes, p.length < u32Size ∧ ¬AllOrNothing crc32 (s.dir.records crc32) [p]
      (s.writer.appended crc32 (s.dir.write s.writer.file
        ((Wal.frame crc32 s.writer.nextRecordSeq payload).bytes.take k)) p).2 := by
  obtain ⟨p, hpl, hne⟩ := exists_hdrLen_ne hk hp s.writer.nextRecordSeq
  refine ⟨p, hpl, ?_⟩
  rintro ⟨hpayloads, -⟩
  rw [yielded_behind h hn, List.map_append] at hpayloads
  have hone := List.append_cancel_left hpayloads
  obtain ⟨r, rs, hrs, hr, -⟩ := List.map_eq_cons_iff.mp hone
  refine hne ?_
  rw [← Wal.length_payload_of_okPrefix hrs, hr]

/-! ### All or nothing -/

variable (crc32) in
/-- **A failed append is all or nothing exactly when it wrote nothing**: on any log written without
crashes, the records yielded behind it are the ones there were and those appended since, whatever
is appended since, if and only if the write failed before its first byte. -/
theorem allOrNothing_iff (rotationBytes : ℕ) {acts : List Action}
    (hn : (payloads acts).length + 2 < u64Size)
    (hfail : ((run crc32 rotationBytes acts).writer.append crc32 io
      (run crc32 rotationBytes acts).dir payload).1 = .error .io) :
    (∀ ps : List Bytes, (∀ p ∈ ps, p.length < u32Size) →
      (payloads acts).length + ps.length + 1 < u64Size →
      AllOrNothing crc32 ((run crc32 rotationBytes acts).dir.records crc32) ps
        (appendAll crc32 (attempt crc32 io (run crc32 rotationBytes acts) payload) ps).dir) ↔
    io.write = some 0 := by
  have h : Inv crc32 (payloads acts).length (run crc32 rotationBytes acts) :=
    CleanLog.inv_run rotationBytes (by omega)
  obtain ⟨hp, ⟨k, hk, hwriter, hdir⟩ | ⟨hnone, hdir⟩⟩ := attempt_error hfail
  · constructor
    · intro hall
      by_contra hne
      have hpos : 0 < k := Nat.pos_of_ne_zero fun h0 => hne (h0 ▸ hk)
      obtain ⟨p, hpl, hnot⟩ := not_allOrNothing_of_torn h (by omega) hpos hp
      refine hnot ?_
      have := hall [p] (by simpa using hpl) (by simpa using hn)
      rw [appendAll, List.map_singleton, List.foldl_cons, List.foldl_nil,
        CleanLog.step_append hpl, hwriter, hdir] at this
      exact this
    · intro hzero ps hps hlen
      have hsame : attempt crc32 io (run crc32 rotationBytes acts) payload =
          run crc32 rotationBytes acts := by
        have hk0 : k = 0 := by
          rw [hk] at hzero
          exact Option.some.inj hzero
        rw [hk0, List.take_zero, write_nil] at hdir
        have hstate : attempt crc32 io (run crc32 rotationBytes acts) payload =
            { run crc32 rotationBytes acts with
              writer := (attempt crc32 io (run crc32 rotationBytes acts) payload).writer
              dir := (attempt crc32 io (run crc32 rotationBytes acts) payload).dir } := rfl
        rw [hstate, hwriter, hdir]
      rw [hsame]
      obtain ⟨hinv, hrec⟩ := appendAll_spec h hps hlen
      exact allOrNothing_of_inv hinv hrec
  · constructor
    · intro hall
      have := hall [] (by simp) (by rw [List.length_nil]; omega)
      rw [appendAll, List.map_nil, List.foldl_nil, hdir] at this
      exact absurd this (not_allOrNothing_of_frame h hp)
    · intro hzero
      rw [hnone] at hzero
      cases hzero

section Instances

/-- One append, which does not fill its file. -/
def oneAppend : List Action := [.append [1, 2]]

set_option maxRecDepth 100000 in
/-- A write that fails before its first byte, and two appends behind it. -/
theorem allOrNothing_iff_nothing_written :
    AllOrNothing Encoding.crc32 ((run Encoding.crc32 40 oneAppend).dir.records Encoding.crc32)
      [[4], [5]] (appendAll Encoding.crc32 (attempt Encoding.crc32 ⟨some 0, true, true⟩
        (run Encoding.crc32 40 oneAppend) [3]) [[4], [5]]).dir :=
  (allOrNothing_iff Encoding.crc32 40 (by decide) (by decide +kernel)).mpr rfl
    [[4], [5]] (by decide)
    (by decide)

set_option maxRecDepth 100000 in
/-- **Each way of failing breaks it**: three bytes of a frame hide the record behind them, a frame
whose sync failed leaves its number to the next one, and a frame whose rotation failed is
yielded. -/
theorem failed_appends_seen :
    ¬AllOrNothing Encoding.crc32 [] [[1]] (appendAll Encoding.crc32
        (attempt Encoding.crc32 ⟨some 3, true, true⟩ (run Encoding.crc32 40 []) [104, 105])
        [[1]]).dir ∧
    ¬AllOrNothing Encoding.crc32 [] [[1]] (appendAll Encoding.crc32
        (attempt Encoding.crc32 ⟨none, false, true⟩ (run Encoding.crc32 40 []) [104, 105])
        [[1]]).dir ∧
    ¬AllOrNothing Encoding.crc32 [] [[1]] (appendAll Encoding.crc32
        (attempt Encoding.crc32 ⟨none, true, false⟩ (run Encoding.crc32 17 []) [104, 105])
        [[1]]).dir := by
  decide +kernel

end Instances

end FailedAppend

end Skaldberg
