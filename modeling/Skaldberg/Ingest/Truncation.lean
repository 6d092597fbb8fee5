import Skaldberg.Ingest.CleanLog
import Skaldberg.Ingest.Encoding

/-!
# What a truncation removes

Whether a file goes is decided by a scan of its frames that reads neither payloads nor checksums,
and what a replay yields by an iterator that reads both. The two walk the frames of a file alike,
whatever its bytes are, so a file that the scan gives up has no record for the iterator beyond the
watermark: `Truncation.filter_items_truncateThrough`.

On a log written without crashes the numbers ascend through the files, so what goes is the
beginning of the log: `Truncation.entries_eq_append`.
-/

namespace Skaldberg

namespace Truncation

open CleanLog (Action Inv run payloads)

/-- Whether an item is a record beyond a watermark. -/
def beyond (s : ℕ) : WalItem → Bool
  | .ok r => decide (s < r.recordSeq)
  | .error _ => false

variable {crc32 : Bytes → UInt32} {dir : WalDir} {w : WalWriter} {s : ℕ}

/-- A file that a scan finds below the watermark yields no record beyond it. -/
theorem filter_fileItems_of_scan {bs : Bytes} (h : Wal.scanMaxRecordSeq bs ≤ s) :
    (Wal.fileItems crc32 bs).filter (beyond s) = [] := by
  refine List.filter_eq_nil_iff.mpr fun item hitem => ?_
  cases item with
  | error e => simp [beyond]
  | ok r =>
    obtain ⟨f, hf, rfl⟩ := List.mem_map.mp (Wal.ok_mem_fileItems.mp hitem)
    have hle : Wal.hdrSeq f.hdr ≤ s :=
      (Wal.le_scanMaxRecordSeq (List.mem_of_mem_filter hf)).trans h
    rw [beyond, Wal.record, decide_eq_true_eq]
    exact Nat.not_lt.mpr hle

/-- **A truncation forgets no record beyond its watermark**, whatever the bytes of the files: an
iteration past the errors yields the same ones as before, in the same order. -/
theorem filter_items_truncateThrough (crc32 : Bytes → UInt32) (w : WalWriter) (dir : WalDir)
    (s : ℕ) :
    (WalIter.items crc32 (w.truncateThrough dir s)).filter (beyond s) =
      (WalIter.items crc32 dir).filter (beyond s) := by
  rw [WalIter.items_eq, WalIter.items_eq, Wal.dirItems, Wal.dirItems, SortedMap.values,
    SortedMap.values, WalWriter.truncateThrough, SortedMap.filter]
  simp only [List.flatMap_map]
  generalize dir.entries = l
  induction l with
  | nil => rfl
  | cons e l ih =>
    rw [List.filter_cons, List.flatMap_cons, List.filter_append, ← ih]
    split_ifs with he
    · rw [List.flatMap_cons, List.filter_append]
    · simp only [Bool.or_eq_true, beq_iff_eq, Bool.not_eq_true', decide_eq_false_iff_not,
        not_or, not_not] at he
      rw [filter_fileItems_of_scan he.2, List.nil_append]

theorem get?_truncateThrough_current (w : WalWriter) (dir : WalDir) (s : ℕ) :
    (w.truncateThrough dir s).get? w.fileSeq = dir.get? w.fileSeq := by
  refine Option.ext fun bs => ?_
  rw [WalWriter.get?_truncateThrough]
  exact and_iff_left fun h => (WalWriter.mem_removed.mp h).2.1 rfl

/-! ### Logs written without crashes -/

/-- In a regular log a file stays when one in front of it does. -/
theorem pairwise_kept {n : ℕ} {st : CleanLog.State} (h : Inv crc32 n st) (s : ℕ) :
    st.dir.entries.Pairwise fun a b =>
      (a.1 == st.writer.fileSeq || !decide (Wal.scanMaxRecordSeq a.2 ≤ s)) = true →
        (b.1 == st.writer.fileSeq || !decide (Wal.scanMaxRecordSeq b.2 ≤ s)) = true := by
  have hascending := h.ascending
  rw [WalDir.records, SortedMap.values, List.flatMap_map, List.pairwise_flatMap] at hascending
  refine (st.dir.sorted.and hascending.2).imp_of_mem ?_
  rintro ⟨k, bs⟩ ⟨k', bs'⟩ ha hb ⟨hlt, hseq⟩
  have hbs := SortedMap.get?_eq_some_iff.mpr ha
  have hbs' := SortedMap.get?_eq_some_iff.mpr hb
  have hmem : k' ∈ st.dir.keys := List.mem_map_of_mem hb
  simp only [Bool.or_eq_true, beq_iff_eq, Bool.not_eq_true', decide_eq_false_iff_not]
  rintro (hk | hscan)
  · -- no file is behind the current one
    have := h.onLast.last k' hmem
    simp only at hlt
    omega
  · by_cases hk' : k' = st.writer.fileSeq
    · exact Or.inl hk'
    · refine Or.inr fun hle => hscan ?_
      rw [(h.intact k bs hbs).scanMaxRecordSeq_le_iff]
      rw [(h.intact k' bs' hbs').scanMaxRecordSeq_le_iff] at hle
      obtain ⟨r', hr'⟩ := List.exists_mem_of_ne_nil _ (h.nonempty k' bs' hbs' hk')
      intro r hr
      exact ((hseq r hr r' hr').le).trans (hle r' hr')

/-- **What goes is the beginning of the log**: on a log written without crashes, the files removed
are those in front of the current one whose records are all at or below the watermark, and they
are in front of the files that stay. -/
theorem entries_eq_append {n : ℕ} {st : CleanLog.State} (h : Inv crc32 n st) (s : ℕ) :
    ∃ removed, st.dir.entries = removed ++ (st.writer.truncateThrough st.dir s).entries ∧
      ∀ e, e ∈ removed ↔ e ∈ st.dir.entries ∧ e.1 ≠ st.writer.fileSeq ∧
        ∀ r ∈ Wal.fileRecords crc32 e.2, r.recordSeq ≤ s := by
  refine ⟨_, SortedMap.entries_eq_append_filter (pairwise_kept h s), fun e => ?_⟩
  rw [List.mem_filter]
  refine and_congr_right fun he => ?_
  have hclean := h.intact e.1 e.2 (SortedMap.get?_eq_some_iff.mpr he)
  rw [← hclean.scanMaxRecordSeq_le_iff]
  simp

/-- **A truncation is safe.** Whatever the bytes of the files, the records beyond the watermark are
yielded afterwards as they were before, and the current file is as it was; and on a log written
without crashes the files removed are exactly those other than the current one whose records are
all at or below the watermark, and they are the beginning of the log. -/
theorem truncateThrough_safe (crc32 : Bytes → UInt32) :
    (∀ (w : WalWriter) (dir : WalDir) (s : ℕ),
      (WalIter.items crc32 (w.truncateThrough dir s)).filter (beyond s) =
          (WalIter.items crc32 dir).filter (beyond s) ∧
        (w.truncateThrough dir s).get? w.fileSeq = dir.get? w.fileSeq) ∧
    ∀ (rotationBytes : ℕ) (acts : List Action) (s : ℕ),
      (payloads acts).length + 1 < u64Size →
      ∃ removed, (run crc32 rotationBytes acts).dir.entries = removed ++
          ((run crc32 rotationBytes acts).writer.truncateThrough
            (run crc32 rotationBytes acts).dir s).entries ∧
        ∀ e, e ∈ removed ↔ e ∈ (run crc32 rotationBytes acts).dir.entries ∧
          e.1 ≠ (run crc32 rotationBytes acts).writer.fileSeq ∧
          ∀ r ∈ Wal.fileRecords crc32 e.2, r.recordSeq ≤ s :=
  ⟨fun w dir s => ⟨filter_items_truncateThrough crc32 w dir s,
    get?_truncateThrough_current w dir s⟩,
    fun rotationBytes _ s hn => entries_eq_append (CleanLog.inv_run rotationBytes hn) s⟩

section Instances

/-- Three appends, each filling its file. -/
def threeFiles : List Action := [.append [1, 2], .append [3], .append [4]]

set_option maxRecDepth 100000 in
/-- Of three files that were rotated out, the first is removed. -/
theorem truncateThrough_safe_first :
    ((run Encoding.crc32 17 threeFiles).writer.truncateThrough
        (run Encoding.crc32 17 threeFiles).dir 1).keys = [1, 2, 3] ∧
    ∃ removed, (run Encoding.crc32 17 threeFiles).dir.entries = removed ++
        ((run Encoding.crc32 17 threeFiles).writer.truncateThrough
          (run Encoding.crc32 17 threeFiles).dir 1).entries ∧
      ∀ e, e ∈ removed ↔ e ∈ (run Encoding.crc32 17 threeFiles).dir.entries ∧
        e.1 ≠ (run Encoding.crc32 17 threeFiles).writer.fileSeq ∧
        ∀ r ∈ Wal.fileRecords Encoding.crc32 e.2, r.recordSeq ≤ 1 :=
  ⟨by decide +kernel, (truncateThrough_safe Encoding.crc32).2 17 threeFiles 1 (by decide +kernel)⟩

end Instances

end Truncation

end Skaldberg
