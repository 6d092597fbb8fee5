import Skaldberg.Ingest.CleanLog
import Skaldberg.Ingest.Encoding
import Skaldberg.Lib.Runs

/-!
# Numbers given out twice

The sequence number of the next record is not kept on disk: a writer that opens the log takes it
from the largest number it finds. A truncation that follows a rotation can remove every file with a
record and leave the empty current one, and the next process to open the log starts again from 1.

`Renumbering.ascending_of_continues` is the extent of it: the numbers ascend over the life of a log,
however often it is truncated and opened again, as long as no re-open after the first append finds
a log without a record. One that does repeats a number at the next append
(`Renumbering.not_ascending_append`), as in the four steps of `Renumbering.number_repeated`.
-/

namespace Skaldberg

namespace Renumbering

open CleanLog (State Action Inv step start)

/-- The numbers returned by the appends of a log ascend. -/
def Ascending (s : State) : Prop := s.acked.Pairwise fun r r' => r.recordSeq < r'.recordSeq

instance (s : State) : Decidable (Ascending s) :=
  inferInstanceAs (Decidable (s.acked.Pairwise fun r r' => r.recordSeq < r'.recordSeq))

variable (crc32 : Bytes → UInt32)

/-- A re-open finds a record, unless none was ever appended; and the counter does not wrap. -/
def Continues (s : State) : Action → Prop
  | .append _ => s.writer.nextRecordSeq + 1 < u64Size
  | .reopen _ => s.acked = [] ∨ s.dir.records crc32 ≠ []
  | .truncateThrough _ => True

instance (s : State) : ∀ a, Decidable (Continues crc32 s a)
  | .append _ => inferInstanceAs (Decidable (s.writer.nextRecordSeq + 1 < u64Size))
  | .reopen _ => inferInstanceAs (Decidable (s.acked = [] ∨ s.dir.records crc32 ≠ []))
  | .truncateThrough _ => instDecidableTrue

/-- Where an action leads; a truncation goes no further than the numbers that were given out. -/
def serverStep (s : State) : Action → Option State
  | .truncateThrough n =>
    if n < s.writer.nextRecordSeq then some (step crc32 s (.truncateThrough n)) else none
  | a => some (step crc32 s a)

/-- What a run keeps: the log is regular, the numbers returned ascend below the next one, and there
are as many of them as were given out. -/
structure Numbered (s : State) : Prop where
  /-- The log is regular. -/
  inv : Inv crc32 s.acked.length s
  /-- The numbers ascend. -/
  ascending : Ascending s
  /-- They start at 1 and are below the next one. -/
  between : ∀ r ∈ s.acked, 0 < r.recordSeq ∧ r.recordSeq < s.writer.nextRecordSeq
  /-- No number is skipped. -/
  count : s.writer.nextRecordSeq = s.acked.length + 1

variable {crc32} {s s' : State}

theorem numbered_start (rotationBytes : ℕ) : Numbered crc32 (start rotationBytes) where
  inv := CleanLog.inv_start rotationBytes
  ascending := List.Pairwise.nil
  between := by simp [start]
  count := rfl

theorem Numbered.append (h : Numbered crc32 s) {payload : Bytes}
    (hok : s.writer.nextRecordSeq + 1 < u64Size) :
    Numbered crc32 (step crc32 s (.append payload)) := by
  by_cases hp : payload.length < u32Size
  · have hcount := h.count
    have hinv := h.inv.append (by omega) hp
    have hnext : (s.writer.appended crc32 s.dir payload).1.nextRecordSeq =
        s.writer.nextRecordSeq + 1 := by
      rw [WalWriter.nextRecordSeq_appended, Nat.mod_eq_of_lt hok]
    rw [CleanLog.step_append hp] at hinv ⊢
    refine ⟨by simpa using hinv, ?_, fun r hr => ?_, ?_⟩
    · refine List.pairwise_append.mpr ⟨h.ascending, List.pairwise_singleton .., ?_⟩
      intro r hr r' hr'
      rw [List.mem_singleton.mp hr']
      exact (h.between r hr).2
    · simp only [hnext]
      rcases List.mem_append.mp hr with hr | hr
      · exact ⟨(h.between r hr).1, (h.between r hr).2.trans (Nat.lt_succ_self _)⟩
      · rw [List.mem_singleton.mp hr]
        exact ⟨h.inv.pos, Nat.lt_succ_self _⟩
    · simp only [hnext, List.length_append, List.length_singleton]
      omega
  · rw [CleanLog.step_append_tooLarge hp]
    exact h

/-- Opening a log again continues the numbers if it finds one. -/
theorem Numbered.reopen (h : Numbered crc32 s) {rotationBytes : ℕ}
    (hok : s.acked = [] ∨ s.dir.records crc32 ≠ []) :
    Numbered crc32 (step crc32 s (.reopen rotationBytes)) := by
  have hcount := h.count
  have hlt := h.inv.onLast.seq_lt
  obtain ⟨hinv, hnext⟩ := h.inv.reopen (by omega) rotationBytes
  have heq : (step crc32 s (.reopen rotationBytes)).writer.nextRecordSeq =
      s.writer.nextRecordSeq := by
    rcases hnext with heq | hnil
    · exact heq
    · -- nothing was ever appended, and the numbers start where they were
      have hacked : s.acked = [] := hok.resolve_right (not_not_intro hnil)
      have hpos := hinv.pos
      have hle := hinv.next_le
      rw [hacked, List.length_nil] at hcount hle
      omega
  exact ⟨hinv, h.ascending, fun r hr => heq ▸ h.between r hr, heq.trans hcount⟩

theorem Numbered.step {a : Action} (h : Numbered crc32 s) (hok : Continues crc32 s a)
    (hs : serverStep crc32 s a = some s') : Numbered crc32 s' := by
  cases a with
  | append payload =>
    cases hs
    exact h.append hok
  | truncateThrough n =>
    rw [serverStep] at hs
    split_ifs at hs
    cases hs
    exact ⟨h.inv.truncateThrough n, h.ascending, h.between, h.count⟩
  | reopen rotationBytes =>
    cases hs
    exact h.reopen hok

/-- **Sequence numbers never go backwards** over any run of appends, rotations, truncations and
re-opens in which every re-open after the first append finds a record in the log and the counter
does not wrap. -/
theorem ascending_of_continues {rotationBytes : ℕ}
    (hrun : Runs (Runs.ofFn (serverStep crc32)) (Continues crc32) (start rotationBytes) s) :
      Ascending s :=
  (hrun.invariant (numbered_start rotationBytes) fun h hok hs => h.step hok hs).ascending

/-- **A re-open that finds no record repeats a number**: after a run as above, the first append
behind it returns 1 again. -/
theorem not_ascending_append {rotationBytes rotationBytes' : ℕ} {payload : Bytes}
    (hrun : Runs (Runs.ofFn (serverStep crc32)) (Continues crc32) (start rotationBytes) s)
    (hacked : s.acked ≠ []) (hnil : s.dir.records crc32 = []) (hp : payload.length < u32Size) :
    ¬Ascending (step crc32 (step crc32 s (.reopen rotationBytes')) (.append payload)) := by
  have h : Numbered crc32 s :=
    hrun.invariant (numbered_start rotationBytes) fun h hok hs => h.step hok hs
  obtain ⟨-, hex, -⟩ := WalWriter.nextRecordSeq_openWithRotation h.inv.intact
    (fun r hr => by rw [hnil] at hr; cases hr) rotationBytes'
  have hone : (WalWriter.openWithRotation s.dir rotationBytes').1.nextRecordSeq = 1 := by
    simpa [hnil] using hex
  obtain ⟨r, hr⟩ := List.exists_mem_of_ne_nil _ hacked
  rw [CleanLog.step_append hp, Ascending, List.pairwise_append]
  rintro ⟨-, -, hlt⟩
  have hpos := (h.between r hr).1
  have hbelow := hlt r hr _ (List.mem_singleton_self _)
  simp only [step, hone] at hbelow
  omega

section Instances

set_option maxRecDepth 100000 in
/-- Two appends, the first truncated away with its file, and a re-open that finds the second. -/
theorem ascending_of_continues_truncated :
    ∃ s, Runs (Runs.ofFn (serverStep Encoding.crc32)) (Continues Encoding.crc32) (start 17) s ∧
      s.acked.length = 3 ∧ Ascending s := by
  obtain ⟨s, hrun, hp⟩ := Runs.exists_of_foldlM (f := serverStep Encoding.crc32)
    (C := Continues Encoding.crc32) (s := start 17) (p := fun s => s.acked.length == 3)
    [.append [1, 2], .append [], .truncateThrough 1, .reopen 17, .append [3]]
    (by decide +kernel)
  exact ⟨s, hrun, by simpa using hp, ascending_of_continues hrun⟩

set_option maxRecDepth 100000 in
/-- **A number is given out twice**: the append of one record rotates its file out, the truncation
that follows its flush removes that file, and the next process to open the log numbers its first
record 1 again. -/
theorem number_repeated :
    ∃ s, Runs (Runs.ofFn (serverStep Encoding.crc32)) (fun _ _ => True) (start 17) s ∧
      ¬Ascending s := by
  obtain ⟨s, hrun, hp⟩ := Runs.exists_of_foldlM (f := serverStep Encoding.crc32)
    (C := fun _ _ => True) (s := start 17)
    (p := fun s => s.acked.map WalRecord.recordSeq == [1, 1] && !decide (Ascending s))
    [.append [1, 2], .truncateThrough 1, .reopen 17, .append [3]]
    (by decide +kernel)
  simp only [Bool.and_eq_true, Bool.not_eq_true', decide_eq_false_iff_not] at hp
  exact ⟨s, hrun, hp.2⟩

end Instances

end Renumbering

end Skaldberg
