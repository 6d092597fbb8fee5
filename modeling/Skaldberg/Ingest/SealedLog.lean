import Skaldberg.Ingest.TruncatedLog

/-!
# Logs with an open end

Whatever happens to a process, what it leaves on disk is torn in one place at most: the end of the
file it was writing to. Behind that file a log is sealed (`WalWriter.Sealed`), and so it stays under
appends that fail before they rotate, under truncations and under crashes in the middle of either.

`Sealed.append` and `Sealed.filter` say what becomes of the records that a replay reaches. An
append to a file that reads cleanly to its end adds its own record, or not, and no other; deleting
files other than the current one takes away the records of these files.
-/

namespace Skaldberg

namespace WalWriter

variable {crc32 : Bytes → UInt32} {w : WalWriter} {dir : WalDir}

/-- A writer on the last file of a log, the other files of which read cleanly to their end. -/
structure Sealed (crc32 : Bytes → UInt32) (w : WalWriter) (dir : WalDir) : Prop where
  /-- The writer is on the last file. -/
  onLast : w.OnLast dir
  /-- The other files are clean. -/
  clean : ∀ file bs, dir.get? file = some bs → file ≠ w.fileSeq → Wal.Clean crc32 bs

/-- The current file reads cleanly to its end. -/
def CleanEnd (crc32 : Bytes → UInt32) (w : WalWriter) (dir : WalDir) : Prop :=
  ∀ bs ∈ dir.get? w.fileSeq, Wal.Clean crc32 bs

instance : Decidable (CleanEnd crc32 w dir) :=
  inferInstanceAs (Decidable (∀ bs ∈ dir.get? w.fileSeq, Wal.Clean crc32 bs))

/-- **What a replay reaches**: the records of the sealed files, and those of the current file in
front of the first error. -/
theorem Sealed.mem_readable (h : Sealed crc32 w dir) {r : WalRecord} :
    r ∈ Wal.readable crc32 dir ↔
      (∃ file bs, dir.get? file = some bs ∧ file ≠ w.fileSeq ∧ r ∈ Wal.fileRecords crc32 bs) ∨
        ∃ bs, dir.get? w.fileSeq = some bs ∧ r ∈ Wal.okPrefix (Wal.fileItems crc32 bs) := by
  obtain ⟨bs, hbs⟩ := Option.isSome_iff_exists.mp h.onLast.current
  obtain ⟨a, -, ha⟩ := dir.upsert_last h.onLast.last fun _ => ([] : Bytes)
  rw [hbs] at ha
  have ha : dir.entries = a ++ [(w.fileSeq, bs)] := ha
  have hne : ∀ e ∈ a, e.1 ≠ w.fileSeq := by
    have hsorted := dir.sorted
    rw [ha, List.pairwise_append] at hsorted
    exact fun e he => (hsorted.2.2 e he _ (List.mem_singleton_self _)).ne
  have hmem : ∀ file bs', dir.get? file = some bs' → file ≠ w.fileSeq → (file, bs') ∈ a := by
    intro file bs' hget hfile
    have he := SortedMap.get?_eq_some_iff.mp hget
    rw [ha] at he
    rcases List.mem_append.mp he with he | he
    · exact he
    · exact absurd (congrArg Prod.fst (List.mem_singleton.mp he)) hfile
  have hget : ∀ e ∈ a, dir.get? e.1 = some e.2 := fun e he =>
    SortedMap.get?_eq_some_iff.mpr (ha ▸ List.mem_append_left _ he)
  have hvalues : dir.values = a.map Prod.snd ++ [bs] := by
    rw [SortedMap.values, ha, List.map_append]
    rfl
  have hclean : ∀ b ∈ a.map Prod.snd, Wal.Clean crc32 b := by
    intro b hb
    obtain ⟨e, he, rfl⟩ := List.mem_map.mp hb
    exact h.clean e.1 e.2 (hget e he) (hne e he)
  rw [Wal.readable_of_clean hvalues hclean, List.mem_append, List.mem_flatMap]
  refine or_congr ⟨?_, ?_⟩ ⟨fun hr => ⟨bs, hbs, hr⟩, ?_⟩
  · rintro ⟨b, hb, hr⟩
    obtain ⟨e, he, rfl⟩ := List.mem_map.mp hb
    exact ⟨e.1, e.2, hget e he, hne e he, hr⟩
  · rintro ⟨file, b, hfile, hcur, hr⟩
    exact ⟨b, List.mem_map.mpr ⟨_, hmem file b hfile hcur, rfl⟩, hr⟩
  · rintro ⟨b, hb, hr⟩
    rw [hbs] at hb
    cases hb
    exact hr

/-! ### Opening -/

/-- A log that is opened again is sealed as it was. -/
theorem Sealed.openWithRotation (h : Sealed crc32 w dir) (rotationBytes : ℕ) :
    Sealed crc32 (WalWriter.openWithRotation dir rotationBytes).1
      (WalWriter.openWithRotation dir rotationBytes).2 := by
  have honLast := onLast_openWithRotation dir rotationBytes
  obtain ⟨hfile, hdir⟩ := h.onLast.openWithRotation rotationBytes
  refine ⟨honLast, fun file bs hget hne => ?_⟩
  rw [hdir] at hget
  exact h.clean file bs hget (by rwa [hfile] at hne)

theorem sealed_openWithRotation_empty (crc32 : Bytes → UInt32) (rotationBytes : ℕ) :
    Sealed crc32 (WalWriter.openWithRotation .empty rotationBytes).1
      (WalWriter.openWithRotation .empty rotationBytes).2 := by
  refine ⟨onLast_openWithRotation _ _, fun file bs hget hne => ?_⟩
  have hfile : (WalWriter.openWithRotation .empty rotationBytes).1.fileSeq = 0 := rfl
  rw [hfile] at hne
  have hget : (WalDir.create .empty 0).get? file = some bs := hget
  rw [WalDir.get?_create, if_neg hne] at hget
  cases hget

/-! ### Appending -/

/-- **The first bytes of a frame behind a clean file** hide no record, and show at most that of the
frame. -/
theorem okPrefix_fileItems_append_take {bs : Bytes} (h : Wal.Clean crc32 bs) {seq : ℕ}
    {payload : Bytes} (hp : payload.length < u32Size) (hs : seq < u64Size) (k : ℕ) {r : WalRecord}
    (hr : r ∈ Wal.okPrefix
      (Wal.fileItems crc32 (bs ++ (Wal.frame crc32 seq payload).bytes.take k))) :
    r ∈ Wal.okPrefix (Wal.fileItems crc32 bs) ∨ r = ⟨seq, payload⟩ := by
  have htake : bs ++ (Wal.frame crc32 seq payload).bytes.take k =
      (bs ++ (Wal.frame crc32 seq payload).bytes).take (bs.length + k) := by
    rw [List.take_append]
    simp
  rw [htake, TruncatedLog.fileItems_take (h.append_frame hp hs), Wal.okPrefix_append_tailItem,
    Wal.okPrefix_map_ok] at hr
  have hmem := (fitting_prefixOf _ _).subset hr
  rw [Wal.fileRecords_append_frame h.1 hp hs] at hmem
  rw [h.fileItems_eq, Wal.okPrefix_map_ok]
  exact (List.mem_append.mp hmem).imp id List.mem_singleton.mp

/-- A write to the current file, of the first bytes of the next frame. -/
theorem Sealed.write (h : Sealed crc32 w dir) (hclean : CleanEnd crc32 w dir) {payload : Bytes}
    (hp : payload.length < u32Size) (k : ℕ) :
    Sealed crc32 w (dir.write w.file ((Wal.frame crc32 w.nextRecordSeq payload).bytes.take k)) ∧
      (∀ r ∈ Wal.readable crc32 dir, r ∈ Wal.readable crc32
        (dir.write w.file ((Wal.frame crc32 w.nextRecordSeq payload).bytes.take k))) ∧
      ∀ r ∈ Wal.readable crc32
        (dir.write w.file ((Wal.frame crc32 w.nextRecordSeq payload).bytes.take k)),
          r ∈ Wal.readable crc32 dir ∨ r = ⟨w.nextRecordSeq, payload⟩ := by
  obtain ⟨bs, hbs⟩ := Option.isSome_iff_exists.mp h.onLast.current
  have hfile : dir.get? w.file = some bs := by rw [h.onLast.handle, hbs]
  have hget : ∀ file, (dir.write w.file
      ((Wal.frame crc32 w.nextRecordSeq payload).bytes.take k)).get? file =
        if file = w.fileSeq then
          some (bs ++ (Wal.frame crc32 w.nextRecordSeq payload).bytes.take k)
        else dir.get? file := by
    intro file
    rw [WalDir.get?_write hfile, h.onLast.handle]
  have hsealed : Sealed crc32 w
      (dir.write w.file ((Wal.frame crc32 w.nextRecordSeq payload).bytes.take k)) := by
    refine ⟨⟨h.onLast.handle, ?_, fun key hkey => ?_, h.onLast.seq_lt⟩, fun file b hb hne => ?_⟩
    · rw [hget, if_pos rfl]
      rfl
    · exact h.onLast.last key ((WalDir.mem_keys_write hfile).mp hkey)
    · rw [hget, if_neg hne] at hb
      exact h.clean file b hb hne
  refine ⟨hsealed, fun r hr => ?_, fun r hr => ?_⟩
  · refine hsealed.mem_readable.mpr ((h.mem_readable.mp hr).imp ?_ ?_)
    · rintro ⟨file, b, hb, hne, hr⟩
      exact ⟨file, b, by rw [hget, if_neg hne, hb], hne, hr⟩
    · rintro ⟨b, hb, hr⟩
      rw [hbs] at hb
      cases hb
      exact ⟨_, by rw [hget, if_pos rfl], (Wal.okPrefix_fileItems_append _ _).subset hr⟩
  · rcases hsealed.mem_readable.mp hr with ⟨file, b, hb, hne, hr⟩ | ⟨b, hb, hr⟩
    · rw [hget, if_neg hne] at hb
      exact Or.inl (h.mem_readable.mpr (Or.inl ⟨file, b, hb, hne, hr⟩))
    · rw [hget, if_pos rfl] at hb
      cases hb
      refine (okPrefix_fileItems_append_take (hclean bs hbs) hp h.onLast.seq_lt k hr).imp ?_ id
      exact fun hr => h.mem_readable.mpr (Or.inr ⟨bs, hbs, hr⟩)

/-- **An append to a clean file**, as long as a rotation finds its next file: whatever else fails,
the log stays sealed, the records in it stay readable, and only the record of the append is new; and
if it succeeds, that is. -/
theorem Sealed.append (h : Sealed crc32 w dir) (hclean : CleanEnd crc32 w dir) {io : AppendIo}
    (hio : io.rotate = true) (hnext : w.fileSeq + 1 < u64Size) (payload : Bytes) :
    Sealed crc32 (w.append crc32 io dir payload).2.1 (w.append crc32 io dir payload).2.2 ∧
      (∀ r ∈ Wal.readable crc32 dir,
        r ∈ Wal.readable crc32 (w.append crc32 io dir payload).2.2) ∧
      (∀ r ∈ Wal.readable crc32 (w.append crc32 io dir payload).2.2,
        r ∈ Wal.readable crc32 dir ∨ r = ⟨w.nextRecordSeq, payload⟩) ∧
      ∀ seq, (w.append crc32 io dir payload).1 = .ok seq → (⟨seq, payload⟩ : WalRecord) ∈
        Wal.readable crc32 (w.append crc32 io dir payload).2.2 := by
  by_cases hp : payload.length < u32Size
  · have hlen : ¬payload.length > u32Size - 1 := by omega
    have hwhole := h.write hclean hp (Wal.frame crc32 w.nextRecordSeq payload).bytes.length
    rw [List.take_length] at hwhole
    rcases hwrite : io.write with _ | k
    · by_cases hsync : io.sync = true
      · -- the whole append
        have hok : io = .ok := by
          obtain ⟨write, sync, rotate⟩ := io
          simp only at hwrite hsync hio
          rw [hwrite, hsync, hio]
          rfl
        rw [hok, append_ok hp]
        obtain ⟨hsealed, hkeeps, honly⟩ := hwhole
        obtain ⟨bs, hbs⟩ := Option.isSome_iff_exists.mp h.onLast.current
        have hfile : dir.get? w.file = some bs := by rw [h.onLast.handle, hbs]
        have hnew := (hclean bs hbs).append_frame hp h.onLast.seq_lt
        have hcurrent : (dir.write w.file
            (Wal.frame crc32 w.nextRecordSeq payload).bytes).get? w.fileSeq =
              some (bs ++ (Wal.frame crc32 w.nextRecordSeq payload).bytes) := by
          rw [WalDir.get?_write hfile, h.onLast.handle, if_pos rfl]
        have hlast : ∀ key ∈ (dir.write w.file
            (Wal.frame crc32 w.nextRecordSeq payload).bytes).keys, key ≤ w.fileSeq + 1 :=
          fun key hkey => (hsealed.onLast.last key hkey).trans (Nat.le_succ _)
        have hreadable : Wal.readable crc32 (w.appended crc32 dir payload).2 =
            Wal.readable crc32
              (dir.write w.file (Wal.frame crc32 w.nextRecordSeq payload).bytes) := by
          rw [appended]
          simp only [Nat.mod_eq_of_lt hnext]
          split_ifs
          · exact Wal.readable_of_values ((WalDir.values_create hlast).imp id And.right)
          · rfl
        have hrecord : (⟨w.nextRecordSeq, payload⟩ : WalRecord) ∈ Wal.readable crc32
            (dir.write w.file (Wal.frame crc32 w.nextRecordSeq payload).bytes) := by
          refine hsealed.mem_readable.mpr (Or.inr ⟨_, hcurrent, ?_⟩)
          rw [hnew.fileItems_eq, Wal.okPrefix_map_ok,
            Wal.fileRecords_append_frame (hclean bs hbs).1 hp h.onLast.seq_lt]
          exact List.mem_append_right _ (List.mem_singleton_self _)
        refine ⟨⟨h.onLast.appended hnext payload, fun file b hb hne => ?_⟩, ?_, ?_, ?_⟩
        · rcases h.onLast.get?_appended hnext hb with
            ⟨hfile, hb⟩ | ⟨-, old, hold, rfl⟩ | ⟨-, heq, -⟩
          · exact h.clean file b hb hfile
          · rw [hbs] at hold
            cases hold
            exact hnew
          · exact absurd heq.symm hne
        · exact fun r hr => hreadable ▸ hkeeps r hr
        · exact fun r hr => honly r (hreadable ▸ hr)
        · rintro seq heq
          cases heq
          exact hreadable ▸ hrecord
      · -- written whole, and not synced
        have happend : w.append crc32 io dir payload =
            (.error .io, w, dir.write w.file (Wal.frame crc32 w.nextRecordSeq payload).bytes) := by
          simp only [WalWriter.append, hlen, if_false, hwrite, Bool.eq_false_of_not_eq_true hsync,
            Bool.not_false, if_true]
        rw [happend]
        exact ⟨hwhole.1, hwhole.2.1, hwhole.2.2, fun seq heq => by cases heq⟩
    · -- written in part
      have happend : w.append crc32 io dir payload = (.error .io, w,
          dir.write w.file ((Wal.frame crc32 w.nextRecordSeq payload).bytes.take k)) := by
        simp only [WalWriter.append, hlen, if_false, hwrite]
      have hpart := h.write hclean hp k
      rw [happend]
      exact ⟨hpart.1, hpart.2.1, hpart.2.2, fun seq heq => by cases heq⟩
  · rw [append_tooLarge hp]
    exact ⟨h, fun r hr => hr, fun r hr => Or.inl hr, fun seq heq => by cases heq⟩

/-! ### Deleting files -/

/-- **Deleting files other than the current one** takes away their records, and no other. -/
theorem Sealed.filter (h : Sealed crc32 w dir) {p : ℕ → Bytes → Bool}
    (hp : ∀ bs ∈ dir.get? w.fileSeq, p w.fileSeq bs = true) :
    Sealed crc32 w (dir.filter p) ∧
      (∀ r ∈ Wal.readable crc32 (dir.filter p), r ∈ Wal.readable crc32 dir) ∧
      ∀ r ∈ Wal.readable crc32 dir, r ∈ Wal.readable crc32 (dir.filter p) ∨
        ∃ file bs, dir.get? file = some bs ∧ p file bs = false ∧
          r ∈ Wal.fileRecords crc32 bs := by
  have hget : ∀ file bs, (dir.filter p).get? file = some bs ↔
      dir.get? file = some bs ∧ p file bs = true := by
    intro file bs
    rw [SortedMap.get?_eq_some_iff, SortedMap.mem_entries_filter, ← SortedMap.get?_eq_some_iff]
  have hsealed : Sealed crc32 w (dir.filter p) := by
    refine ⟨⟨h.onLast.handle, ?_, fun key hkey => ?_, h.onLast.seq_lt⟩, fun file bs hbs hne => ?_⟩
    · obtain ⟨bs, hbs⟩ := Option.isSome_iff_exists.mp h.onLast.current
      exact Option.isSome_iff_exists.mpr ⟨bs, (hget _ _).mpr ⟨hbs, hp bs hbs⟩⟩
    · obtain ⟨e, he, rfl⟩ := List.mem_map.mp hkey
      have he := ((hget e.1 e.2).mp (SortedMap.get?_eq_some_iff.mpr he)).1
      exact h.onLast.last _ (List.mem_map_of_mem (SortedMap.get?_eq_some_iff.mp he))
    · exact h.clean file bs ((hget _ _).mp hbs).1 hne
  refine ⟨hsealed, fun r hr => h.mem_readable.mpr ((hsealed.mem_readable.mp hr).imp ?_ ?_),
    fun r hr => ?_⟩
  · rintro ⟨file, bs, hbs, hne, hr⟩
    exact ⟨file, bs, ((hget _ _).mp hbs).1, hne, hr⟩
  · rintro ⟨bs, hbs, hr⟩
    exact ⟨bs, ((hget _ _).mp hbs).1, hr⟩
  · rcases h.mem_readable.mp hr with ⟨file, bs, hbs, hne, hr⟩ | ⟨bs, hbs, hr⟩
    · rcases hkeep : p file bs with _ | _
      · exact Or.inr ⟨file, bs, hbs, hkeep, hr⟩
      · exact Or.inl (hsealed.mem_readable.mpr
          (Or.inl ⟨file, bs, (hget _ _).mpr ⟨hbs, hkeep⟩, hne, hr⟩))
    · exact Or.inl (hsealed.mem_readable.mpr (Or.inr ⟨bs, (hget _ _).mpr ⟨hbs, hp bs hbs⟩, hr⟩))

end WalWriter

end Skaldberg
