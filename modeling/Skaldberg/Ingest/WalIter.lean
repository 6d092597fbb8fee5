import Skaldberg.Ingest.Wal

/-!
# The write-ahead log: the replay iterator

`WalIter` walks the files of the log in order. At a clean end of file, or inside a header,
it moves on to the next file; inside a payload it reports a torn record; on a checksum
mismatch it reports that and stands behind the record.

What it yields is said without the iterator by `Wal.dirItems`: file by file, one item for
each frame, and one more for a payload cut short. `WalIter.next_spec` is the one fact the
iterator is used through, and `WalIter.collect_eq` its consequence for whole iterations. A
replay takes the items up to the first error (`Wal.readable`).
-/

namespace Skaldberg

/-- The replay iterator: the files to come and what is left of the open one. -/
structure WalIter where
  /-- The files not yet opened. -/
  files : List (ℕ × Bytes)
  /-- The unread bytes of the open file. -/
  current : Option Bytes

/-- What one step of a replay yields. -/
abbrev WalItem := Except WalReadError WalRecord

namespace WalIter

/-- Start a replay. -/
def «open» (dir : WalDir) : WalIter := ⟨dir.entries, none⟩

variable (crc32 : Bytes → UInt32)

/-- Read one item off an open file, or find that the file has ended. A record cut short in
its payload leaves nothing to read. -/
def readItem (r : Bytes) : Option (WalItem × Bytes) :=
  match readExact headerBytes r with
  | none => none
  | some (hdr, r) =>
    let payloadLen := Wal.hdrLen hdr
    let crc := Wal.hdrCrc hdr
    let recordSeq := Wal.hdrSeq hdr
    match readExact payloadLen r with
    | none => some (.error (.truncated recordSeq payloadLen), [])
    | some (payload, r) =>
      if (Wal.recordCrc crc32 recordSeq payload).toNat ≠ crc then
        some (.error (.crcMismatch recordSeq), r)
      else some (.ok ⟨recordSeq, payload⟩, r)

/-- The loop of `next`, from inside an open file. -/
def nextIn : List (ℕ × Bytes) → Bytes → Option WalItem × WalIter
  | files, r =>
    match readItem crc32 r with
    | some (item, r) => (some item, ⟨files, some r⟩)
    | none =>
      match files with
      | [] => (none, ⟨[], none⟩)
      | (_, bs) :: files => nextIn files bs

/-- The next item of a replay, if any, and the iterator behind it. -/
def next (it : WalIter) : Option WalItem × WalIter :=
  match it.current with
  | some r => nextIn crc32 it.files r
  | none =>
    match it.files with
    | [] => (none, it)
    | (_, bs) :: files => nextIn crc32 files bs

/-- All the items of an iteration; the first argument bounds their number. -/
def collect : ℕ → WalIter → List WalItem
  | 0, _ => []
  | n + 1, it =>
    match it.next crc32 with
    | (none, _) => []
    | (some item, it) => item :: collect n it

/-- How many bytes an iterator has yet to read. -/
def bytesLeft (it : WalIter) : ℕ :=
  (it.current.getD []).length + (it.files.map fun f => f.2.length).sum

end WalIter

/-! ### What a replay yields -/

namespace Wal

variable (crc32 : Bytes → UInt32)

/-- The item of a frame. -/
def frameItem (f : Frame UInt8) : WalItem :=
  if crcOk crc32 f then .ok (record f) else .error (.crcMismatch (hdrSeq f.hdr))

/-- The item of what follows the last frame: a torn record, if it has a whole header. -/
def tailItem (bs : Bytes) : List WalItem :=
  match readExact headerBytes bs with
  | some (hdr, _) => [.error (.truncated (hdrSeq hdr) (hdrLen hdr))]
  | none => []

/-- The items of a file. -/
def fileItems (bs : Bytes) : List WalItem :=
  (format.frames bs).map (frameItem crc32) ++ tailItem (format.leftover bs)

/-- The items of the log. -/
def dirItems (dir : WalDir) : List WalItem := dir.values.flatMap (fileItems crc32)

/-- The records in front of the first error. -/
def okPrefix : List WalItem → List WalRecord
  | .ok r :: items => r :: okPrefix items
  | _ => []

/-- The records a replay that stops at the first error reaches. -/
def readable (dir : WalDir) : List WalRecord := okPrefix (dirItems crc32 dir)

variable {crc32}

theorem frameItem_of_crcOk {f : Frame UInt8} (h : crcOk crc32 f = true) :
    frameItem crc32 f = .ok (record f) := by
  rw [frameItem, if_pos h]

theorem fileItems_of_none {bs : Bytes} (h : format.readFrame bs = none) :
    fileItems crc32 bs = tailItem bs := by
  rw [fileItems, format.frames_of_none h, format.leftover_of_none h]
  rfl

theorem fileItems_of_some {bs r : Bytes} {f : Frame UInt8} (h : format.readFrame bs = some (f, r)) :
    fileItems crc32 bs = frameItem crc32 f :: fileItems crc32 r := by
  rw [fileItems, format.frames_of_some h, format.leftover_of_some h]
  rfl

theorem fileItems_nil : fileItems crc32 [] = [] := by
  rw [fileItems, format.frames_nil, format.leftover_nil]
  rfl

variable (crc32) in
theorem length_fileItems_le (bs : Bytes) : (fileItems crc32 bs).length ≤ bs.length := by
  induction bs using format.stream_induction with
  | stuck bs h =>
    rw [fileItems_of_none h, tailItem]
    rcases hr : readExact headerBytes bs with _ | ⟨hdr, r⟩
    · exact Nat.zero_le _
    · obtain ⟨rfl, hlen⟩ := readExact_eq_some_iff.mp hr
      have hpos : 0 < headerBytes := by decide
      simp only [List.length_singleton, List.length_append]
      omega
  | frame bs f r h ih =>
    have hlt := format.length_lt_of_readFrame h
    rw [fileItems_of_some h, List.length_cons]
    omega

variable (crc32) in
/-- A file that reads without an error up to its last byte. -/
def Clean (bs : Bytes) : Prop :=
  format.leftover bs = [] ∧ ∀ f ∈ format.frames bs, crcOk crc32 f = true

instance (bs : Bytes) : Decidable (Clean crc32 bs) :=
  inferInstanceAs (Decidable (_ ∧ ∀ f ∈ format.frames bs, crcOk crc32 f = true))

theorem clean_nil : Clean crc32 [] :=
  ⟨format.leftover_nil, by rw [format.frames_nil]; simp⟩

theorem Clean.fileItems_eq {bs : Bytes} (h : Clean crc32 bs) :
    fileItems crc32 bs = (fileRecords crc32 bs).map .ok := by
  have htail : tailItem [] = [] := rfl
  rw [fileItems, h.1, htail, List.append_nil, fileRecords, List.filter_eq_self.mpr h.2,
    List.map_map]
  exact List.map_congr_left fun f hf => frameItem_of_crcOk (h.2 f hf)

/-- What a scan of a clean file finds is the largest sequence number of its records. -/
theorem Clean.scanMaxRecordSeq_le_iff {bs : Bytes} (h : Clean crc32 bs) {n : ℕ} :
    scanMaxRecordSeq bs ≤ n ↔ ∀ r ∈ fileRecords crc32 bs, r.recordSeq ≤ n := by
  rw [fileRecords, List.filter_eq_self.mpr h.2]
  constructor
  · intro hn r hr
    obtain ⟨f, hf, rfl⟩ := List.mem_map.mp hr
    exact (le_scanMaxRecordSeq hf).trans hn
  · intro hn
    exact scanMaxRecordSeq_le fun f hf => hn _ (List.mem_map_of_mem hf)

/-- The number a scan of a clean file finds is that of a record, unless there is none to find. -/
theorem Clean.exists_scanMaxRecordSeq {bs : Bytes} (h : Clean crc32 bs) :
    scanMaxRecordSeq bs = 0 ∨ ∃ r ∈ fileRecords crc32 bs, r.recordSeq = scanMaxRecordSeq bs := by
  by_contra hno
  push Not at hno
  have hmax := h.scanMaxRecordSeq_le_iff.mp le_rfl
  have hle : scanMaxRecordSeq bs ≤ scanMaxRecordSeq bs - 1 := by
    refine h.scanMaxRecordSeq_le_iff.mpr fun r hr => ?_
    have := hmax r hr
    have := hno.2 r hr
    omega
  omega

theorem Clean.append_frame {bs : Bytes} (h : Clean crc32 bs) {seq : ℕ} {payload : Bytes}
    (hp : payload.length < u32Size) (hs : seq < u64Size) :
    Clean crc32 (bs ++ (frame crc32 seq payload).bytes) := by
  obtain ⟨hframes, hleft⟩ := frames_append_frame crc32 seq h.1 hp
  refine ⟨hleft, fun f hf => ?_⟩
  rw [hframes] at hf
  rcases List.mem_append.mp hf with hf | hf
  · exact h.2 f hf
  · rw [List.mem_singleton.mp hf]
    exact crcOk_frame hs

theorem okPrefix_map_ok_append (rs : List WalRecord) (items : List WalItem) :
    okPrefix (rs.map .ok ++ items) = rs ++ okPrefix items := by
  induction rs with
  | nil => rfl
  | cons r rs ih =>
    rw [List.map_cons, List.cons_append, okPrefix, ih]
    rfl

theorem okPrefix_map_ok (rs : List WalRecord) : okPrefix (rs.map .ok) = rs := by
  simpa [okPrefix] using okPrefix_map_ok_append rs []

theorem okPrefix_prefix_append (items items' : List WalItem) :
    okPrefix items <+: okPrefix (items ++ items') := by
  induction items with
  | nil => exact List.nil_prefix
  | cons item items ih =>
    cases item with
    | error e => exact List.nil_prefix
    | ok r => exact List.prefix_cons_inj r |>.mpr ih

/-- A replay reads a clean file and goes on behind it. -/
theorem Clean.fileItems_append {bs : Bytes} (h : Clean crc32 bs) (x : Bytes) :
    fileItems crc32 (bs ++ x) = (fileRecords crc32 bs).map .ok ++ fileItems crc32 x := by
  have htail : tailItem [] = [] := rfl
  rw [← h.fileItems_eq, fileItems, fileItems, fileItems, h.1, htail,
    format.frames_append_of_leftover_nil h.1, format.leftover_append_of_leftover_nil h.1,
    List.map_append, List.append_nil, List.append_assoc]

theorem okPrefix_append_tailItem (items : List WalItem) (bs : Bytes) :
    okPrefix (items ++ tailItem bs) = okPrefix items := by
  induction items with
  | nil =>
    rw [tailItem]
    split <;> rfl
  | cons item items ih =>
    cases item with
    | error e => rfl
    | ok r => exact congrArg (r :: ·) ih

/-- The first record a replay reaches has as many bytes as the first header says. -/
theorem length_payload_of_okPrefix {bs : Bytes} {r : WalRecord} {rs : List WalRecord}
    (h : okPrefix (fileItems crc32 bs) = r :: rs) :
    r.payload.length = hdrLen (bs.take headerBytes) := by
  rcases hread : format.readFrame bs with _ | ⟨f, rest⟩
  · rw [fileItems_of_none hread, ← List.nil_append (tailItem bs), okPrefix_append_tailItem] at h
    cases h
  · obtain ⟨rfl, hf⟩ := format.readFrame_eq_some_iff.mp hread
    rw [fileItems_of_some hread, frameItem] at h
    split_ifs at h
    · cases h
      have hhdr : (f.bytes ++ rest).take headerBytes = f.hdr := by
        rw [Frame.bytes, List.append_assoc]
        exact List.take_left' hf.1
      rw [hhdr]
      exact hf.2.symm
    · cases h

/-- **What is appended to a file hides nothing a replay reached in it.** -/
theorem okPrefix_fileItems_append (bs x : Bytes) :
    okPrefix (fileItems crc32 bs) <+: okPrefix (fileItems crc32 (bs ++ x)) := by
  rw [fileItems, fileItems, okPrefix_append_tailItem, okPrefix_append_tailItem,
    format.frames_append, List.map_append]
  exact okPrefix_prefix_append _ _

theorem ok_mem_fileItems {bs : Bytes} {r : WalRecord} :
    .ok r ∈ fileItems crc32 bs ↔ r ∈ fileRecords crc32 bs := by
  have htail : (Except.ok r : WalItem) ∉ tailItem (format.leftover bs) := by
    rw [tailItem]
    split <;> simp
  simp only [fileItems, List.mem_append, htail, or_false, List.mem_map, fileRecords,
    List.mem_filter, frameItem]
  constructor
  · rintro ⟨f, hf, hr⟩
    split_ifs at hr with hc
    cases hr
    exact ⟨f, ⟨hf, hc⟩, rfl⟩
  · rintro ⟨f, ⟨hf, hc⟩, rfl⟩
    exact ⟨f, hf, by rw [if_pos hc]⟩

/-- A replay goes through clean files to the last one. -/
theorem readable_of_clean {dir : WalDir} {files : List Bytes} {bs : Bytes}
    (hdir : dir.values = files ++ [bs]) (h : ∀ b ∈ files, Clean crc32 b) :
    readable crc32 dir = files.flatMap (fileRecords crc32) ++ okPrefix (fileItems crc32 bs) := by
  rw [readable, dirItems, hdir]
  clear hdir
  induction files with
  | nil => simp
  | cons b files ih =>
    rw [List.cons_append, List.flatMap_cons, (h b (List.mem_cons_self ..)).fileItems_eq,
      okPrefix_map_ok_append, ih fun b' hb' => h b' (List.mem_cons_of_mem _ hb'),
      List.flatMap_cons, List.append_assoc]

variable (crc32) in
/-- A log every file of which reads without an error up to its last byte. -/
def Intact (dir : WalDir) : Prop := ∀ file bs, dir.get? file = some bs → Clean crc32 bs

theorem Intact.clean_of_mem_values {dir : WalDir} (h : Intact crc32 dir) {bs : Bytes}
    (hbs : bs ∈ dir.values) : Clean crc32 bs := by
  obtain ⟨⟨file, bs'⟩, hmem, rfl⟩ := List.mem_map.mp hbs
  exact h file bs' (SortedMap.get?_eq_some_iff.mpr hmem)

/-- An intact log yields its records and no error. -/
theorem Intact.dirItems_eq {dir : WalDir} (h : Intact crc32 dir) :
    dirItems crc32 dir = (dir.records crc32).map .ok := by
  rw [dirItems, WalDir.records, List.map_flatMap]
  exact List.flatMap_congr fun bs hbs => (h.clean_of_mem_values hbs).fileItems_eq

/-- **A replay of an intact log reaches every record.** -/
theorem Intact.readable_eq {dir : WalDir} (h : Intact crc32 dir) :
    readable crc32 dir = dir.records crc32 := by
  rw [readable, h.dirItems_eq, okPrefix_map_ok]

theorem Intact.create {dir : WalDir} (h : Intact crc32 dir) (k : ℕ) :
    Intact crc32 (dir.create k) := by
  intro file bs hf
  rw [WalDir.get?_create] at hf
  split_ifs at hf with hk
  · cases hf
    rcases hold : dir.get? k with _ | old
    · exact clean_nil
    · exact h k old hold
  · exact h file bs hf

theorem Intact.write {dir : WalDir} (h : Intact crc32 dir) (file : ℕ) {seq : ℕ}
    {payload : Bytes} (hp : payload.length < u32Size) (hs : seq < u64Size) :
    Intact crc32 (dir.write file (frame crc32 seq payload).bytes) := by
  intro k bs' hk
  rcases hbs : dir.get? file with _ | bs
  · rw [WalDir.write, hbs] at hk
    exact h k bs' hk
  · rw [WalDir.get?_write hbs] at hk
    split_ifs at hk
    · cases hk
      exact (h _ bs hbs).append_frame hp hs
    · exact h k bs' hk

/-- **Appending keeps a log intact.** -/
theorem Intact.appended {w : WalWriter} {dir : WalDir} (h : Intact crc32 dir)
    (hw : w.InOrder dir) {payload : Bytes} (hp : payload.length < u32Size) :
    Intact crc32 (w.appended crc32 dir payload).2 := by
  have hwrite := h.write w.file hp hw.seq_lt
  rw [WalWriter.appended]
  simp only
  split_ifs
  · exact hwrite.create _
  · exact hwrite

theorem readable_of_values {d d' : WalDir}
    (h : d'.values = d.values ∨ d'.values = d.values ++ [[]]) :
    readable crc32 d' = readable crc32 d := by
  rcases h with h | h
  · rw [readable, readable, dirItems, dirItems, h]
  · rw [readable, readable, dirItems, dirItems, h, List.flatMap_append,
      List.flatMap_singleton, fileItems_nil, List.append_nil]

/-- Opening the log for appending changes nothing a replay reads. -/
theorem readable_openWithRotation (dir : WalDir) (rotationBytes : ℕ) :
    readable crc32 (WalWriter.openWithRotation dir rotationBytes).2 = readable crc32 dir :=
  readable_of_values ((WalWriter.values_openWithRotation dir rotationBytes).imp id
    fun ⟨hnil, hv⟩ => by rw [hv, hnil]; rfl)

end Wal

/-! ### The iterator yields the items -/

namespace WalIter

variable {crc32 : Bytes → UInt32}

variable (crc32) in
/-- The items an iterator has yet to yield. -/
def remaining (it : WalIter) : List WalItem :=
  Wal.fileItems crc32 (it.current.getD []) ++ it.files.flatMap fun f => Wal.fileItems crc32 f.2

theorem readItem_of_none {r : Bytes} (h : readItem crc32 r = none) :
    Wal.fileItems crc32 r = [] := by
  rw [readItem] at h
  split at h
  · rename_i hh
    have hf : Wal.format.readFrame r = none := by
      rw [FrameFormat.readFrame]
      simp only [Wal.format, hh]
    rw [Wal.fileItems_of_none hf, Wal.tailItem, hh]
  · simp only at h
    split at h
    · cases h
    · split_ifs at h

theorem readItem_of_some {r r' : Bytes} {item : WalItem} (h : readItem crc32 r = some (item, r')) :
    Wal.fileItems crc32 r = item :: Wal.fileItems crc32 r' := by
  rw [readItem] at h
  split at h
  · cases h
  · rename_i hdr r₁ hh
    simp only at h
    split at h
    · -- torn: the one item left is the error
      rename_i hp
      cases h
      have hf : Wal.format.readFrame r = none := by
        rw [FrameFormat.readFrame]
        simp only [Wal.format, hh, hp]
      rw [Wal.fileItems_of_none hf, Wal.tailItem, hh, Wal.fileItems_nil]
    · rename_i payload r₂ hp
      have hf : Wal.format.readFrame r = some (⟨hdr, payload⟩, r₂) := by
        rw [FrameFormat.readFrame]
        simp only [Wal.format, hh, hp]
      rw [Wal.fileItems_of_some hf, Wal.frameItem]
      split_ifs at h with hcrc <;> cases h
      · rw [if_neg (by simpa [Wal.crcOk] using hcrc)]
      · rw [if_pos (by simpa [Wal.crcOk] using hcrc)]
        rfl

variable (crc32) in
theorem nextIn_spec (files : List (ℕ × Bytes)) (r : Bytes) :
    (nextIn crc32 files r).1 = (remaining crc32 ⟨files, some r⟩).head? ∧
      (nextIn crc32 files r).2.remaining crc32 = (remaining crc32 ⟨files, some r⟩).tail := by
  induction files generalizing r with
  | nil =>
    rw [nextIn]
    rcases h : readItem crc32 r with _ | ⟨item, r'⟩
    · simp [remaining, readItem_of_none h, Wal.fileItems_nil]
    · simp [remaining, readItem_of_some h]
  | cons f files ih =>
    rw [nextIn]
    rcases h : readItem crc32 r with _ | ⟨item, r'⟩
    · have hskip : remaining crc32 ⟨f :: files, some r⟩ = remaining crc32 ⟨files, some f.2⟩ := by
        simp [remaining, readItem_of_none h]
      rw [hskip]
      exact ih f.2
    · simp [remaining, readItem_of_some h]

variable (crc32) in
/-- **One step of an iteration** yields the first item there is and leaves the others. -/
theorem next_spec (it : WalIter) :
    (it.next crc32).1 = (it.remaining crc32).head? ∧
      (it.next crc32).2.remaining crc32 = (it.remaining crc32).tail := by
  obtain ⟨files, current⟩ := it
  cases current with
  | some r => exact nextIn_spec crc32 files r
  | none =>
    cases files with
    | nil => simp [next, remaining, Wal.fileItems_nil]
    | cons f files =>
      have h := nextIn_spec crc32 files f.2
      simpa [next, remaining, Wal.fileItems_nil] using h

theorem length_remaining_le (it : WalIter) : (it.remaining crc32).length ≤ it.bytesLeft := by
  have h : ∀ files : List (ℕ × Bytes),
      (files.flatMap fun f => Wal.fileItems crc32 f.2).length ≤
        (files.map fun f => f.2.length).sum := by
    intro files
    induction files with
    | nil => simp
    | cons f files ih =>
      have hf := Wal.length_fileItems_le crc32 f.2
      simp only [List.flatMap_cons, List.length_append, List.map_cons, List.sum_cons]
      omega
  rw [remaining, bytesLeft, List.length_append]
  exact Nat.add_le_add (Wal.length_fileItems_le crc32 _) (h it.files)

/-- **A whole iteration yields every item**, once its bound allows for them. -/
theorem collect_eq {n : ℕ} {it : WalIter} (h : (it.remaining crc32).length ≤ n) :
    it.collect crc32 n = it.remaining crc32 := by
  induction n generalizing it with
  | zero => exact (List.length_eq_zero_iff.mp (Nat.le_zero.mp h)).symm
  | succ n ih =>
    obtain ⟨hhead, htail⟩ := next_spec crc32 it
    rcases hrem : it.remaining crc32 with _ | ⟨item, items⟩
    · rw [hrem] at hhead
      rw [collect]
      split
      · rfl
      · rename_i item _ hn
        rw [hn] at hhead
        cases hhead
    · rw [hrem] at hhead htail h
      rw [collect]
      split
      · rename_i hn
        rw [hn] at hhead
        cases hhead
      · rename_i item' it' hn
        rw [hn] at hhead htail
        cases hhead
        rw [ih (by simp only at htail; rw [htail]; simpa using h)]
        simp only at htail
        rw [htail, List.tail_cons]

theorem remaining_open (dir : WalDir) :
    (WalIter.open dir).remaining crc32 = Wal.dirItems crc32 dir := by
  simp [remaining, WalIter.open, Wal.fileItems_nil, Wal.dirItems, SortedMap.values,
    List.flatMap_map]

variable (crc32) in
/-- All the items of a replay of the log. -/
def items (dir : WalDir) : List WalItem :=
  (WalIter.open dir).collect crc32 (WalIter.open dir).bytesLeft

theorem items_eq (dir : WalDir) : items crc32 dir = Wal.dirItems crc32 dir := by
  rw [items, collect_eq (length_remaining_le _), remaining_open]

end WalIter

end Skaldberg
