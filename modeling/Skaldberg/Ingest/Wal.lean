import Skaldberg.Lib.Frames
import Skaldberg.Lib.LittleEndian
import Skaldberg.Lib.SortedMap

/-!
# The write-ahead log: frames and writer

The log is a directory of numbered files of frames; a frame is a header of sixteen bytes
(payload length, checksum, record sequence number, all little-endian) and the payload. The
checksum function is a parameter: it covers the sequence number and the payload, and no
result below depends on what it computes.

The writer appends to the file its handle was opened on (`WalWriter.file`), which is not the
same thing as the file its counter names (`WalWriter.fileSeq`): a rotation advances the
counter before it opens the next file. Bytes written through a handle whose file has been
removed go nowhere a reader can see (`WalDir.write`).

What the later results need of the writer:

* `Wal.frames_append_frame`: behind a file that ends on a frame boundary, an appended frame
  reads back as it was written;
* `WalWriter.append_ok`: what a successful append does, rotation included;
* `WalDir.records_mono`: growing files forget no record;
* `WalWriter.mem_records_truncateThrough`: a truncation forgets exactly the records of the
  files it removes.
-/

namespace Skaldberg

/-- A sequence of bytes. -/
abbrev Bytes := List UInt8

/-- The files of the log directory, by file number. -/
abbrev WalDir := SortedMap ℕ Bytes

/-- One more than the largest `u32`. -/
def u32Size : ℕ := 2 ^ 32

/-- One more than the largest `u64`. -/
def u64Size : ℕ := 2 ^ 64

/-- The size of a frame header. -/
def headerBytes : ℕ := 4 + 4 + 8

/-- The rotation size the server runs with. -/
def defaultRotationBytes : ℕ := 64 * 1024 * 1024

/-- Why the writer failed. -/
inductive WalError where
  /-- A file operation failed. -/
  | io
  /-- The payload's length does not fit the header. -/
  | payloadTooLarge (len : ℕ)
  deriving DecidableEq

/-- Why the reader failed. -/
inductive WalReadError where
  /-- The checksum of a record does not match. -/
  | crcMismatch (recordSeq : ℕ)
  /-- A record declares more bytes than its file has. -/
  | truncated (recordSeq payloadLen : ℕ)
  deriving DecidableEq

/-- What a read error says. -/
def WalReadError.message : WalReadError → String
  | crcMismatch recordSeq => "crc mismatch at record seq " ++ toString recordSeq
  | truncated recordSeq payloadLen =>
    "torn record at file tail: record seq " ++ toString recordSeq ++ " declares " ++
      toString payloadLen ++ " byte payload but file ended early"

/-- A record of the log. -/
structure WalRecord where
  /-- The sequence number. -/
  recordSeq : ℕ
  /-- The payload. -/
  payload : Bytes
  deriving DecidableEq

namespace Wal

/-! ### Frames -/

/-- The payload length a header declares. -/
def hdrLen (hdr : Bytes) : ℕ := fromLe (hdr.take 4)

/-- The checksum a header declares. -/
def hdrCrc (hdr : Bytes) : ℕ := fromLe ((hdr.drop 4).take 4)

/-- The sequence number a header declares. -/
def hdrSeq (hdr : Bytes) : ℕ := fromLe ((hdr.drop 8).take 8)

/-- The frame format of the log. -/
def format : FrameFormat UInt8 where
  header := headerBytes
  header_pos := by decide
  len := hdrLen

variable (crc32 : Bytes → UInt32)

/-- The checksum of a record. -/
def recordCrc (recordSeq : ℕ) (payload : Bytes) : UInt32 := crc32 (toLe 8 recordSeq ++ payload)

/-- The frame of a record. -/
def frame (recordSeq : ℕ) (payload : Bytes) : Frame UInt8 where
  hdr := toLe 4 payload.length ++ toLe 4 (recordCrc crc32 recordSeq payload).toNat ++
    toLe 8 recordSeq
  payload := payload

/-- Whether the checksum of a frame matches. -/
def crcOk (f : Frame UInt8) : Bool :=
  (recordCrc crc32 (hdrSeq f.hdr) f.payload).toNat == hdrCrc f.hdr

/-- The record of a frame. -/
def record (f : Frame UInt8) : WalRecord := ⟨hdrSeq f.hdr, f.payload⟩

variable {crc32} {seq : ℕ} {payload : Bytes}

@[simp] theorem length_frame_bytes :
    (frame crc32 seq payload).bytes.length = headerBytes + payload.length := by
  simp [frame, Frame.bytes, headerBytes]
  omega

theorem frame_wellFormed (h : payload.length < u32Size) :
    format.WellFormed (frame crc32 seq payload) := by
  refine ⟨by simp [frame, format, headerBytes], ?_⟩
  change hdrLen _ = payload.length
  rw [hdrLen, frame, List.append_assoc, List.take_left' (length_toLe 4 _)]
  exact fromLe_toLe_of_lt (by simpa [u32Size] using h)

theorem hdrSeq_frame (h : seq < u64Size) : hdrSeq (frame crc32 seq payload).hdr = seq := by
  rw [hdrSeq, frame, List.drop_left' (by simp), List.take_of_length_le (by simp)]
  exact fromLe_toLe_of_lt (by simpa [u64Size] using h)

theorem record_frame (h : seq < u64Size) : record (frame crc32 seq payload) = ⟨seq, payload⟩ := by
  rw [record, hdrSeq_frame h]
  rfl

theorem crcOk_frame (h : seq < u64Size) : crcOk crc32 (frame crc32 seq payload) = true := by
  rw [crcOk, hdrSeq_frame h, beq_iff_eq, hdrCrc, frame, List.append_assoc,
    List.drop_left' (length_toLe 4 _), List.take_left' (length_toLe 4 _), fromLe_toLe_of_lt]
  simpa using (recordCrc crc32 seq payload).toNat_lt

variable (crc32) (seq) in
/-- **An appended frame reads back**, behind a file that ends on a frame boundary. -/
theorem frames_append_frame {bs : Bytes} (hbs : format.leftover bs = [])
    (h : payload.length < u32Size) :
    format.frames (bs ++ (frame crc32 seq payload).bytes) =
        format.frames bs ++ [frame crc32 seq payload] ∧
      format.leftover (bs ++ (frame crc32 seq payload).bytes) = [] := by
  rw [format.frames_append_of_leftover_nil hbs, format.leftover_append_of_leftover_nil hbs,
    format.frames_bytes (frame_wellFormed h), format.leftover_bytes (frame_wellFormed h)]
  exact ⟨rfl, rfl⟩

/-! ### What a file holds -/

/-- The largest sequence number a scan of a file meets, its checksums unread. -/
def scanMaxRecordSeq (bs : Bytes) : ℕ :=
  (format.frames bs).foldl (fun m f => if hdrSeq f.hdr > m then hdrSeq f.hdr else m) 0

theorem le_scanMaxRecordSeq {bs : Bytes} {f : Frame UInt8} (hf : f ∈ format.frames bs) :
    hdrSeq f.hdr ≤ scanMaxRecordSeq bs := by
  have h : ∀ (l : List (Frame UInt8)) (m : ℕ),
      m ≤ l.foldl (fun m f => if hdrSeq f.hdr > m then hdrSeq f.hdr else m) m ∧
      ∀ g ∈ l, hdrSeq g.hdr ≤
        l.foldl (fun m f => if hdrSeq f.hdr > m then hdrSeq f.hdr else m) m := by
    intro l
    induction l with
    | nil => simp
    | cons a l ih =>
      intro m
      obtain ⟨hle, hall⟩ := ih (if hdrSeq a.hdr > m then hdrSeq a.hdr else m)
      have hm : m ≤ if hdrSeq a.hdr > m then hdrSeq a.hdr else m := by split_ifs <;> omega
      have ha : hdrSeq a.hdr ≤ if hdrSeq a.hdr > m then hdrSeq a.hdr else m := by
        split_ifs <;> omega
      refine ⟨hm.trans hle, fun g hg => ?_⟩
      rcases List.mem_cons.mp hg with rfl | hg
      · exact ha.trans hle
      · exact hall g hg
  exact (h _ 0).2 f hf

theorem scanMaxRecordSeq_le {bs : Bytes} {n : ℕ} (h : ∀ f ∈ format.frames bs, hdrSeq f.hdr ≤ n) :
    scanMaxRecordSeq bs ≤ n := by
  have hfold : ∀ (l : List (Frame UInt8)) (m : ℕ), m ≤ n → (∀ f ∈ l, hdrSeq f.hdr ≤ n) →
      l.foldl (fun m f => if hdrSeq f.hdr > m then hdrSeq f.hdr else m) m ≤ n := by
    intro l
    induction l with
    | nil => exact fun _ hm _ => hm
    | cons f l ih =>
      intro m hm hl
      refine ih _ ?_ fun g hg => hl g (List.mem_cons_of_mem f hg)
      simp only
      split_ifs
      · exact hl f (List.mem_cons_self ..)
      · exact hm
  exact hfold _ 0 (Nat.zero_le n) h

variable (crc32)

/-- The intact records of a file: those whose frame can be read and whose checksum matches. -/
def fileRecords (bs : Bytes) : List WalRecord :=
  ((format.frames bs).filter fun f => crcOk crc32 f).map record

variable {crc32}

theorem fileRecords_prefix_append (bs x : Bytes) :
    fileRecords crc32 bs <+: fileRecords crc32 (bs ++ x) :=
  ((format.frames_prefix_append bs x).filter _).map _

theorem fileRecords_append_frame {bs : Bytes} (hbs : format.leftover bs = [])
    (hp : payload.length < u32Size) (hs : seq < u64Size) :
    fileRecords crc32 (bs ++ (frame crc32 seq payload).bytes) =
      fileRecords crc32 bs ++ [⟨seq, payload⟩] := by
  rw [fileRecords, (frames_append_frame crc32 seq hbs hp).1, List.filter_append, List.map_append,
    List.filter_cons_of_pos (crcOk_frame hs)]
  simp [fileRecords, record_frame hs]

theorem fileRecords_nil : fileRecords crc32 [] = [] := by
  rw [fileRecords, format.frames_nil]
  rfl

end Wal

/-! ### The directory -/

namespace WalDir

/-- Append bytes to a file through an open handle. A file that was removed meanwhile takes
the bytes with it. -/
def write (dir : WalDir) (file : ℕ) (bytes : Bytes) : WalDir :=
  match dir.get? file with
  | some bs => dir.insert file (bs ++ bytes)
  | none => dir

/-- Open a file for appending, creating it if there is none. -/
def create (dir : WalDir) (file : ℕ) : WalDir := dir.upsert file fun bs => bs.getD []

/-- The intact records of the directory, in file order. -/
def records (crc32 : Bytes → UInt32) (dir : WalDir) : List WalRecord :=
  dir.values.flatMap (Wal.fileRecords crc32)

variable {crc32 : Bytes → UInt32} {dir dir' : WalDir}

theorem mem_records {r : WalRecord} :
    r ∈ dir.records crc32 ↔ ∃ file bs, dir.get? file = some bs ∧ r ∈ Wal.fileRecords crc32 bs := by
  simp only [records, SortedMap.values, List.mem_flatMap, List.mem_map, Prod.exists,
    SortedMap.get?_eq_some_iff]
  constructor
  · rintro ⟨bs, ⟨file, bs', h, rfl⟩, hr⟩
    exact ⟨file, bs', h, hr⟩
  · rintro ⟨file, bs, h, hr⟩
    exact ⟨bs, ⟨file, bs, h, rfl⟩, hr⟩

/-- A directory grows into another when no file of it is lost or shortened. -/
def Grows (dir dir' : WalDir) : Prop :=
  ∀ file bs, dir.get? file = some bs → ∃ x, dir'.get? file = some (bs ++ x)

theorem Grows.refl (dir : WalDir) : dir.Grows dir :=
  fun _ bs h => ⟨[], by rw [List.append_nil, h]⟩

theorem Grows.trans {dir'' : WalDir} (h : dir.Grows dir') (h' : dir'.Grows dir'') :
    dir.Grows dir'' := by
  intro file bs hbs
  obtain ⟨x, hx⟩ := h file bs hbs
  obtain ⟨y, hy⟩ := h' file _ hx
  exact ⟨x ++ y, by rw [hy, List.append_assoc]⟩

/-- **Growing files forget no record.** -/
theorem records_mono (h : dir.Grows dir') {r : WalRecord} (hr : r ∈ dir.records crc32) :
    r ∈ dir'.records crc32 := by
  obtain ⟨file, bs, hbs, hr⟩ := mem_records.mp hr
  obtain ⟨x, hx⟩ := h file bs hbs
  exact mem_records.mpr ⟨file, _, hx, (Wal.fileRecords_prefix_append bs x).subset hr⟩

theorem get?_write {file k : ℕ} {bytes bs : Bytes} (hbs : dir.get? file = some bs) :
    (dir.write file bytes).get? k = if k = file then some (bs ++ bytes) else dir.get? k := by
  rw [write, hbs]
  simp only [SortedMap.insert]
  split_ifs with hk
  · subst hk
    exact SortedMap.get?_upsert_self ..
  · exact SortedMap.get?_upsert_ne dir hk _

theorem mem_keys_write {file k : ℕ} {bytes bs : Bytes} (hbs : dir.get? file = some bs) :
    k ∈ (dir.write file bytes).keys ↔ k ∈ dir.keys := by
  have hfile : file ∈ dir.keys := by
    rw [← SortedMap.contains_iff_mem_keys, SortedMap.contains, hbs]
    rfl
  rw [write, hbs]
  simp only [SortedMap.mem_keys_insert]
  exact ⟨fun h => h.elim (fun h => h ▸ hfile) id, Or.inr⟩

theorem get?_create {file k : ℕ} :
    (dir.create file).get? k = if k = file then some ((dir.get? file).getD []) else dir.get? k := by
  rw [create]
  split_ifs with hk
  · subst hk
    exact SortedMap.get?_upsert_self ..
  · exact SortedMap.get?_upsert_ne dir hk _

theorem grows_write (dir : WalDir) (file : ℕ) (bytes : Bytes) :
    dir.Grows (dir.write file bytes) := by
  intro k bs hk
  rcases hf : dir.get? file with _ | old
  · exact ⟨[], by rw [write, hf, hk, List.append_nil]⟩
  · rw [get?_write hf]
    split_ifs with he
    · subst he
      rw [hk] at hf
      cases hf
      exact ⟨bytes, rfl⟩
    · exact ⟨[], by rw [hk, List.append_nil]⟩

theorem grows_create (dir : WalDir) (file : ℕ) : dir.Grows (dir.create file) := by
  intro k bs hk
  rw [get?_create]
  split_ifs with he
  · subst he
    exact ⟨[], by rw [hk, List.append_nil, Option.getD_some]⟩
  · exact ⟨[], by rw [hk, List.append_nil]⟩

/-- **A frame written behind a whole file is one more record of the log.** -/
theorem records_write_perm {file seq : ℕ} {bs payload : Bytes} (hbs : dir.get? file = some bs)
    (hleft : Wal.format.leftover bs = []) (hp : payload.length < u32Size) (hs : seq < u64Size) :
    ((dir.write file (Wal.frame crc32 seq payload).bytes).records crc32).Perm
      (⟨seq, payload⟩ :: dir.records crc32) := by
  simp only [records, SortedMap.values, List.flatMap_map, write, hbs, SortedMap.insert]
  refine SortedMap.flatMap_upsert_perm (fun e : ℕ × Bytes => Wal.fileRecords crc32 e.2) dir file _
    [⟨seq, payload⟩] ?_
  rw [hbs, Wal.fileRecords_append_frame hleft hp hs]
  simp

theorem records_create_perm (dir : WalDir) (file : ℕ) :
    ((dir.create file).records crc32).Perm (dir.records crc32) := by
  simp only [records, SortedMap.values, List.flatMap_map, create]
  refine SortedMap.flatMap_upsert_perm (fun e : ℕ × Bytes => Wal.fileRecords crc32 e.2) dir file _
    [] ?_
  rcases dir.get? file with _ | bs
  · simp [Wal.fileRecords_nil]
  · simp

/-- Opening a file no smaller than the last one: the files are the old ones, and an empty one
if it was not there. -/
theorem values_create {k : ℕ} (h : ∀ k' ∈ dir.keys, k' ≤ k) :
    (dir.create k).values = dir.values ∨
      dir.get? k = none ∧ (dir.create k).values = dir.values ++ [[]] := by
  obtain ⟨a, hu, ha⟩ := dir.upsert_last h fun bs => bs.getD []
  rcases hk : dir.get? k with _ | bs
  · refine Or.inr ⟨rfl, ?_⟩
    simp [WalDir.create, SortedMap.values, hu, ha, hk]
  · refine Or.inl ?_
    simp [WalDir.create, SortedMap.values, hu, ha, hk]

end WalDir

/-! ### The writer -/

/-- The appender: one open handle, and the counters the next append goes by. -/
structure WalWriter where
  /-- The file the handle was opened on. -/
  file : ℕ
  /-- The number of the current file. -/
  fileSeq : ℕ
  /-- The size of the current file. -/
  fileBytes : ℕ
  /-- The sequence number of the next record. -/
  nextRecordSeq : ℕ
  /-- The size at which a file is rotated out. -/
  rotationBytes : ℕ
  deriving DecidableEq

/-- What the file operations of one append do. -/
structure AppendIo where
  /-- Where the write stops short, if it does. -/
  write : Option ℕ
  /-- Whether the sync succeeds. -/
  sync : Bool
  /-- Whether the next file can be opened, should the append rotate. -/
  rotate : Bool
  deriving DecidableEq

/-- Every file operation of the append succeeds. -/
def AppendIo.ok : AppendIo := ⟨none, true, true⟩

namespace WalWriter

/-- Open the log for appending: the last file is the current one, and the next sequence
number is past the largest one any file holds. -/
def openWithRotation (dir : WalDir) (rotationBytes : ℕ) : WalWriter × WalDir :=
  let fileSeq := dir.keys.getLast?.getD 0
  let nextRecordSeq := dir.values.foldl
    (fun next bs =>
      let m := Wal.scanMaxRecordSeq bs
      if (m + 1) % u64Size > next then (m + 1) % u64Size else next) 1
  let dir := dir.create fileSeq
  (⟨fileSeq, fileSeq, ((dir.get? fileSeq).getD []).length, nextRecordSeq, rotationBytes⟩, dir)

/-- Open the log with the rotation size of the server. -/
def «open» (dir : WalDir) : WalWriter × WalDir := openWithRotation dir defaultRotationBytes

/-- Advance to the next file. The counter moves first; the handle only if the file opens. -/
def rotate (ioOk : Bool) (w : WalWriter) (dir : WalDir) :
    Except WalError Unit × WalWriter × WalDir :=
  let w := { w with fileSeq := (w.fileSeq + 1) % u64Size }
  if ioOk then (.ok (), { w with file := w.fileSeq, fileBytes := 0 }, dir.create w.fileSeq)
  else (.error .io, w, dir)

/-- Append one payload and sync it; the result is the record's sequence number. -/
def append (crc32 : Bytes → UInt32) (io : AppendIo) (w : WalWriter) (dir : WalDir)
    (payload : Bytes) : Except WalError ℕ × WalWriter × WalDir :=
  if payload.length > u32Size - 1 then (.error (.payloadTooLarge payload.length), w, dir)
  else
    let recordSeq := w.nextRecordSeq
    let frame := (Wal.frame crc32 recordSeq payload).bytes
    match io.write with
    | some k => (.error .io, w, dir.write w.file (frame.take k))
    | none =>
      let dir := dir.write w.file frame
      if !io.sync then (.error .io, w, dir)
      else
        let w := { w with
          fileBytes := w.fileBytes + frame.length
          nextRecordSeq := (w.nextRecordSeq + 1) % u64Size }
        if w.fileBytes ≥ w.rotationBytes then
          match w.rotate io.rotate dir with
          | (.error e, w, dir) => (.error e, w, dir)
          | (.ok (), w, dir) => (.ok recordSeq, w, dir)
        else (.ok recordSeq, w, dir)

/-- Delete the files, other than the current one, whose records are all flushed. -/
def truncateThrough (w : WalWriter) (dir : WalDir) (flushedThroughSeq : ℕ) : WalDir :=
  dir.filter fun fileSeq bs =>
    fileSeq == w.fileSeq || !decide (Wal.scanMaxRecordSeq bs ≤ flushedThroughSeq)

/-- The files a truncation removes. -/
def removed (w : WalWriter) (dir : WalDir) (flushedThroughSeq : ℕ) : List (ℕ × Bytes) :=
  dir.entries.filter fun e =>
    e.1 != w.fileSeq && decide (Wal.scanMaxRecordSeq e.2 ≤ flushedThroughSeq)

variable {crc32 : Bytes → UInt32} {w : WalWriter} {dir : WalDir} {s : ℕ}

theorem mem_removed {file : ℕ} {bs : Bytes} :
    (file, bs) ∈ w.removed dir s ↔
      dir.get? file = some bs ∧ file ≠ w.fileSeq ∧ Wal.scanMaxRecordSeq bs ≤ s := by
  simp [removed, SortedMap.get?_eq_some_iff]

theorem get?_truncateThrough {file : ℕ} {bs : Bytes} :
    (w.truncateThrough dir s).get? file = some bs ↔
      dir.get? file = some bs ∧ (file, bs) ∉ w.removed dir s := by
  rw [SortedMap.get?_eq_some_iff, truncateThrough, SortedMap.mem_entries_filter, mem_removed,
    ← SortedMap.get?_eq_some_iff]
  simp only [Bool.or_eq_true, beq_iff_eq, Bool.not_eq_true', decide_eq_false_iff_not]
  tauto

/-- **What a truncation forgets**: a record survives unless a removed file holds it. -/
theorem mem_records_truncateThrough {r : WalRecord} (hr : r ∈ dir.records crc32) :
    r ∈ (w.truncateThrough dir s).records crc32 ∨
      ∃ e ∈ w.removed dir s, r ∈ Wal.fileRecords crc32 e.2 := by
  obtain ⟨file, bs, hbs, hr⟩ := WalDir.mem_records.mp hr
  by_cases h : (file, bs) ∈ w.removed dir s
  · exact Or.inr ⟨(file, bs), h, hr⟩
  · exact Or.inl (WalDir.mem_records.mpr ⟨file, bs, get?_truncateThrough.mpr ⟨hbs, h⟩, hr⟩)

/-! ### Successful appends -/

/-- The directory a successful append leaves. -/
def appended (crc32 : Bytes → UInt32) (w : WalWriter) (dir : WalDir) (payload : Bytes) :
    WalWriter × WalDir :=
  let frame := (Wal.frame crc32 w.nextRecordSeq payload).bytes
  let dir := dir.write w.file frame
  let w := { w with
    fileBytes := w.fileBytes + frame.length
    nextRecordSeq := (w.nextRecordSeq + 1) % u64Size }
  if w.fileBytes ≥ w.rotationBytes then
    let next := (w.fileSeq + 1) % u64Size
    ({ w with file := next, fileSeq := next, fileBytes := 0 }, dir.create next)
  else (w, dir)

theorem nextRecordSeq_appended (payload : Bytes) :
    (w.appended crc32 dir payload).1.nextRecordSeq = (w.nextRecordSeq + 1) % u64Size := by
  rw [appended]
  simp only
  split_ifs <;> rfl

/-- **A successful append**, when no file operation fails and the payload fits. -/
theorem append_ok {payload : Bytes} (h : payload.length < u32Size) :
    w.append crc32 .ok dir payload =
      (.ok w.nextRecordSeq, w.appended crc32 dir payload) := by
  have hlen : ¬payload.length > u32Size - 1 := by omega
  simp only [append, AppendIo.ok, hlen, if_false, Bool.not_true, Bool.false_eq_true, appended,
    rotate, if_true]
  split_ifs <;> rfl

theorem append_tooLarge {io : AppendIo} {payload : Bytes} (h : ¬payload.length < u32Size) :
    w.append crc32 io dir payload = (.error (.payloadTooLarge payload.length), w, dir) := by
  have hlen : payload.length > u32Size - 1 := by
    have : 0 < u32Size := by decide
    omega
  simp only [append, hlen, if_true]

theorem grows_appended (payload : Bytes) : dir.Grows (w.appended crc32 dir payload).2 := by
  rw [appended]
  simp only
  split_ifs
  · exact (WalDir.grows_write dir w.file _).trans (WalDir.grows_create _ _)
  · exact WalDir.grows_write dir w.file _

/-- A writer in order: its handle is on the current file, which exists and ends on a frame
boundary, like every other file; the next sequence number fits its field. -/
structure InOrder (w : WalWriter) (dir : WalDir) : Prop where
  /-- The handle is on the current file. -/
  handle : w.file = w.fileSeq
  /-- The current file exists. -/
  current : (dir.get? w.fileSeq).isSome
  /-- No file ends inside a frame. -/
  boundary : ∀ file bs, dir.get? file = some bs → Wal.format.leftover bs = []
  /-- The next sequence number is a `u64`. -/
  seq_lt : w.nextRecordSeq < u64Size

theorem nextRecordSeq_openWithRotation_lt (dir : WalDir) (rotationBytes : ℕ) :
    (openWithRotation dir rotationBytes).1.nextRecordSeq < u64Size := by
  have hpos : 1 < u64Size := by decide
  have hfold : ∀ (l : List Bytes) (n : ℕ), n < u64Size →
      l.foldl (fun next bs =>
        let m := Wal.scanMaxRecordSeq bs
        if (m + 1) % u64Size > next then (m + 1) % u64Size else next) n < u64Size := by
    intro l
    induction l with
    | nil => exact fun _ hn => hn
    | cons bs l ih =>
      intro n hn
      refine ih _ ?_
      simp only
      split_ifs
      · exact Nat.mod_lt _ (by omega)
      · exact hn
  exact hfold _ 1 hpos

theorem isSome_current_openWithRotation (dir : WalDir) (rotationBytes : ℕ) :
    ((openWithRotation dir rotationBytes).2.get?
      (openWithRotation dir rotationBytes).1.fileSeq).isSome := by
  simp [openWithRotation, WalDir.get?_create]

/-- Opening a log adds no file to one that has any. -/
theorem values_openWithRotation (dir : WalDir) (rotationBytes : ℕ) :
    (openWithRotation dir rotationBytes).2.values = dir.values ∨
      dir.values = [] ∧ (openWithRotation dir rotationBytes).2.values = [[]] := by
  rcases hl : dir.keys.getLast? with _ | l
  · have hnil : dir.values = [] := by
      rw [List.getLast?_eq_none_iff, SortedMap.keys, List.map_eq_nil_iff] at hl
      rw [SortedMap.values, hl, List.map_nil]
    have hempty : ∀ k' ∈ dir.keys, k' ≤ 0 := by
      rw [List.getLast?_eq_none_iff.mp hl]
      simp
    simp only [openWithRotation, hl, Option.getD_none]
    refine (WalDir.values_create hempty).imp id fun hcreated => ⟨hnil, ?_⟩
    rw [hcreated.2, hnil]
    rfl
  · have hmem := List.mem_of_getLast? hl
    rw [← SortedMap.contains_iff_mem_keys, SortedMap.contains] at hmem
    simp only [openWithRotation, hl, Option.getD_some]
    rcases WalDir.values_create fun k' hk' => SortedMap.le_getLast_keys hl hk' with hv | ⟨hnone, -⟩
    · exact Or.inl hv
    · rw [hnone] at hmem
      cases hmem

/-- **A writer opened on whole files is in order.** -/
theorem inOrder_openWithRotation
    (h : ∀ file bs, dir.get? file = some bs → Wal.format.leftover bs = []) (rotationBytes : ℕ) :
    (openWithRotation dir rotationBytes).1.InOrder (openWithRotation dir rotationBytes).2 := by
  refine ⟨rfl, isSome_current_openWithRotation dir rotationBytes, ?_, ?_⟩
  · intro file bs hf
    simp only [openWithRotation, WalDir.get?_create] at hf
    split_ifs at hf with hk
    · cases hf
      rcases hold : dir.get? (dir.keys.getLast?.getD 0) with _ | old
      · exact Wal.format.leftover_nil
      · exact h _ _ hold
    · exact h file bs hf
  · exact nextRecordSeq_openWithRotation_lt dir rotationBytes

variable (crc32) in
/-- **An in-order writer records what it appends**, and stays in order. -/
theorem InOrder.appended (h : w.InOrder dir) {payload : Bytes} (hp : payload.length < u32Size) :
    (w.appended crc32 dir payload).1.InOrder (w.appended crc32 dir payload).2 ∧
      ⟨w.nextRecordSeq, payload⟩ ∈ (w.appended crc32 dir payload).2.records crc32 := by
  obtain ⟨bs, hbs⟩ := Option.isSome_iff_exists.mp h.current
  rw [← h.handle] at hbs
  have hframe := Wal.frames_append_frame crc32 w.nextRecordSeq (h.boundary _ _ hbs) hp
  have hpos : 0 < u64Size := by decide
  have hboundary : ∀ file bs',
      (dir.write w.file (Wal.frame crc32 w.nextRecordSeq payload).bytes).get? file = some bs' →
        Wal.format.leftover bs' = [] := by
    intro file bs' hf
    rw [WalDir.get?_write hbs] at hf
    split_ifs at hf with hk
    · cases hf
      exact hframe.2
    · exact h.boundary file bs' hf
  have hrec : ⟨w.nextRecordSeq, payload⟩ ∈
      (dir.write w.file (Wal.frame crc32 w.nextRecordSeq payload).bytes).records crc32 := by
    refine WalDir.mem_records.mpr ⟨w.file, _, (WalDir.get?_write hbs).trans (if_pos rfl), ?_⟩
    rw [Wal.fileRecords_append_frame (h.boundary _ _ hbs) hp h.seq_lt]
    exact List.mem_append_right _ (List.mem_singleton_self _)
  rw [WalWriter.appended]
  simp only
  split_ifs with hrot
  · -- rotated: the new current file is there and empty, or was there already
    refine ⟨⟨rfl, by rw [WalDir.get?_create, if_pos rfl]; rfl, ?_, Nat.mod_lt _ hpos⟩,
      WalDir.records_mono (WalDir.grows_create _ _) hrec⟩
    intro file bs' hf
    rw [WalDir.get?_create] at hf
    split_ifs at hf with hk
    · cases hf
      rcases hold : (dir.write w.file _).get? ((w.fileSeq + 1) % u64Size) with _ | old
      · exact Wal.format.leftover_nil
      · exact hboundary _ _ hold
    · exact hboundary file bs' hf
  · refine ⟨⟨h.handle, ?_, hboundary, Nat.mod_lt _ hpos⟩, hrec⟩
    rw [WalDir.get?_write hbs, ← h.handle, if_pos rfl]
    rfl

/-- **An in-order writer adds one record**, rotation or not. -/
theorem InOrder.records_appended (h : w.InOrder dir) {payload : Bytes}
    (hp : payload.length < u32Size) :
    ((w.appended crc32 dir payload).2.records crc32).Perm
      (⟨w.nextRecordSeq, payload⟩ :: dir.records crc32) := by
  obtain ⟨bs, hbs⟩ := Option.isSome_iff_exists.mp h.current
  rw [← h.handle] at hbs
  have hwrite :
      ((dir.write w.file (Wal.frame crc32 w.nextRecordSeq payload).bytes).records crc32).Perm
        (⟨w.nextRecordSeq, payload⟩ :: dir.records crc32) :=
    WalDir.records_write_perm hbs (h.boundary _ _ hbs) hp h.seq_lt
  rw [WalWriter.appended]
  simp only
  split_ifs
  · exact (WalDir.records_create_perm _ _).trans hwrite
  · exact hwrite

theorem InOrder.truncateThrough (h : w.InOrder dir) (s : ℕ) :
    w.InOrder (w.truncateThrough dir s) := by
  obtain ⟨bs, hbs⟩ := Option.isSome_iff_exists.mp h.current
  refine ⟨h.handle, ?_, fun file bs hf => h.boundary file bs (get?_truncateThrough.mp hf).1,
    h.seq_lt⟩
  rw [get?_truncateThrough.mpr ⟨hbs, fun hrem => (mem_removed.mp hrem).2.1 rfl⟩]
  rfl

end WalWriter

end Skaldberg
