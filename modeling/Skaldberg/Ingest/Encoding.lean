import Skaldberg.Ingest.Service
import Skaldberg.Prometheus.Float

/-!
# The encodings the server links

The checksum and the payload text are computed by other crates, and the write path takes them
as a parameter (`Extern`). This module writes them down for the samples whose values are
integral, in order to run the write path on concrete inputs: the checksum is the reflected
CRC-32, the payload the compact JSON text of the batch.

Reading a payload back is inverting the writer, so a reader is given by the batches it
recognises (`Extern.serving`).
-/

namespace Skaldberg

namespace Encoding

/-- Shift `n` bits out of the checksum register. -/
def crcShift (c : UInt32) : ℕ → UInt32
  | 0 => c
  | n + 1 => crcShift (if c &&& 1 = 1 then (c >>> 1) ^^^ 0xEDB88320 else c >>> 1) n

/-- The reflected CRC-32 of a byte sequence. -/
def crc32 (bs : Bytes) : UInt32 :=
  bs.foldl (fun c b => crcShift (c ^^^ b.toUInt32) 8) 0xFFFFFFFF ^^^ 0xFFFFFFFF

/-- A hexadecimal digit. -/
def hexDigit (n : ℕ) : Char := if n < 10 then Char.ofNat (48 + n) else Char.ofNat (87 + n)

/-- A character inside a JSON string. -/
def jsonChar (c : Char) : List Char :=
  if c = '"' then ['\\', '"']
  else if c = '\\' then ['\\', '\\']
  else if c.toNat = 8 then ['\\', 'b']
  else if c.toNat = 9 then ['\\', 't']
  else if c.toNat = 10 then ['\\', 'n']
  else if c.toNat = 12 then ['\\', 'f']
  else if c.toNat = 13 then ['\\', 'r']
  else if c.toNat < 32 then
    ['\\', 'u', '0', '0', hexDigit (c.toNat / 16), hexDigit (c.toNat % 16)]
  else [c]

/-- A JSON string. -/
def jsonString (s : String) : List Char := '"' :: s.toList.flatMap jsonChar ++ ['"']

/-- A JSON integer. -/
def jsonInt (n : ℤ) : List Char := (toString n).toList

/-- The text of a sample; a float whose value is an integer prints with a fractional part. -/
def jsonSample (s : ValidatedSample ℤ) : List Char :=
  "\x7b\"series_id\":".toList ++ jsonInt s.seriesId ++
    ",\"metric\":".toList ++ jsonString s.metric ++
    ",\"labels\":\x7b".toList ++
    [','].intercalate (s.labels.entries.map fun e => jsonString e.1 ++ ':' :: jsonString e.2) ++
    "\x7d,\"ts_us\":".toList ++ jsonInt s.tsUs ++ ",\"value\":".toList ++ jsonInt s.value ++
    ".0\x7d".toList

/-- The payload of a batch. -/
def toVec (samples : List (ValidatedSample ℤ)) : Bytes :=
  ('[' :: [','].intercalate (samples.map jsonSample) ++ [']']).flatMap String.utf8EncodeChar

/-- A sample of a series of its own. -/
def sample (id : ℤ) : ValidatedSample ℤ := ⟨id, "up", .ofList [("job", "a")], 1714800000000000, 1⟩

/-- The encodings of samples with whole values, of which nothing is read back. -/
def wholeCodec : Extern Whole where
  crc32 := crc32
  toVec samples := toVec (samples.map fun x =>
    ⟨x.seriesId, x.metric, x.labels, x.tsUs, x.value.toInt⟩)
  fromSlice _ := none

end Encoding

/-- The encodings, reading back the given batches. -/
def Extern.serving (batches : List (List (ValidatedSample ℤ))) : Extern ℤ where
  crc32 := Encoding.crc32
  toVec := Encoding.toVec
  fromSlice := fun bs => batches.find? fun samples => Encoding.toVec samples == bs

end Skaldberg
