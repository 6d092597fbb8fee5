import Mathlib.Data.String.Basic
import Skaldberg.Chrono
import Skaldberg.Lib.Decimal
import Skaldberg.Lib.Gregorian
import Skaldberg.Lib.SortedMap
import Skaldberg.Prometheus.Float

/-!
# Rows as JSON

What a client sees of a query's record batches: a JSON object for each row, with a member for each
column. A cell is converted by its data type (`Skaldberg.Cell.toJson`); a timestamp is split into
seconds and nanoseconds (`Skaldberg.TimeUnit.pair`) and printed as a date and a time of day
(`Skaldberg.DateTime.text`).
-/

namespace Skaldberg

/-! ### Timestamps -/

/-- The time unit of a timestamp column. -/
inductive TimeUnit
  /-- `Second`. -/
  | second
  /-- `Millisecond`. -/
  | millisecond
  /-- `Microsecond`. -/
  | microsecond
  /-- `Nanosecond`. -/
  | nanosecond
  deriving DecidableEq

/-- The seconds and nanoseconds that a timestamp is split into: the quotient rounds towards zero,
the remainder is never negative. -/
def TimeUnit.pair : TimeUnit → ℤ → ℤ × ℕ
  | second, v => (v, 0)
  | millisecond, v => (v.tdiv 1000, (v % 1000).toNat * 1000000)
  | microsecond, v => (v.tdiv 1000000, (v % 1000000).toNat * 1000)
  | nanosecond, v => (v.tdiv 1000000000, (v % 1000000000).toNat)

/-- A date and a time of day, as they are printed. -/
structure Stamp where
  /-- The date. -/
  date : Gregorian.Date
  /-- The hour. -/
  hour : ℕ
  /-- The minute. -/
  minute : ℕ
  /-- The second. -/
  second : ℕ
  /-- The microseconds above the second. -/
  micros : ℕ
  deriving DecidableEq

/-- The date and the time of day of an instant; a leap second is the sixtieth of its minute. -/
def DateTime.stamp (dt : DateTime) : Stamp where
  date := Gregorian.ofDayNumber dt.dateNaive
  hour := (dt.secs % 86400 / 3600).toNat
  minute := (dt.secs % 3600 / 60).toNat
  second := (dt.secs % 60).toNat + dt.nanos / 1000000000
  micros := dt.nanos % 1000000000 / 1000

/-- `%Y`: four digits, and a sign where that is not the whole year. -/
def yearText (year : ℤ) : List Char :=
  if 0 ≤ year ∧ year ≤ 9999 then Decimal.field 4 year.toNat
  else (if year < 0 then '-' else '+') :: Decimal.field 4 year.natAbs

/-- `%Y-%m-%d`. -/
def dateText (date : Gregorian.Date) : List Char :=
  yearText date.year ++ '-' :: Decimal.field 2 date.month.toNat ++ '-' ::
    Decimal.field 2 date.day.toNat

/-- `%H:%M:%S%.6f`. -/
def Stamp.clockText (s : Stamp) : List Char :=
  Decimal.field 2 s.hour ++ ':' :: Decimal.field 2 s.minute ++ ':' :: Decimal.field 2 s.second ++
    '.' :: Decimal.field 6 s.micros

/-- `%Y-%m-%dT%H:%M:%S%.6fZ`. -/
def Stamp.text (s : Stamp) : String :=
  String.ofList (dateText s.date ++ 'T' :: s.clockText ++ ['Z'])

/-- The text of a timestamp. -/
def TimeUnit.text (unit : TimeUnit) (v : ℤ) : String :=
  match DateTime.fromTimestamp (unit.pair v).1 (unit.pair v).2 with
  | some dt => dt.stamp.text
  | none => "ts_oor:" ++ toString (unit.pair v).1

/-- The text of a day, counted from the epoch. -/
def date32Text (d : ℤ) : String :=
  if minSecs ≤ d * 86400 ∧ d * 86400 ≤ maxSecs then
    String.ofList (dateText (Gregorian.ofDayNumber d))
  else "date32_oor:" ++ toString d

/-! ### Cells -/

/-- A JSON value. -/
inductive Json (F : Type)
  /-- `null`. -/
  | null
  /-- A boolean. -/
  | bool (b : Bool)
  /-- A whole number. -/
  | int (n : ℤ)
  /-- A double. -/
  | float (v : F)
  /-- A string. -/
  | string (s : String)
  /-- An array. -/
  | array (items : List (Json F))
  /-- An object, as its members in the order of their names. -/
  | object (members : List (String × Json F))

/-- A cell of an array, with what its data type holds. -/
inductive Cell (F : Type)
  /-- Null. -/
  | null
  /-- `Boolean`. -/
  | boolean (b : Bool)
  /-- `Int8` to `Int64`, `UInt8` to `UInt64`. -/
  | int (n : ℤ)
  /-- `Float32` and `Float64`. -/
  | float (v : F)
  /-- `Utf8` and `LargeUtf8`. -/
  | utf8 (s : String)
  /-- `Timestamp`. -/
  | timestamp (unit : TimeUnit) (v : ℤ)
  /-- `Date32`. -/
  | date32 (d : ℤ)
  /-- `Map`: keys and values. -/
  | map (entries : List (Cell F × Cell F))
  /-- `List`. -/
  | list (items : List (Cell F))
  /-- `Struct`: the fields by name. -/
  | struct (fields : List (String × Cell F))
  /-- Any other data type, by its name. -/
  | other (dataType : String)

variable {F : Type}

/-- `Map::insert`. -/
def insertMember (row : List (String × Json F)) (name : String) (value : Json F) :
    List (String × Json F) :=
  SortedMap.upsertList name (fun _ => value) row

variable [F64 F]

/-- `num_f64`. -/
def numF64 (v : F) : Json F :=
  if F64.isFinite v then .float v
  else if F64.isNan v then .string "NaN"
  else if F64.lt (F64.ofInt 0) v then .string "Infinity"
  else .string "-Infinity"

mutual

/-- `array_cell_to_json`. The text of a JSON value is printed by the JSON library. -/
def Cell.toJson (print : Json F → String) : Cell F → Json F
  | .null => .null
  | .boolean b => .bool b
  | .int n => .int n
  | .float v => numF64 v
  | .utf8 s => .string s
  | .timestamp unit v => .string (unit.text v)
  | .date32 d => .string (date32Text d)
  | .map entries => .object (Cell.mapToJson print entries [])
  | .list items => .array (Cell.listToJson print items)
  | .struct fields => .object (Cell.structToJson print fields [])
  | .other dataType => .string ("unsupported:" ++ dataType)

/-- The entries of a map, inserted one after the other; those with a null key are skipped. -/
def Cell.mapToJson (print : Json F → String) :
    List (Cell F × Cell F) → List (String × Json F) → List (String × Json F)
  | [], obj => obj
  | (key, value) :: entries, obj =>
    let obj' := match key with
      | .null => obj
      | .utf8 s => insertMember obj s (Cell.toJson print value)
      | key =>
        let name := match Cell.toJson print key with
          | .string s => s
          | json => print json
        insertMember obj name (Cell.toJson print value)
    Cell.mapToJson print entries obj'

/-- The items of a list. -/
def Cell.listToJson (print : Json F → String) : List (Cell F) → List (Json F)
  | [] => []
  | item :: items => Cell.toJson print item :: Cell.listToJson print items

/-- The fields of a struct, inserted one after the other. -/
def Cell.structToJson (print : Json F → String) :
    List (String × Cell F) → List (String × Json F) → List (String × Json F)
  | [], obj => obj
  | (name, cell) :: fields, obj =>
    Cell.structToJson print fields (insertMember obj name (Cell.toJson print cell))

end

/-! ### Record batches -/

/-- A record batch: columns of one length, each with its name. -/
structure RecordBatch (F : Type) where
  /-- The columns. -/
  columns : List (String × List (Cell F))
  /-- The number of rows. -/
  numRows : ℕ
  /-- A column has a cell for every row. -/
  aligned : ∀ c ∈ columns, c.2.length = numRows

/-- `RecordBatch::slice`: some rows of a batch, from an offset. -/
def RecordBatch.slice (b : RecordBatch F) (offset length : ℕ) (h : offset + length ≤ b.numRows) :
    RecordBatch F where
  columns := b.columns.map fun c => (c.1, (c.2.drop offset).take length)
  numRows := length
  aligned := by
    intro c hc
    obtain ⟨c', hc', rfl⟩ := List.mem_map.mp hc
    have hlen := b.aligned c' hc'
    rw [List.length_take, List.length_drop, hlen]
    omega

/-- The object of a row: a member for each column. -/
def RecordBatch.jsonRow (print : Json F → String) (b : RecordBatch F) (r : ℕ) :
    List (String × Json F) :=
  -- a column has a cell for every row, so the default is not taken
  b.columns.foldl (fun row c => insertMember row c.1 ((c.2.getD r .null).toJson print)) []

/-- The objects of the rows of a batch. -/
def RecordBatch.jsonRows (print : Json F → String) (b : RecordBatch F) :
    List (List (String × Json F)) :=
  (List.range b.numRows).map (b.jsonRow print)

/-- `record_batches_to_json_rows`. -/
def recordBatchesToJsonRows (print : Json F → String) (batches : List (RecordBatch F)) :
    List (List (String × Json F)) :=
  batches.flatMap (RecordBatch.jsonRows print)

theorem RecordBatch.length_jsonRows (print : Json F → String) (b : RecordBatch F) :
    (b.jsonRows print).length = b.numRows := by
  rw [jsonRows, List.length_map, List.length_range]

/-- **The rows of a slice** are rows of the batch. -/
theorem RecordBatch.jsonRows_slice (print : Json F → String) (b : RecordBatch F)
    {offset length : ℕ} (h : offset + length ≤ b.numRows) :
    (b.slice offset length h).jsonRows print = ((b.jsonRows print).drop offset).take length := by
  refine List.ext_getElem ?_ fun r hr hr' => ?_
  · rw [length_jsonRows, List.length_take, List.length_drop, length_jsonRows]
    show length = min length (b.numRows - offset)
    omega
  · rw [length_jsonRows, slice] at hr
    have hcell : ∀ c : String × List (Cell F),
        ((c.2.drop offset).take length).getD r .null = c.2.getD (offset + r) .null := by
      intro c
      rw [List.getD_eq_getElem?_getD, List.getElem?_take_of_lt hr, List.getElem?_drop,
        List.getD_eq_getElem?_getD]
    simp only [jsonRows, jsonRow, slice, List.getElem_map, List.getElem_range, List.getElem_take,
      List.getElem_drop, List.foldl_map, hcell]

end Skaldberg
