import Mathlib.Algebra.GroupWithZero.Nat
import Skaldberg.Convert

/-!
# Queries with a cap

The answer to a SQL request has at most as many rows as the request allows. The engine returns all
of them, in batches, and a loop keeps whole batches as long as there is room, and then a slice of
one (`Skaldberg.trim`). What it keeps is what there is room for, in order, and it counts what it
keeps (`trim_spec`).

That the answer is cut is told from the batch at which the loop stops, and not from its rows: a
batch without rows counts as cut when there is no room left. So the flag is right exactly if the
room is not used up by rows with an empty batch at the end (`capped_runSql_iff`).
-/

namespace Skaldberg

variable {F : Type}

/-! ### The endpoint -/

/-- The name and the type of a column. -/
structure ColumnMeta where
  /-- The name. -/
  name : String
  /-- The data type, as text. -/
  type : String
  deriving DecidableEq

/-- A request. -/
structure SqlRequest where
  /-- The statement. -/
  sql : String
  /-- The most rows to return, if it says so. -/
  maxRows : Option ℕ

/-- `default_max_rows`. -/
def defaultMaxRows : ℕ := 100000

/-- The most rows a request is answered with. -/
def SqlRequest.cap (req : SqlRequest) : ℕ := req.maxRows.getD defaultMaxRows

/-- What an answer says of itself. -/
structure Meta where
  /-- The number of rows. -/
  rowCount : ℕ
  /-- The time it took. -/
  elapsedMs : ℕ
  /-- Whether rows were left out. -/
  truncated : Bool
  deriving DecidableEq

/-- An answer. -/
structure SqlResponse (F : Type) where
  /-- The columns. -/
  columns : List ColumnMeta
  /-- The rows. -/
  rows : List (List (String × Json F))
  /-- What it says of itself. -/
  info : Meta

/-- A refusal. -/
structure ApiError where
  /-- The HTTP status. -/
  status : ℕ
  /-- What is wrong. -/
  message : String
  deriving DecidableEq

/-- `ApiError::bad_request`. -/
def ApiError.badRequest (message : String) : ApiError := ⟨400, message⟩

/-- A planned statement: its columns, and its batches or the error of its execution. -/
structure DataFrame (F : Type) where
  /-- The columns. -/
  schema : List ColumnMeta
  /-- The batches. -/
  collect : Except String (List (RecordBatch F))

/-- What the loop over the batches has done. -/
structure Trimmed (F : Type) where
  /-- The number of rows kept. -/
  rowCount : ℕ
  /-- Whether it stopped early. -/
  truncated : Bool
  /-- The batches kept. -/
  batches : List (RecordBatch F)

/-- The loop over the batches, from the number of rows and the batches kept so far. -/
def trim (maxRows : ℕ) : ℕ → List (RecordBatch F) → List (RecordBatch F) → Trimmed F
  | rowCount, trimmed, [] => ⟨rowCount, false, trimmed⟩
  | rowCount, trimmed, batch :: batches =>
    let need := maxRows - rowCount
    if need = 0 then ⟨rowCount, true, trimmed⟩
    else if h : need < batch.numRows then
      ⟨rowCount + need, true, trimmed ++ [batch.slice 0 need (by omega)]⟩
    else trim maxRows (rowCount + batch.numRows) (trimmed ++ [batch]) batches

/-- `run_sql`. The engine plans and executes, and a clock runs beside it. -/
def runSql [F64 F] (engine : String → Except String (DataFrame F)) (print : Json F → String)
    (elapsedMs : ℕ) (req : SqlRequest) : Except ApiError (SqlResponse F) :=
  match engine req.sql with
  | .error e => .error (.badRequest ("sql parse/plan: " ++ e))
  | .ok df =>
    match df.collect with
    | .error e => .error (.badRequest ("sql execute: " ++ e))
    | .ok batches =>
      let kept := trim req.cap 0 [] batches
      .ok ⟨df.schema, recordBatchesToJsonRows print kept.batches,
        ⟨kept.rowCount, elapsedMs, kept.truncated⟩⟩

/-! ### The loop -/

/-- The number of rows of some batches. -/
def totalRows (batches : List (RecordBatch F)) : ℕ := (batches.map RecordBatch.numRows).sum

theorem totalRows_append (batches batches' : List (RecordBatch F)) :
    totalRows (batches ++ batches') = totalRows batches + totalRows batches' := by
  rw [totalRows, List.map_append, List.sum_append, totalRows, totalRows]

/-- The room ends with the rows, and an empty batch comes last. -/
def EmptyAfterFull (maxRows : ℕ) (batches : List (RecordBatch F)) : Prop :=
  totalRows batches = maxRows ∧ ∃ b, batches.getLast? = some b ∧ b.numRows = 0

theorem numRows_le_totalRows {b : RecordBatch F} {batches : List (RecordBatch F)}
    (hb : b ∈ batches) : b.numRows ≤ totalRows batches := by
  induction batches with
  | nil => exact absurd hb List.not_mem_nil
  | cons batch batches ih =>
    have htotal : totalRows (batch :: batches) = batch.numRows + totalRows batches := rfl
    rcases List.mem_cons.mp hb with rfl | hb
    · omega
    · have := ih hb
      omega

/-- While a batch fits into the room, what is left decides. -/
theorem emptyAfterFull_cons {room : ℕ} {batch : RecordBatch F} {batches : List (RecordBatch F)}
    (hroom : room ≠ 0) (hfits : batch.numRows ≤ room) :
    EmptyAfterFull room (batch :: batches) ↔ EmptyAfterFull (room - batch.numRows) batches := by
  have htotal : totalRows (batch :: batches) = batch.numRows + totalRows batches := rfl
  cases batches with
  | nil =>
    constructor
    · rintro ⟨hfull, b, hb, hempty⟩
      obtain rfl : batch = b := Option.some.inj hb
      have hnil : totalRows ([] : List (RecordBatch F)) = 0 := rfl
      omega
    · rintro ⟨-, b, hb, -⟩
      cases hb
  | cons batch' batches =>
    rw [EmptyAfterFull, EmptyAfterFull, List.getLast?_cons_cons, htotal]
    refine and_congr_left fun _ => ?_
    omega

/-- **When the loop says that it stopped early**: rows are left out, or there is no room left and
the last batch is empty. -/
theorem trim_truncated_iff (maxRows : ℕ) (batches : List (RecordBatch F)) (rowCount : ℕ)
    (trimmed : List (RecordBatch F)) (hroom : rowCount ≤ maxRows) :
    (trim maxRows rowCount trimmed batches).truncated = true ↔
      maxRows < rowCount + totalRows batches ∨
        EmptyAfterFull (maxRows - rowCount) batches := by
  induction batches generalizing rowCount trimmed with
  | nil =>
    refine iff_of_false Bool.false_ne_true ?_
    rintro (hlt | ⟨-, b, hb, -⟩)
    · exact absurd hlt (not_lt.mpr hroom)
    · cases hb
  | cons batch batches ih =>
    have htotal : totalRows (batch :: batches) = batch.numRows + totalRows batches := rfl
    rw [trim]
    split_ifs with hfull hlast
    · refine iff_of_true rfl (or_iff_not_imp_left.mpr fun hnone => ?_)
      have hlast := List.getLast?_eq_some_getLast (List.cons_ne_nil batch batches)
      have hle := numRows_le_totalRows (List.getLast_mem (List.cons_ne_nil batch batches))
      exact ⟨by omega, _, hlast, by omega⟩
    · exact iff_of_true rfl (.inl (by omega))
    · rw [ih _ _ (by omega), emptyAfterFull_cons hfull (by omega), htotal, Nat.add_assoc,
        Nat.sub_sub]

variable [F64 F]

theorem length_recordBatchesToJsonRows (print : Json F → String) (batches : List (RecordBatch F)) :
    (recordBatchesToJsonRows print batches).length = totalRows batches := by
  rw [recordBatchesToJsonRows, List.length_flatMap, totalRows]
  congr 1
  exact List.map_congr_left fun b _ => b.length_jsonRows print

/-- **What the loop keeps**: the rows there is room for, and their number. -/
theorem trim_kept (print : Json F → String) (maxRows : ℕ) (batches : List (RecordBatch F))
    (rowCount : ℕ) (trimmed : List (RecordBatch F)) (hcount : rowCount = totalRows trimmed)
    (hroom : rowCount ≤ maxRows) :
    recordBatchesToJsonRows print (trim maxRows rowCount trimmed batches).batches =
        (recordBatchesToJsonRows print (trimmed ++ batches)).take maxRows ∧
      (trim maxRows rowCount trimmed batches).rowCount =
        min maxRows (rowCount + totalRows batches) := by
  induction batches generalizing rowCount trimmed with
  | nil =>
    have hlen := length_recordBatchesToJsonRows print trimmed
    constructor
    · show recordBatchesToJsonRows print trimmed = _
      rw [List.append_nil, List.take_of_length_le (by omega)]
    · show rowCount = min maxRows (rowCount + 0)
      omega
  | cons batch batches ih =>
    have hlen := length_recordBatchesToJsonRows print trimmed
    have htotal : totalRows (batch :: batches) = batch.numRows + totalRows batches := rfl
    have hrows : recordBatchesToJsonRows print (trimmed ++ batch :: batches) =
        recordBatchesToJsonRows print trimmed ++
          (batch.jsonRows print ++ recordBatchesToJsonRows print batches) := by
      simp [recordBatchesToJsonRows]
    rw [trim]
    split_ifs with hfull hlast
    · constructor
      · rw [hrows, List.take_append_of_le_length (by omega), List.take_of_length_le (by omega)]
      · show rowCount = min maxRows (rowCount + totalRows (batch :: batches))
        omega
    · constructor
      · have hbatch := batch.length_jsonRows print
        rw [hrows, List.take_append, List.take_of_length_le (by omega), hlen, ← hcount,
          List.take_append_of_le_length (by omega)]
        simp [recordBatchesToJsonRows, RecordBatch.jsonRows_slice]
      · show rowCount + (maxRows - rowCount) = min maxRows (rowCount + totalRows (batch :: batches))
        omega
    · obtain ⟨hkept, hn⟩ := ih (rowCount + batch.numRows) (trimmed ++ [batch])
        (by rw [totalRows_append, hcount]; rfl) (by omega)
      rw [List.append_assoc, List.singleton_append] at hkept
      refine ⟨hkept, ?_⟩
      rw [hn, htotal, Nat.add_assoc]

/-! ### The answer -/

/-- An answer has the rows there is room for, counts them, and says whether there are more. -/
structure Capped (print : Json F → String) (maxRows : ℕ) (batches : List (RecordBatch F))
    (r : SqlResponse F) : Prop where
  /-- The rows are the first ones, in order. -/
  rows : r.rows = (recordBatchesToJsonRows print batches).take (min maxRows (totalRows batches))
  /-- They are counted. -/
  rowCount : r.info.rowCount = r.rows.length
  /-- The answer is called truncated exactly if there are more. -/
  truncated : r.info.truncated = true ↔ maxRows < totalRows batches

/-- **The cap of an answer**, for all batches: the rows and their number are right, and the flag
is, too, exactly unless an empty batch comes last when there is no room left. -/
theorem capped_runSql_iff (engine : String → Except String (DataFrame F))
    (print : Json F → String) (elapsedMs : ℕ) (req : SqlRequest) (df : DataFrame F)
    (batches : List (RecordBatch F)) (hplan : engine req.sql = .ok df)
    (hcollect : df.collect = .ok batches) :
    ∃ r, runSql engine print elapsedMs req = .ok r ∧
      (r.rows = (recordBatchesToJsonRows print batches).take
          (min req.cap (totalRows batches)) ∧
        r.info.rowCount = r.rows.length) ∧
      (Capped print req.cap batches r ↔ ¬EmptyAfterFull req.cap batches) := by
  have hrun : runSql engine print elapsedMs req =
      .ok ⟨df.schema, recordBatchesToJsonRows print (trim req.cap 0 [] batches).batches,
        ⟨(trim req.cap 0 [] batches).rowCount, elapsedMs,
          (trim req.cap 0 [] batches).truncated⟩⟩ := by
    rw [runSql, hplan]
    simp only [hcollect]
  have hlen := length_recordBatchesToJsonRows print batches
  obtain ⟨hkept, hn⟩ := trim_kept print req.cap batches 0 [] rfl (Nat.zero_le _)
  have hflag := trim_truncated_iff req.cap batches 0 [] (Nat.zero_le _)
  rw [List.nil_append] at hkept
  rw [Nat.zero_add] at hn
  rw [Nat.zero_add, Nat.sub_zero] at hflag
  have hrows : recordBatchesToJsonRows print (trim req.cap 0 [] batches).batches =
      (recordBatchesToJsonRows print batches).take (min req.cap (totalRows batches)) := by
    rw [hkept, ← hlen, ← List.take_eq_take_min]
  have hcount : (trim req.cap 0 [] batches).rowCount =
      (recordBatchesToJsonRows print (trim req.cap 0 [] batches).batches).length := by
    rw [hn, hrows, List.length_take, hlen]
    omega
  refine ⟨_, hrun, ⟨hrows, hcount⟩, fun h hempty => ?_, fun h => ⟨hrows, hcount, ?_⟩⟩
  · have hmore := h.truncated.mp (hflag.mpr (.inr hempty))
    exact absurd hempty.1 (ne_of_gt hmore)
  · exact hflag.trans (or_iff_left h)

/-- A batch with one column of numbers. -/
def numbersBatch (ns : List ℤ) : RecordBatch Whole where
  columns := [("n", ns.map .int)]
  numRows := ns.length
  aligned := by simp

/-- A query that returns some batches of numbers. -/
def numbersFrame (batches : List (List ℤ)) : DataFrame Whole :=
  ⟨[⟨"n", "Int64"⟩], .ok (batches.map numbersBatch)⟩

/-- Three numbers in two batches, of which two are asked for. -/
theorem capped_runSql_iff_two_of_three :
    ∃ r, runSql (fun _ => .ok (numbersFrame [[1], [2, 3]])) (fun _ => "") 7
          ⟨"SELECT n FROM t", some 2⟩ = .ok r ∧
      (r.rows = (recordBatchesToJsonRows (fun _ => "") ([[1], [2, 3]].map numbersBatch)).take
          (min 2 (totalRows ([[1], [2, 3]].map numbersBatch))) ∧
        r.info.rowCount = r.rows.length) ∧
      (Capped (fun _ => "") 2 ([[1], [2, 3]].map numbersBatch) r ↔
        ¬EmptyAfterFull 2 ([[1], [2, 3]].map numbersBatch)) :=
  capped_runSql_iff (fun _ => .ok (numbersFrame [[1], [2, 3]])) (fun _ => "") 7
    ⟨"SELECT n FROM t", some 2⟩ (numbersFrame [[1], [2, 3]])
    ([[1], [2, 3]].map numbersBatch) rfl rfl

/-- **An answer with all its rows is called truncated** where an empty batch follows the row that
fills it. -/
theorem not_capped_runSql_empty_batch :
    ∃ r, runSql (fun _ => .ok (numbersFrame [[1], []])) (fun _ => "") 7
          ⟨"SELECT n FROM t", some 1⟩ = .ok r ∧
      totalRows ([[1], []].map numbersBatch) = 1 ∧ r.info.truncated = true ∧
        ¬Capped (fun _ => "") 1 ([[1], []].map numbersBatch) r :=
  ⟨_, rfl, rfl, rfl, fun h => absurd (h.truncated.mp rfl) (by decide)⟩

end Skaldberg
