import Mathlib.Logic.Function.Basic
import Skaldberg.Ingest.Concurrent

/-!
# Two flushes at shutdown

When the server has drained it flushes once more before the process exits, and the flush task of
the background may be in the middle of a flush of its own. Nothing serialises the two: each swaps
the buffer out, commits its snapshot and truncates the log, and what the later one took may have
the greater watermark. Its truncation then deletes the log files of the earlier snapshot too,
whose commit may never be finished, since the process exits as soon as the final flush has
returned.

`Shutdown.durable_of_covered_by_both` is the extent of the damage: nothing is lost in a run in
which every truncation leaves alone the files with a record that the other flush holds
uncommitted, that a failed flush has dropped, or that was not in the buffer at its own `take`
(`Shutdown.Covered`). `Shutdown.final_truncation_loses` is a run of two appends that does not
meet this and loses the first one.

The state keeps track of where every batch is: with its client, in the buffer (`State.loose`),
with a flush (`State.holding`) or dropped by one (`State.abandoned`).
-/

namespace Skaldberg

namespace Shutdown

open Concurrent (Flusher)

variable {V : Type}

/-- The two callers of `flush_once`. -/
inductive Caller where
  /-- The flush task. -/
  | background
  /-- The shutdown path. -/
  | final
  deriving DecidableEq

/-- The other caller. -/
def Caller.other : Caller → Caller
  | background => final
  | final => background

/-- The state of the write path from the start of the server to the exit of the process. -/
structure State (V : Type) where
  /-- What the parties share. -/
  ingest : IngestState V
  /-- The batches whose client is between its two steps. -/
  inFlight : List (Logged V)
  /-- Where each caller is in its flush. -/
  flusher : Caller → Flusher V
  /-- Whether the listener has drained: every append has completed, and no other will come. -/
  drained : Bool
  /-- Whether the final flush has returned. -/
  returned : Bool
  /-- Whether the process has exited. -/
  exited : Bool
  /-- The batches appended to the log so far. -/
  appended : List (Logged V)
  /-- Those that were put in the buffer since it was last swapped out. -/
  loose : List (Logged V)
  /-- For each caller, those that had not been put in the buffer at its last `take`. -/
  uncovered : Caller → List (Logged V)
  /-- For each caller, those in its snapshot while it is not committed. -/
  holding : Caller → List (Logged V)
  /-- Those in a snapshot whose samples commit has failed. -/
  abandoned : List (Logged V)

/-- The steps of the clients, of the two flushes and of the process. -/
inductive Action (V : Type) where
  /-- A client appends a batch to the log. -/
  | append (samples : List (ValidatedSample V))
  /-- A client between its steps inserts its batch in the buffer. -/
  | insert (client : ℕ)
  /-- The listener has drained. -/
  | drain
  /-- A caller takes a snapshot, if there is anything to flush. -/
  | take (who : Caller)
  /-- A caller commits its snapshot, or fails to. -/
  | commit (who : Caller) (io : FlushIo)
  /-- A caller truncates the log. -/
  | truncate (who : Caller)
  /-- The process exits. -/
  | exit

variable (codec : Extern V)

/-- A caller is between two flushes again; the final one has returned. -/
def State.leave (s : State V) (who : Caller) : State V :=
  { s with
    flusher := Function.update s.flusher who .idle
    returned := s.returned || decide (who = .final) }

/-- Where an action leads, every file operation succeeding. -/
def step (s : State V) (a : Action V) : Option (State V) :=
  if s.exited then none
  else
    match a with
    | .append samples =>
      if s.drained then none
      else
        match s.ingest.appendWal codec .ok samples with
        | (.error _, ingest) => some { s with ingest := ingest }
        | (.ok recordSeq, ingest) =>
          some { s with
            ingest := ingest
            inFlight := (recordSeq, samples) :: s.inFlight
            appended := (recordSeq, samples) :: s.appended
            uncovered := fun who => (recordSeq, samples) :: s.uncovered who }
    | .insert client =>
      match s.inFlight[client]? with
      | none => none
      | some (recordSeq, samples) =>
        some { s with
          ingest := s.ingest.insertBatch recordSeq samples
          inFlight := s.inFlight.eraseIdx client
          loose := (recordSeq, samples) :: s.loose }
    | .drain => if s.inFlight.isEmpty then some { s with drained := true } else none
    | .take who =>
      match s.flusher who with
      | .idle =>
        -- the final flush runs once, after the drain
        if who = .final ∧ (s.drained = false ∨ s.returned = true) then none
        else if s.ingest.buffer.isEmpty then some (s.leave who)
        else
          let (snap, buffer) := s.ingest.buffer.take
          some { s with
            ingest := { s.ingest with buffer := buffer }
            flusher := Function.update s.flusher who (.taken snap)
            loose := []
            uncovered := Function.update s.uncovered who s.inFlight
            holding := Function.update s.holding who s.loose }
      | _ => none
    | .commit who io =>
      match s.flusher who with
      | .taken snap =>
        let s' := { s with holding := Function.update s.holding who [] }
        match flush io s.ingest.tables snap with
        | (.ok _, tables) =>
          some { s' with
            ingest := { s.ingest with tables := tables }
            flusher := Function.update s.flusher who (.committed snap.maxRecordSeq) }
        | (.error .samples, tables) =>
          some ({ s' with
            ingest := { s.ingest with tables := tables }
            abandoned := s.holding who ++ s.abandoned }.leave who)
        | (.error .series, tables) =>
          some ({ s' with ingest := { s.ingest with tables := tables } }.leave who)
      | _ => none
    | .truncate who =>
      match s.flusher who with
      | .committed maxSeq => some ({ s with ingest := s.ingest.truncateWal maxSeq }.leave who)
      | _ => none
    | .exit => if s.returned then some { s with exited := true } else none

/-- The write path as the server opens it. -/
def start (tables : Tables V) (dir : WalDir) (rotationBytes : ℕ) : State V where
  ingest := AppState.openWithRotation codec .ok tables dir rotationBytes
  inFlight := []
  flusher _ := .idle
  drained := false
  returned := false
  exited := false
  appended := []
  loose := []
  uncovered _ := []
  holding _ := []
  abandoned := []

/-- Every sample of every record whose append has completed is in the `samples` table or in a
record still in the log. -/
def Durable (s : State V) : Prop :=
  ∀ a ∈ s.appended, ∀ x ∈ a.2,
    x.row ∈ s.ingest.tables.samples ∨ s.ingest.dir.HoldsSample codec x

/-- When a caller truncates the log, every file with a record that was not in the buffer at its
`take`, that the other caller holds uncommitted, or that a failed flush has dropped, is the
current file or goes beyond the watermark. -/
def Covered (s : State V) : Action V → Prop
  | .truncate who => ∀ maxSeq ∈ (s.flusher who).committed?,
      s.ingest.Protects codec maxSeq
        ((s.uncovered who ++ s.holding who.other ++ s.abandoned).map (Logged.record codec))
  | _ => True

instance (s : State V) : ∀ a, Decidable (Covered codec s a)
  | .truncate who => inferInstanceAs (Decidable (∀ maxSeq ∈ (s.flusher who).committed?,
      s.ingest.Protects codec maxSeq
        ((s.uncovered who ++ s.holding who.other ++ s.abandoned).map (Logged.record codec))))
  | .append _ => instDecidableTrue
  | .insert _ => instDecidableTrue
  | .drain => instDecidableTrue
  | .take _ => instDecidableTrue
  | .commit _ _ => instDecidableTrue
  | .exit => instDecidableTrue

/-! ### The invariant -/

/-- A batch is safe from the truncation of a caller: its samples are committed, or the truncation
is to leave its file alone. -/
def State.Settled (s : State V) (who : Caller) (a : Logged V) : Prop :=
  a ∈ s.uncovered who ∨ a ∈ s.holding who.other ∨ a ∈ s.abandoned ∨ s.ingest.tables.Committed a

/-- The invariant of a covered run. -/
structure Inv (s : State V) : Prop where
  /-- The log's writer is in order. -/
  inOrder : s.ingest.wal.InOrder s.ingest.dir
  /-- Every record is in the log or its samples are committed. -/
  logged : ∀ a ∈ s.appended, s.ingest.dir.Logs codec a ∨ s.ingest.tables.Committed a
  /-- Every batch is with its client, in the buffer, with a flush, dropped or committed. -/
  placed : ∀ a ∈ s.appended, a ∈ s.inFlight ∨ a ∈ s.loose ∨ (∃ who, a ∈ s.holding who) ∨
    a ∈ s.abandoned ∨ s.ingest.tables.Committed a
  /-- The samples of a batch in the buffer are there. -/
  buffered : ∀ a ∈ s.loose, ∀ x ∈ a.2, x.row ∈ s.ingest.buffer.rows
  /-- The samples of a batch with a flush are in its snapshot. -/
  held : ∀ who, ∀ a ∈ s.holding who,
    ∃ snap, s.flusher who = .taken snap ∧ ∀ x ∈ a.2, x.row ∈ snap.byDay.rows
  /-- While a flush is under way, a batch that is not its own is settled. -/
  passed : ∀ who, s.flusher who = .idle ∨
    ∀ a ∈ s.appended, a ∈ s.holding who ∨ s.Settled who a

variable {codec} {s s' : State V}

theorem inv_start {tables : Tables V} {dir : WalDir}
    (h : ∀ file bs, dir.get? file = some bs → Wal.format.leftover bs = []) (rotationBytes : ℕ) :
    Inv codec (start codec tables dir rotationBytes) where
  inOrder := WalWriter.inOrder_openWithRotation h rotationBytes
  logged := by simp [start]
  placed := by simp [start]
  buffered := by simp [start]
  held := by simp [start]
  passed _ := Or.inl rfl

/-- A caller that is not in the middle of a snapshot holds nothing. -/
theorem Inv.holding_eq_nil (h : Inv codec s) {who : Caller}
    (hne : ∀ snap, s.flusher who ≠ .taken snap) : s.holding who = [] := by
  refine List.eq_nil_iff_forall_not_mem.mpr fun a ha => ?_
  obtain ⟨snap, htaken, -⟩ := h.held who a ha
  exact hne snap htaken

theorem Inv.append (h : Inv codec s) {samples : List (ValidatedSample V)}
    (hs : step codec s (.append samples) = some s') : Inv codec s' := by
  rw [step] at hs
  split_ifs at hs with hexit hdrain
  by_cases hp : (codec.toVec samples).length < u32Size
  · rw [IngestState.appendWal_ok hp] at hs
    cases hs
    obtain ⟨hinOrder, hnew⟩ := h.inOrder.appended codec.crc32 hp
    refine ⟨hinOrder, ?_, ?_, h.buffered, h.held, ?_⟩
    · intro a ha
      rcases List.mem_cons.mp ha with rfl | ha
      · exact Or.inl hnew
      · exact (h.logged a ha).imp (fun hd => hd.mono (WalWriter.grows_appended _)) id
    · intro a ha
      rcases List.mem_cons.mp ha with rfl | ha
      · exact Or.inl (List.mem_cons_self ..)
      · exact (h.placed a ha).imp (List.mem_cons_of_mem _) id
    · intro who
      refine (h.passed who).imp id fun hpass a ha => ?_
      rcases List.mem_cons.mp ha with rfl | ha
      · exact Or.inr (Or.inl (List.mem_cons_self ..))
      · exact (hpass a ha).imp id fun hset => hset.imp (List.mem_cons_of_mem _) id
  · rw [IngestState.appendWal, WalWriter.append_tooLarge hp] at hs
    cases hs
    exact ⟨h.inOrder, h.logged, h.placed, h.buffered, h.held, h.passed⟩

theorem Inv.insert (h : Inv codec s) {client : ℕ}
    (hs : step codec s (.insert client) = some s') : Inv codec s' := by
  rw [step] at hs
  split_ifs at hs with hexit
  split at hs
  · cases hs
  · rename_i recordSeq samples hclient
    cases hs
    refine ⟨h.inOrder, h.logged, ?_, ?_, h.held, h.passed⟩
    · intro a ha
      rcases h.placed a ha with hf | hr
      · rcases Concurrent.eq_or_mem_eraseIdx hclient hf with rfl | hf
        · exact Or.inr (Or.inl (List.mem_cons_self ..))
        · exact Or.inl hf
      · exact Or.inr (hr.imp (List.mem_cons_of_mem _) id)
    · intro a ha x hx
      rcases List.mem_cons.mp ha with rfl | ha
      · exact Buffer.mem_rows_insertBatch.mpr (Or.inl (List.mem_map_of_mem hx))
      · exact Buffer.mem_rows_insertBatch.mpr (Or.inr (h.buffered a ha x hx))

/-- A caller that holds nothing may leave. -/
theorem Inv.leave (h : Inv codec s) {who : Caller} (hnone : s.holding who = []) :
    Inv codec (s.leave who) := by
  refine ⟨h.inOrder, h.logged, h.placed, h.buffered, ?_, ?_⟩
  · intro w a ha
    have hne : w ≠ who := by
      rintro rfl
      change a ∈ s.holding w at ha
      rw [hnone] at ha
      cases ha
    change ∃ snap, Function.update s.flusher who .idle w = .taken snap ∧ _
    rw [Function.update_of_ne hne]
    exact h.held w a ha
  · intro w
    change Function.update s.flusher who .idle w = .idle ∨ _
    rcases eq_or_ne w who with rfl | hne
    · exact Or.inl (Function.update_self ..)
    · rw [Function.update_of_ne hne]
      exact h.passed w

theorem Caller.eq_or_eq_other (who w : Caller) : w = who ∨ w = who.other := by
  cases who <;> cases w <;> decide

/-- **A `take` moves the buffer to the caller**: what is in flight is not covered, the rest is
settled or its own. -/
theorem Inv.take (h : Inv codec s) {who : Caller} (hs : step codec s (.take who) = some s') :
    Inv codec s' := by
  rw [step] at hs
  split at hs
  · cases hs
  split at hs
  · rename_i hidle
    have hnone : s.holding who = [] := h.holding_eq_nil fun snap => by rw [hidle]; rintro ⟨⟩
    split_ifs at hs
    · cases hs
      exact h.leave hnone
    · cases hs
      have hkept : ∀ w a, a ∈ s.holding w →
          w ≠ who ∧ a ∈ Function.update s.holding who s.loose w := by
        intro w a ha
        have hne : w ≠ who := by
          rintro rfl
          rw [hnone] at ha
          cases ha
        rw [Function.update_of_ne hne]
        exact ⟨hne, ha⟩
      refine ⟨h.inOrder, h.logged, ?_, ?_, ?_, ?_⟩
      · intro a ha
        rcases h.placed a ha with hf | hl | ⟨w, hw⟩ | hr
        · exact Or.inl hf
        · refine Or.inr (Or.inr (Or.inl ⟨who, ?_⟩))
          change a ∈ Function.update s.holding who s.loose who
          rwa [Function.update_self]
        · exact Or.inr (Or.inr (Or.inl ⟨w, (hkept w a hw).2⟩))
        · exact Or.inr (Or.inr (Or.inr hr))
      · intro a ha
        cases ha
      · intro w a ha
        change a ∈ Function.update s.holding who s.loose w at ha
        change ∃ snap, Function.update s.flusher who _ w = .taken snap ∧ _
        rcases eq_or_ne w who with rfl | hne
        · rw [Function.update_self] at ha
          exact ⟨_, Function.update_self .., h.buffered a ha⟩
        · rw [Function.update_of_ne hne] at ha ⊢
          exact h.held w a ha
      · intro w
        change Function.update s.flusher who _ w = .idle ∨ ∀ a ∈ s.appended,
          a ∈ Function.update s.holding who s.loose w ∨
            a ∈ Function.update s.uncovered who s.inFlight w ∨
            a ∈ Function.update s.holding who s.loose w.other ∨
            a ∈ s.abandoned ∨ s.ingest.tables.Committed a
        rcases eq_or_ne w who with rfl | hne
        · -- the caller's own flush starts: every batch is where `placed` says
          refine Or.inr fun a ha => ?_
          rw [Function.update_self, Function.update_self]
          rcases h.placed a ha with hf | hl | ⟨v, hv⟩ | hr
          · exact Or.inr (Or.inl hf)
          · exact Or.inl hl
          · obtain ⟨hne, hv⟩ := hkept v a hv
            rcases w.eq_or_eq_other v with rfl | rfl
            · exact absurd rfl hne
            · exact Or.inr (Or.inr (Or.inl hv))
          · exact Or.inr (Or.inr (Or.inr hr))
        · -- the other flush only sees more of the batches held
          rw [Function.update_of_ne hne, Function.update_of_ne hne, Function.update_of_ne hne]
          refine (h.passed w).imp id fun hpass a ha => ?_
          exact (hpass a ha).imp id fun hset => hset.imp id (Or.imp (fun hv => (hkept _ a hv).2) id)
  · cases hs

/-- **A caller lets go of its batches**: each has been committed, or is dropped. -/
theorem Inv.release (h : Inv codec s) {who : Caller} {snap : Snapshot V}
    (htaken : s.flusher who = .taken snap) (tables : Tables V) (abandoned : List (Logged V))
    (flusher : Flusher V) (returned : Bool)
    (hgrow : ∀ a, s.ingest.tables.Committed a → tables.Committed a)
    (hdrop : ∀ a ∈ s.abandoned, a ∈ abandoned)
    (hout : ∀ a ∈ s.holding who, a ∈ abandoned ∨ tables.Committed a) :
    Inv codec { s with
      ingest := { s.ingest with tables := tables }
      flusher := Function.update s.flusher who flusher
      holding := Function.update s.holding who []
      abandoned := abandoned
      returned := returned } := by
  have hrest : ∀ a, a ∈ s.abandoned ∨ s.ingest.tables.Committed a →
      a ∈ abandoned ∨ tables.Committed a := fun a => Or.imp (hdrop a) (hgrow a)
  have hheld : ∀ w a, a ∈ s.holding w →
      a ∈ Function.update s.holding who [] w ∨ a ∈ abandoned ∨ tables.Committed a := by
    intro w a ha
    rcases eq_or_ne w who with rfl | hne
    · exact Or.inr (hout a ha)
    · rw [Function.update_of_ne hne]
      exact Or.inl ha
  have hsettled : ∀ w a, s.Settled w a → a ∈ s.uncovered w ∨
      a ∈ Function.update s.holding who [] w.other ∨ a ∈ abandoned ∨ tables.Committed a := by
    rintro w a (hu | hh | hr)
    · exact Or.inl hu
    · exact Or.inr (hheld _ a hh)
    · exact Or.inr (Or.inr (hrest a hr))
  refine ⟨h.inOrder, ?_, ?_, h.buffered, ?_, ?_⟩
  · exact fun a ha => (h.logged a ha).imp id (hgrow a)
  · intro a ha
    rcases h.placed a ha with hf | hl | ⟨w, hw⟩ | hr
    · exact Or.inl hf
    · exact Or.inr (Or.inl hl)
    · exact Or.inr (Or.inr ((hheld w a hw).imp (fun hw => ⟨w, hw⟩) id))
    · exact Or.inr (Or.inr (Or.inr (hrest a hr)))
  · intro w a ha
    change a ∈ Function.update s.holding who [] w at ha
    change ∃ snap, Function.update s.flusher who flusher w = .taken snap ∧ _
    rcases eq_or_ne w who with rfl | hne
    · rw [Function.update_self] at ha
      cases ha
    · rw [Function.update_of_ne hne] at ha ⊢
      exact h.held w a ha
  · intro w
    change Function.update s.flusher who flusher w = .idle ∨ ∀ a ∈ s.appended,
      a ∈ Function.update s.holding who [] w ∨ a ∈ s.uncovered w ∨
        a ∈ Function.update s.holding who [] w.other ∨ a ∈ abandoned ∨ tables.Committed a
    rcases eq_or_ne w who with rfl | hne
    · refine Or.inr fun a ha => Or.inr ?_
      rcases h.passed w with hidle | hpass
      · rw [htaken] at hidle
        cases hidle
      · rcases hpass a ha with hh | hset
        · exact Or.inr (Or.inr (hout a hh))
        · exact hsettled w a hset
    · rw [Function.update_of_ne hne]
      refine (h.passed w).imp id fun hpass a ha => ?_
      rcases hpass a ha with hh | hset
      · rw [Function.update_of_ne hne]
        exact Or.inl hh
      · exact Or.inr (hsettled w a hset)

/-- **What a commit makes of the batches of its caller**: they are committed, or the samples
commit fails and they are dropped. -/
theorem Inv.commit (h : Inv codec s) {who : Caller} {io : FlushIo}
    (hs : step codec s (.commit who io) = some s') : Inv codec s' := by
  rw [step] at hs
  split at hs
  · cases hs
  split at hs
  · rename_i snap htaken
    have hwritten : ∀ a ∈ s.holding who, ∀ x ∈ a.2, x.row ∈ snap.samplesRows := by
      intro a ha x hx
      obtain ⟨snap', htaken', hrows⟩ := h.held who a ha
      rw [htaken] at htaken'
      cases htaken'
      exact Snapshot.mem_samplesRows.mpr (hrows x hx)
    have hgrow : ∀ a, s.ingest.tables.Committed a →
        ∀ x ∈ a.2, x.row ∈ s.ingest.tables.samples ++ snap.samplesRows :=
      fun a ha x hx => List.mem_append_left _ (ha x hx)
    have hout : ∀ a ∈ s.holding who, ∀ x ∈ a.2,
        x.row ∈ s.ingest.tables.samples ++ snap.samplesRows :=
      fun a ha x hx => List.mem_append_right _ (hwritten a ha x hx)
    rcases flush_cases io s.ingest.tables snap with ⟨hf, -⟩ | ⟨hf, -⟩ | ⟨hf, -⟩ <;>
      rw [hf] at hs <;> cases hs
    · exact h.release htaken _ _ .idle _ (fun _ => id)
        (fun a ha => List.mem_append_right _ ha) fun a ha => Or.inl (List.mem_append_left _ ha)
    · exact h.release htaken _ _ .idle _ hgrow (fun _ => id) fun a ha => Or.inr (hout a ha)
    · exact h.release htaken _ _ _ _ hgrow (fun _ => id) fun a ha => Or.inr (hout a ha)
  · cases hs

/-- **A covered truncation forgets no record that is not committed.** -/
theorem Inv.truncate (h : Inv codec s) {who : Caller} (hok : Covered codec s (.truncate who))
    (hs : step codec s (.truncate who) = some s') : Inv codec s' := by
  rw [step] at hs
  split at hs
  · cases hs
  split at hs
  · rename_i maxSeq hcommitted
    cases hs
    have hok := hok maxSeq (by rw [hcommitted]; rfl)
    have hnone : s.holding who = [] :=
      h.holding_eq_nil fun snap => by rw [hcommitted]; rintro ⟨⟩
    have hkept : ∀ a ∈ s.appended, s.ingest.dir.Logs codec a →
        (s.ingest.truncateWal maxSeq).dir.Logs codec a ∨ s.ingest.tables.Committed a := by
      intro a ha hd
      rcases h.passed who with hidle | hpass
      · rw [hcommitted] at hidle
        cases hidle
      · rcases hpass a ha with hh | hu | hh | hdropped | hc
        · rw [hnone] at hh
          cases hh
        · exact Or.inl (hd.truncateWal hok
            (List.mem_append_left _ (List.mem_append_left _ hu)))
        · exact Or.inl (hd.truncateWal hok
            (List.mem_append_left _ (List.mem_append_right _ hh)))
        · exact Or.inl (hd.truncateWal hok (List.mem_append_right _ hdropped))
        · exact Or.inr hc
    have hinv : Inv codec { s with ingest := s.ingest.truncateWal maxSeq } := by
      refine ⟨s.ingest.inOrder_truncateWal h.inOrder maxSeq, ?_, ?_, ?_, h.held, ?_⟩
      · intro a ha
        rw [IngestState.truncateWal_tables]
        exact (h.logged a ha).elim (hkept a ha) Or.inr
      · simpa only [IngestState.truncateWal_tables] using h.placed
      · simpa only [IngestState.truncateWal_buffer] using h.buffered
      · simpa only [State.Settled, IngestState.truncateWal_tables] using h.passed
    exact hinv.leave hnone
  · cases hs

theorem Inv.step {a : Action V} (h : Inv codec s) (hok : Covered codec s a)
    (hs : Shutdown.step codec s a = some s') : Inv codec s' := by
  cases a with
  | append samples => exact h.append hs
  | insert client => exact h.insert hs
  | drain =>
    rw [Shutdown.step] at hs
    split_ifs at hs
    cases hs
    exact ⟨h.inOrder, h.logged, h.placed, h.buffered, h.held, h.passed⟩
  | take who => exact h.take hs
  | commit who io => exact h.commit hs
  | truncate who => exact h.truncate hok hs
  | exit =>
    rw [Shutdown.step] at hs
    split_ifs at hs
    cases hs
    exact ⟨h.inOrder, h.logged, h.placed, h.buffered, h.held, h.passed⟩

theorem durable_of_inv (h : Inv codec s) : Durable codec s := by
  intro a ha x hx
  rcases h.logged a ha with hd | hc
  · exact Or.inr (hd.holdsSample hx)
  · exact Or.inl (hc x hx)

/-! ### What the two flushes keep, and what they lose -/

/-- **The two flushes lose nothing in a covered run**: every sample of every append that has
completed is committed or still in the log, in every state reached from a log of whole files by
the clients and the two callers in any order, whichever commits fail and whenever the process
exits, as long as every truncation leaves alone the files of the batches that are not its own and
not committed. -/
theorem durable_of_covered_by_both (tables : Tables V) (dir : WalDir) (rotationBytes : ℕ)
    (hdir : ∀ file bs, dir.get? file = some bs → Wal.format.leftover bs = [])
    (hrun : Runs (Runs.ofFn (step codec)) (Covered codec)
      (start codec tables dir rotationBytes) s) :
    Durable codec s :=
  durable_of_inv (hrun.invariant (inv_start hdir rotationBytes) fun h hok hs => h.step hok hs)

section Instances

open Encoding (sample)

/-- The server on an empty log, rotating at 128 bytes. -/
def fresh (codec : Extern ℤ) : State ℤ := start codec .empty .empty 128

set_option maxRecDepth 100000 in
/-- The background flush commits before the final one truncates. -/
theorem durable_of_covered_by_both_in_turn :
    ∃ s, Runs (Runs.ofFn (step (.serving []))) (Covered (.serving [])) (fresh (.serving [])) s ∧
      (s.exited = true ∧ s.appended.length = 2) ∧ Durable (.serving []) s := by
  obtain ⟨s, hrun, hp⟩ := Runs.exists_of_foldlM (f := step (.serving []))
    (C := Covered (.serving [])) (s := fresh (.serving []))
    (p := fun s => s.exited && s.appended.length == 2)
    [.append [sample 1], .insert 0, .take .background, .append [sample 2], .insert 0, .drain,
      .take .final, .commit .background .ok, .commit .final .ok, .truncate .final, .exit]
    (by decide +kernel)
  exact ⟨s, hrun, by simpa using hp, durable_of_covered_by_both .empty .empty 128 (by simp) hrun⟩

set_option maxRecDepth 100000 in
/-- **The final flush deletes what the other one holds**: the background flush has taken the
first batch, whose record is in file 0 with that of the second; the final flush commits the second
batch, deletes file 0, and the process exits before the first batch is committed. -/
theorem final_truncation_loses :
    ∃ s, Runs (Runs.ofFn (step (.serving []))) (fun _ _ => True) (fresh (.serving [])) s ∧
      s.exited = true ∧ ¬Durable (.serving []) s := by
  obtain ⟨s, hrun, hp⟩ := Runs.exists_of_foldlM (f := step (.serving []))
    (C := fun _ _ => True) (s := fresh (.serving []))
    (p := fun s => s.exited && (decide (∃ a ∈ s.appended, sample 1 ∈ a.2) &&
      decide ((sample 1).row ∉ s.ingest.tables.samples) &&
      (s.ingest.dir.records Encoding.crc32).isEmpty))
    [.append [sample 1], .insert 0, .take .background, .append [sample 2], .insert 0, .drain,
      .take .final, .commit .final .ok, .truncate .final, .exit]
    (by decide +kernel)
  simp only [Bool.and_eq_true, decide_eq_true_eq, List.isEmpty_iff] at hp
  obtain ⟨hexited, ⟨⟨a, ha, hx⟩, htable⟩, hlog⟩ := hp
  refine ⟨s, hrun, hexited, fun hd => ?_⟩
  rcases hd a ha _ hx with hrow | ⟨r, hr, -⟩
  · exact htable hrow
  · have hlog : s.ingest.dir.records (Extern.serving []).crc32 = [] := hlog
    rw [hlog] at hr
    cases hr

end Instances

end Shutdown

end Skaldberg
