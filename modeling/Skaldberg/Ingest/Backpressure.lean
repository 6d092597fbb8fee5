import Mathlib.Data.List.Perm.Basic
import Skaldberg.Ingest.Concurrent

/-!
# The cap on the buffer

A write request is turned away while the buffer is at its cap, and at most `c` requests are
admitted at a time. The check and the insertion are two steps, so that up to `c` requests may
pass the check before the first of them is in the buffer, which then ends up that much above
its cap. But a slot belongs to the request and not to its append: a request that times out gives its
slot back while the append it has spawned runs on, and another request may pass the check before
that append reaches the buffer.

`Backpressure.bytesEstimate_le_of_within` says when the buffer stays within its cap and what `c`
requests carry: a request passes the check only while fewer than `c` appends are on their way,
those of timed out requests included (`Backpressure.Within`). That is so when no request times out
with its append under way (`Backpressure.bytesEstimate_le_of_attached`); when requests may, the
buffer grows beyond any bound (`Backpressure.exists_bytesEstimate_gt`).

The argument counts the samples that are past the check and not in the buffer
(`Backpressure.State.pending`): with those in the buffer they only ever grow by a request that
passes the check.
-/

namespace Skaldberg

namespace Backpressure

open Concurrent (Flusher)

variable {R V : Type}

/-- How far the handling of a write request has come. -/
inductive Phase (R V : Type) where
  /-- The request holds a slot. -/
  | arrived (raws : List R)
  /-- It has passed `check_backpressure`. -/
  | checked (raws : List R)
  /-- Its append has been spawned. -/
  | appending (samples : List (ValidatedSample V))
  /-- Its append has written the log. -/
  | logged (recordSeq : ℕ) (samples : List (ValidatedSample V))

/-- A request is past the check. -/
def Phase.past : Phase R V → Bool
  | arrived _ => false
  | _ => true

/-- A request has blocking work that outlives it. -/
def Phase.detachable : Phase R V → Bool
  | appending _ => true
  | logged _ _ => true
  | _ => false

/-- The number of samples of a request. -/
def Phase.size : Phase R V → ℕ
  | arrived raws => raws.length
  | checked raws => raws.length
  | appending samples => samples.length
  | logged _ samples => samples.length

/-- The handling of one request. -/
structure Task (R V : Type) where
  /-- How far it has come. -/
  phase : Phase R V
  /-- Whether the request is still there, and holds its slot. -/
  live : Bool

/-- The number of samples a task may yet put in the buffer without another check. -/
def Task.pending (t : Task R V) : ℕ := if t.phase.past then t.phase.size else 0

/-- The state of the write path with the requests that are being handled. -/
structure State (R V : Type) where
  /-- What the parties share. -/
  ingest : IngestState V
  /-- The requests that have not been answered, and the appends that have not ended. -/
  tasks : List (Task R V)
  /-- The flusher. -/
  flusher : Flusher V

/-- What can happen. -/
inductive Action (R : Type) where
  /-- A request is given a slot. -/
  | letIn (raws : List R)
  /-- A handler checks that the buffer is below its cap. -/
  | check (task : ℕ)
  /-- A handler cannot decode its request and answers. -/
  | reject (task : ℕ)
  /-- A handler validates the samples at a time and spawns the append. -/
  | spawn (task : ℕ) (nowMs : ℤ)
  /-- An append writes the log, or fails to and ends. -/
  | log (task : ℕ) (io : AppendIo)
  /-- An append inserts its batch in the buffer and ends. -/
  | insert (task : ℕ)
  /-- A request times out. -/
  | timeout (task : ℕ)
  /-- The flusher takes a snapshot. -/
  | take
  /-- The flusher commits its snapshot, or fails to. -/
  | commit (io : FlushIo)
  /-- The flusher truncates the log. -/
  | truncate

/-- The number of slots in use. -/
def State.slots (s : State R V) : ℕ := s.tasks.countP Task.live

/-- The number of requests past the check whose samples are not in the buffer. -/
def State.underWay (s : State R V) : ℕ := s.tasks.countP fun t => t.phase.past

/-- The number of samples past the check that are not in the buffer. -/
def State.pending (s : State R V) : ℕ := (s.tasks.map Task.pending).sum

/-- The tasks with one of them replaced. -/
def State.advance (s : State R V) (task : ℕ) (phase : Phase R V) (live : Bool) : State R V :=
  { s with tasks := ⟨phase, live⟩ :: s.tasks.eraseIdx task }

/-- The tasks without one of them. -/
def State.finish (s : State R V) (task : ℕ) : State R V :=
  { s with tasks := s.tasks.eraseIdx task }

variable (codec : Extern V) {E : Type} (validate : R → ℤ → Except E (ValidatedSample V)) (c S : ℕ)

/-- Where an action leads, with `c` slots and at most `S` samples in a request. -/
def step (s : State R V) : Action R → Option (State R V)
  | .letIn raws =>
    if s.slots < c ∧ raws.length ≤ S then
      some { s with tasks := ⟨.arrived raws, true⟩ :: s.tasks }
    else none
  | .check task =>
    match s.tasks[task]? with
    | some ⟨.arrived raws, live⟩ =>
      match s.ingest.checkBackpressure with
      | .error _ => some (s.finish task)
      | .ok () => some (s.advance task (.checked raws) live)
    | _ => none
  | .reject task =>
    match s.tasks[task]? with
    | some ⟨.checked _, _⟩ => some (s.finish task)
    | _ => none
  | .spawn task nowMs =>
    match s.tasks[task]? with
    | some ⟨.checked raws, live⟩ =>
      let accepted := raws.filterMap fun raw => (validate raw nowMs).toOption
      if accepted.isEmpty then some (s.finish task)
      else some (s.advance task (.appending accepted) live)
    | _ => none
  | .log task io =>
    match s.tasks[task]? with
    | some ⟨.appending samples, live⟩ =>
      match s.ingest.appendWal codec io samples with
      | (.error _, ingest) => some { s.finish task with ingest := ingest }
      | (.ok recordSeq, ingest) =>
        some { s.advance task (.logged recordSeq samples) live with ingest := ingest }
    | _ => none
  | .insert task =>
    match s.tasks[task]? with
    | some ⟨.logged recordSeq samples, _⟩ =>
      some { s.finish task with ingest := s.ingest.insertBatch recordSeq samples }
    | _ => none
  | .timeout task =>
    match s.tasks[task]? with
    | some ⟨phase, true⟩ =>
      -- dropping the request cancels what it awaits, not what it has spawned
      if phase.detachable then some (s.advance task phase false) else some (s.finish task)
    | _ => none
  | .take =>
    match s.flusher with
    | .idle =>
      if s.ingest.buffer.isEmpty then none
      else
        let (snap, buffer) := s.ingest.buffer.take
        some { s with ingest := { s.ingest with buffer := buffer }, flusher := .taken snap }
    | _ => none
  | .commit io =>
    match s.flusher with
    | .taken snap =>
      match flush io s.ingest.tables snap with
      | (.ok _, tables) =>
        some { s with
          ingest := { s.ingest with tables := tables }
          flusher := .committed snap.maxRecordSeq }
      | (.error _, tables) =>
        some { s with ingest := { s.ingest with tables := tables }, flusher := .idle }
    | _ => none
  | .truncate =>
    match s.flusher with
    | .committed maxSeq =>
      some { s with ingest := s.ingest.truncateWal maxSeq, flusher := .idle }
    | _ => none

/-- The write path with no request. -/
def start (ingest : IngestState V) : State R V := ⟨ingest, [], .idle⟩

/-- A request passes the check only while fewer than `c` are past it. -/
def Within (s : State R V) : Action R → Prop
  | .check _ => s.underWay < c
  | _ => True

instance (s : State R V) : ∀ a, Decidable (Within c s a)
  | .check _ => inferInstanceAs (Decidable (s.underWay < c))
  | .letIn _ => instDecidableTrue
  | .reject _ => instDecidableTrue
  | .spawn _ _ => instDecidableTrue
  | .log _ _ => instDecidableTrue
  | .insert _ => instDecidableTrue
  | .timeout _ => instDecidableTrue
  | .take => instDecidableTrue
  | .commit _ => instDecidableTrue
  | .truncate => instDecidableTrue

/-- A request does not time out with its append under way. -/
def Attached (s : State R V) : Action R → Prop
  | .timeout task => ∀ t ∈ s.tasks[task]?, t.phase.detachable = false
  | _ => True

/-- What the buffer may hold. -/
def limit : ℕ := backpressureBytes + c * S * bytesPerSample

/-! ### Counting tasks -/

section Tasks

variable {s : State R V} {task : ℕ} {t : Task R V}

theorem State.tasks_perm (ht : s.tasks[task]? = some t) :
    s.tasks.Perm (t :: (s.finish task).tasks) := by
  obtain ⟨hlt, rfl⟩ := List.getElem?_eq_some_iff.mp ht
  exact (List.getElem_cons_eraseIdx_perm hlt).symm

theorem State.mem_of_mem_finish {t' : Task R V} (h : t' ∈ (s.finish task).tasks) :
    t' ∈ s.tasks :=
  List.mem_of_mem_eraseIdx h

theorem State.pending_eq (ht : s.tasks[task]? = some t) :
    s.pending = t.pending + (s.finish task).pending := by
  rw [pending, ((tasks_perm ht).map Task.pending).sum_nat]
  rfl

theorem State.pending_advance (phase : Phase R V) (live : Bool) :
    (s.advance task phase live).pending =
      (⟨phase, live⟩ : Task R V).pending + (s.finish task).pending := rfl

theorem State.underWay_of_not_past (ht : s.tasks[task]? = some t)
    (hpast : t.phase.past = false) : s.underWay = (s.finish task).underWay := by
  rw [underWay, (tasks_perm ht).countP_eq, List.countP_cons, hpast]
  rfl

/-- The samples under way are at most `S` for each request that is. -/
theorem State.pending_le (hsize : ∀ t ∈ s.tasks, t.phase.size ≤ S) :
    s.pending ≤ s.underWay * S := by
  obtain ⟨ingest, tasks, flusher⟩ := s
  change (tasks.map Task.pending).sum ≤ tasks.countP (fun t => t.phase.past) * S
  change ∀ t ∈ tasks, t.phase.size ≤ S at hsize
  induction tasks with
  | nil => exact Nat.zero_le _
  | cons t tasks ih =>
    have hrest := ih fun t' ht' => hsize t' (List.mem_cons_of_mem _ ht')
    have ht := hsize t (List.mem_cons_self ..)
    rw [List.map_cons, List.sum_cons, List.countP_cons, Task.pending]
    split_ifs
    · rw [Nat.add_mul, Nat.one_mul]
      omega
    · simpa using hrest

end Tasks

/-! ### The invariant -/

/-- The invariant of a run within the limit. -/
structure Inv (s : State R V) : Prop where
  /-- No request carries more than `S` samples. -/
  sized : ∀ t ∈ s.tasks, t.phase.size ≤ S
  /-- The buffer is within the limit, and so it is when all that is past the check has landed. -/
  bounded : s.ingest.buffer.bytesEstimate + s.pending * bytesPerSample ≤ limit c S

variable {codec validate c S} {s s' : State R V}

theorem inv_start {ingest : IngestState V} (h : ingest.buffer.bytesEstimate ≤ limit c S) :
    Inv c S (start ingest : State R V) where
  sized := by simp [start]
  bounded := by simpa [start, State.pending] using h

/-- A task ends, having put at most its own samples in the buffer. -/
theorem Inv.finish (h : Inv c S s) {task : ℕ} {t : Task R V} (ht : s.tasks[task]? = some t)
    (ingest : IngestState V) (hle : ingest.buffer.bytesEstimate ≤
      s.ingest.buffer.bytesEstimate + t.pending * bytesPerSample) :
    Inv c S { s.finish task with ingest := ingest } where
  sized t' ht' := h.sized t' (State.mem_of_mem_finish ht')
  bounded := by
    have hb := h.bounded
    rw [State.pending_eq ht, Nat.add_mul] at hb
    change ingest.buffer.bytesEstimate + (s.finish task).pending * bytesPerSample ≤ limit c S
    omega

/-- A task goes on, the buffer as it was, with no more samples to come than before. -/
theorem Inv.advance (h : Inv c S s) {task : ℕ} {t : Task R V} (ht : s.tasks[task]? = some t)
    {phase : Phase R V} {live : Bool} (hsize : phase.size ≤ S)
    (hle : (⟨phase, live⟩ : Task R V).pending ≤ t.pending) (ingest : IngestState V)
    (hbuffer : ingest.buffer = s.ingest.buffer) :
    Inv c S { s.advance task phase live with ingest := ingest } where
  sized t' ht' := by
    rcases List.mem_cons.mp ht' with rfl | ht'
    · exact hsize
    · exact h.sized t' (State.mem_of_mem_finish ht')
  bounded := by
    have hb := h.bounded
    rw [State.pending_eq ht, Nat.add_mul] at hb
    have hmul := Nat.mul_le_mul_right bytesPerSample hle
    change ingest.buffer.bytesEstimate +
      (s.advance task phase live).pending * bytesPerSample ≤ limit c S
    rw [State.pending_advance, hbuffer, Nat.add_mul]
    omega

/-- **A check that lets a request pass keeps the limit**: the buffer is below its cap, and what
`c` requests carry is what the limit allows above it. -/
theorem Inv.check (h : Inv c S s) {task : ℕ} (hok : Within c s (.check task : Action R))
    (hs : step codec validate c S s (.check task) = some s') : Inv c S s' := by
  rw [step] at hs
  split at hs
  · rename_i raws live ht
    split at hs
    · cases hs
      exact h.finish ht s.ingest (by omega)
    · rename_i hcheck
      cases hs
      have hlow : s.ingest.buffer.bytesEstimate < backpressureBytes := by
        rw [IngestState.checkBackpressure] at hcheck
        by_contra hge
        simp only [ge_iff_le, not_lt.mp hge, if_true] at hcheck
        cases hcheck
      have hsized : ∀ t ∈ (s.advance task (.checked raws) live).tasks, t.phase.size ≤ S := by
        intro t' ht'
        rcases List.mem_cons.mp ht' with rfl | ht'
        · have hsize := h.sized _ (List.mem_of_getElem? ht)
          exact hsize
        · exact h.sized t' (State.mem_of_mem_finish ht')
      refine ⟨hsized, ?_⟩
      have hfew : (s.advance task (.checked raws) live).underWay ≤ c := by
        change ((⟨.checked raws, live⟩ : Task R V) :: (s.finish task).tasks).countP _ ≤ c
        rw [List.countP_cons_of_pos rfl]
        change (s.finish task).underWay + 1 ≤ c
        rw [← State.underWay_of_not_past ht rfl]
        exact hok
      have hpending : (s.advance task (.checked raws) live).pending ≤ c * S :=
        (State.pending_le S hsized).trans (Nat.mul_le_mul_right S hfew)
      have hmul := Nat.mul_le_mul_right bytesPerSample hpending
      change s.ingest.buffer.bytesEstimate + _ ≤ backpressureBytes + _
      omega
  · cases hs

/-- The batch of an append is part of what its request carried. -/
theorem length_accepted_le (raws : List R) (nowMs : ℤ) :
    (raws.filterMap fun raw => (validate raw nowMs).toOption).length ≤ raws.length :=
  List.length_filterMap_le ..

/-- **Every other step keeps the limit**: samples leave the count, or move from it to the
buffer. -/
theorem Inv.step {a : Action R} (h : Inv c S s) (hok : Within c s a)
    (hs : Backpressure.step codec validate c S s a = some s') : Inv c S s' := by
  cases a with
  | letIn raws =>
    rw [Backpressure.step] at hs
    split_ifs at hs with hlet
    cases hs
    refine ⟨?_, ?_⟩
    · intro t ht
      rcases List.mem_cons.mp ht with rfl | ht
      · exact hlet.2
      · exact h.sized t ht
    · have hpending : State.pending
          { s with tasks := ⟨.arrived raws, true⟩ :: s.tasks } = s.pending := by
        rw [State.pending, List.map_cons, List.sum_cons]
        exact Nat.zero_add _
      rw [hpending]
      exact h.bounded
  | check task => exact h.check hok hs
  | reject task =>
    rw [Backpressure.step] at hs
    split at hs
    · rename_i raws live ht
      cases hs
      exact h.finish ht s.ingest (by omega)
    · cases hs
  | spawn task nowMs =>
    rw [Backpressure.step] at hs
    split at hs
    · rename_i raws live ht
      dsimp only at hs
      have hlen : (raws.filterMap fun raw => (validate raw nowMs).toOption).length ≤ raws.length :=
        length_accepted_le raws nowMs
      split_ifs at hs with hempty
      · cases hs
        exact h.finish ht s.ingest (by omega)
      · cases hs
        have hsize := h.sized _ (List.mem_of_getElem? ht)
        refine h.advance ht ?_ ?_ s.ingest rfl
        · exact hlen.trans hsize
        · exact hlen
    · cases hs
  | log task io =>
    rw [Backpressure.step] at hs
    split at hs
    · rename_i samples live ht
      have hbuffer : (s.ingest.appendWal codec io samples).2.buffer = s.ingest.buffer :=
        IngestState.appendWal_buffer io s.ingest samples
      split at hs
      · rename_i ingest happend
        rw [happend] at hbuffer
        cases hs
        exact h.finish ht ingest (by rw [show ingest.buffer = _ from hbuffer]; omega)
      · rename_i recordSeq ingest happend
        rw [happend] at hbuffer
        cases hs
        have hsize := h.sized _ (List.mem_of_getElem? ht)
        refine h.advance ht ?_ ?_ ingest hbuffer
        · exact hsize
        · exact le_refl samples.length
    · cases hs
  | insert task =>
    rw [Backpressure.step] at hs
    split at hs
    · rename_i recordSeq samples live ht
      cases hs
      refine h.finish ht _ ?_
      change (s.ingest.buffer.insertBatch recordSeq samples).bytesEstimate ≤ _
      rw [Buffer.insertBatch_bytesEstimate]
      exact le_refl _
    · cases hs
  | timeout task =>
    rw [Backpressure.step] at hs
    split at hs
    · rename_i phase ht
      split_ifs at hs with hdetach
      · cases hs
        refine h.advance ht ?_ ?_ s.ingest rfl
        · exact h.sized _ (List.mem_of_getElem? ht)
        · exact le_refl (Task.pending ⟨phase, true⟩)
      · cases hs
        exact h.finish ht s.ingest (by omega)
    · cases hs
  | take =>
    rw [Backpressure.step] at hs
    split at hs
    · split_ifs at hs
      cases hs
      refine ⟨h.sized, ?_⟩
      change 0 + s.pending * bytesPerSample ≤ limit c S
      exact (Nat.zero_add _).le.trans ((Nat.le_add_left _ _).trans h.bounded)
    · cases hs
  | commit io =>
    rw [Backpressure.step] at hs
    split at hs
    · split at hs <;> cases hs <;> exact ⟨h.sized, h.bounded⟩
    · cases hs
  | truncate =>
    rw [Backpressure.step] at hs
    split at hs
    · cases hs
      refine ⟨h.sized, ?_⟩
      rw [IngestState.truncateWal_buffer]
      exact h.bounded
    · cases hs

/-- **The buffer stays within its cap and what `c` requests carry** in every run from a state
within that limit in which a request passes the check only while fewer than `c` appends are on
their way to the buffer, whether or not their requests are still there. -/
theorem bytesEstimate_le_of_within (ingest : IngestState V)
    (hstart : ingest.buffer.bytesEstimate ≤ limit c S)
    (hrun : Runs (Runs.ofFn (step codec validate c S)) (Within c) (start ingest) s) :
    s.ingest.buffer.bytesEstimate ≤ limit c S := by
  have hinv : Inv c S s := hrun.invariant (inv_start hstart) fun h hok hs => h.step hok hs
  exact (Nat.le_add_right _ _).trans hinv.bounded

/-! ### Runs in which no append is detached -/

/-- **What a step does to the tasks**: it admits one, leaves them alone, ends one or moves one
on. Only a request that times out with its append under way leaves a task without a slot. -/
theorem step_tasks {a : Action R} (hs : step codec validate c S s a = some s') :
    (s.slots < c ∧ ∃ raws, s'.tasks = ⟨.arrived raws, true⟩ :: s.tasks) ∨ s'.tasks = s.tasks ∨
    ∃ task t, s.tasks[task]? = some t ∧ (s'.tasks = s.tasks.eraseIdx task ∨
      (∃ phase, s'.tasks = ⟨phase, t.live⟩ :: s.tasks.eraseIdx task) ∨
      (a = .timeout task ∧ t.phase.detachable = true)) := by
  cases a with
  | letIn raws =>
    rw [step] at hs
    split_ifs at hs with hlet
    cases hs
    exact Or.inl ⟨hlet.1, raws, rfl⟩
  | check task =>
    rw [step] at hs
    split at hs
    · rename_i ht
      split at hs <;> cases hs
      · exact Or.inr (Or.inr ⟨task, _, ht, Or.inl rfl⟩)
      · exact Or.inr (Or.inr ⟨task, _, ht, Or.inr (Or.inl ⟨_, rfl⟩)⟩)
    · cases hs
  | reject task =>
    rw [step] at hs
    split at hs
    · rename_i ht
      cases hs
      exact Or.inr (Or.inr ⟨task, _, ht, Or.inl rfl⟩)
    · cases hs
  | spawn task nowMs =>
    rw [step] at hs
    split at hs
    · rename_i ht
      dsimp only at hs
      split_ifs at hs <;> cases hs
      · exact Or.inr (Or.inr ⟨task, _, ht, Or.inl rfl⟩)
      · exact Or.inr (Or.inr ⟨task, _, ht, Or.inr (Or.inl ⟨_, rfl⟩)⟩)
    · cases hs
  | log task io =>
    rw [step] at hs
    split at hs
    · rename_i ht
      split at hs <;> cases hs
      · exact Or.inr (Or.inr ⟨task, _, ht, Or.inl rfl⟩)
      · exact Or.inr (Or.inr ⟨task, _, ht, Or.inr (Or.inl ⟨_, rfl⟩)⟩)
    · cases hs
  | insert task =>
    rw [step] at hs
    split at hs
    · rename_i ht
      cases hs
      exact Or.inr (Or.inr ⟨task, _, ht, Or.inl rfl⟩)
    · cases hs
  | timeout task =>
    rw [step] at hs
    split at hs
    · rename_i ht
      split_ifs at hs with hdetach <;> cases hs
      · exact Or.inr (Or.inr ⟨task, _, ht, Or.inr (Or.inr ⟨rfl, hdetach⟩)⟩)
      · exact Or.inr (Or.inr ⟨task, _, ht, Or.inl rfl⟩)
    · cases hs
  | take =>
    rw [step] at hs
    split at hs
    · split_ifs at hs
      cases hs
      exact Or.inr (Or.inl rfl)
    · cases hs
  | commit io =>
    rw [step] at hs
    split at hs
    · split at hs <;> cases hs <;> exact Or.inr (Or.inl rfl)
    · cases hs
  | truncate =>
    rw [step] at hs
    split at hs
    · cases hs
      exact Or.inr (Or.inl rfl)
    · cases hs

/-- Every task holds a slot. -/
structure Held (c : ℕ) (s : State R V) : Prop where
  /-- Every task is of a request that is still there. -/
  live : ∀ t ∈ s.tasks, t.live = true
  /-- There are no more of them than slots. -/
  few : s.tasks.length ≤ c

theorem Held.slots_eq (h : Held c s) : s.slots = s.tasks.length :=
  List.countP_eq_length.mpr h.live

theorem Held.step {a : Action R} (h : Held c s) (hok : Attached s a)
    (hs : Backpressure.step codec validate c S s a = some s') : Held c s' := by
  have hlength : ∀ {task t}, s.tasks[task]? = some t →
      (s.tasks.eraseIdx task).length + 1 ≤ c := by
    intro task t ht
    have := (State.tasks_perm ht).length_eq
    rw [List.length_cons] at this
    exact this.symm.le.trans h.few
  rcases step_tasks hs with ⟨hslots, raws, htasks⟩ | htasks | ⟨task, t, ht, hcases⟩
  · refine ⟨?_, ?_⟩ <;> rw [htasks]
    · intro t ht
      rcases List.mem_cons.mp ht with rfl | ht
      · rfl
      · exact h.live t ht
    · rw [h.slots_eq] at hslots
      exact hslots
  · exact ⟨htasks ▸ h.live, htasks ▸ h.few⟩
  · have hrest : ∀ t' ∈ s.tasks.eraseIdx task, t'.live = true :=
      fun t' ht' => h.live t' (List.mem_of_mem_eraseIdx ht')
    rcases hcases with htasks | ⟨phase, htasks⟩ | ⟨rfl, hdetach⟩
    · refine ⟨?_, ?_⟩ <;> rw [htasks]
      · exact hrest
      · exact (Nat.le_succ _).trans (hlength ht)
    · refine ⟨?_, ?_⟩ <;> rw [htasks]
      · intro t' ht'
        rcases List.mem_cons.mp ht' with rfl | ht'
        · exact h.live t (List.mem_of_getElem? ht)
        · exact hrest t' ht'
      · exact hlength ht
    · have := hok t ht
      rw [hdetach] at this
      cases this

/-- A request about to be checked is itself not past the check, so the others are too few. -/
theorem Held.within {a : Action R} (h : Held c s)
    (hs : Backpressure.step codec validate c S s a = some s') : Within c s a := by
  cases a with
  | check task =>
    rw [Backpressure.step] at hs
    split at hs
    · rename_i raws live ht
      change s.underWay < c
      rw [State.underWay_of_not_past ht rfl]
      have hlen := (State.tasks_perm ht).length_eq
      rw [List.length_cons] at hlen
      have hle : (s.finish task).underWay ≤ (s.finish task).tasks.length := List.countP_le_length
      have hfew := h.few
      omega
    · cases hs
  | _ => trivial

/-- **While no request times out with its append under way, the buffer stays within its cap and
what `c` requests carry.** -/
theorem bytesEstimate_le_of_attached (ingest : IngestState V)
    (hstart : ingest.buffer.bytesEstimate ≤ limit c S)
    (hrun : Runs (Runs.ofFn (step codec validate c S)) Attached (start ingest) s) :
    s.ingest.buffer.bytesEstimate ≤ limit c S := by
  have hheld : Held c (start ingest : State R V) := ⟨by simp [start], Nat.zero_le c⟩
  have hinv : Inv c S s ∧ Held c s :=
    hrun.invariant (P := fun s => Inv c S s ∧ Held c s) ⟨inv_start hstart, hheld⟩
      fun h hok hs => ⟨h.1.step (h.2.within hs) hs, h.2.step hok hs⟩
  exact (Nat.le_add_right _ _).trans hinv.1.bounded

/-! ### Runs in which requests time out -/

section TimedOut

variable {raw : R} {nowMs : ℤ} {x : ValidatedSample V}

/-- The append of a request that has timed out. -/
def leftBehind (x : ValidatedSample V) : Task R V := ⟨.appending [x], false⟩

/-- **A request that times out leaves its append behind and gives its slot back**, so that the
next one may pass the check before any sample is in the buffer. -/
theorem exists_detached (hc : 0 < c) (hS : 0 < S) (hx : validate raw nowMs = .ok x)
    {ingest : IngestState V} (hlow : ingest.buffer.bytesEstimate < backpressureBytes) (n : ℕ) :
    Runs (Runs.ofFn (step codec validate c S)) (fun _ _ => True) (start ingest)
      (⟨ingest, List.replicate n (leftBehind x), .idle⟩ : State R V) := by
  induction n with
  | zero => exact Runs.refl _
  | succ n ih =>
    let rest : List (Task R V) := List.replicate n (leftBehind x)
    have hslots : rest.countP Task.live = 0 := by
      refine List.countP_eq_zero.mpr fun t ht => ?_
      rw [List.eq_of_mem_replicate ht]
      exact Bool.false_ne_true
    have hcheck : ingest.checkBackpressure = .ok () := by
      rw [IngestState.checkBackpressure]
      exact if_neg (not_le.mpr hlow)
    have hlet : step codec validate c S ⟨ingest, rest, .idle⟩ (.letIn [raw]) =
        some ⟨ingest, ⟨.arrived [raw], true⟩ :: rest, .idle⟩ := by
      refine if_pos ⟨?_, hS⟩
      change rest.countP Task.live < c
      rwa [hslots]
    have hpass : step codec validate c S ⟨ingest, ⟨.arrived [raw], true⟩ :: rest, .idle⟩
        (.check 0) = some ⟨ingest, ⟨.checked [raw], true⟩ :: rest, .idle⟩ := by
      simp only [step, List.getElem?_cons_zero, hcheck]
      rfl
    have hspawn : step codec validate c S ⟨ingest, ⟨.checked [raw], true⟩ :: rest, .idle⟩
        (.spawn 0 nowMs) = some ⟨ingest, ⟨.appending [x], true⟩ :: rest, .idle⟩ := by
      simp [step, State.advance, hx, Except.toOption]
    have htimeout : step codec validate c S ⟨ingest, ⟨.appending [x], true⟩ :: rest, .idle⟩
        (.timeout 0) = some ⟨ingest, ⟨.appending [x], false⟩ :: rest, .idle⟩ := rfl
    exact (((ih.snoc trivial hlet).snoc trivial hpass).snoc trivial hspawn).snoc trivial htimeout

/-- The appends left behind reach the buffer one after the other. -/
theorem exists_landed (hlen : (codec.toVec [x]).length < u32Size) (n : ℕ)
    (ingest : IngestState V) :
    ∃ s, Runs (Runs.ofFn (step codec validate c S)) (fun _ _ => True)
        (⟨ingest, List.replicate n (leftBehind x), .idle⟩ : State R V) s ∧
      s.ingest.buffer.bytesEstimate = ingest.buffer.bytesEstimate + n * bytesPerSample := by
  induction n generalizing ingest with
  | zero => exact ⟨_, Runs.refl _, by simp⟩
  | succ n ih =>
    let rest : List (Task R V) := List.replicate n (leftBehind x)
    let logged := ingest.appended codec [x]
    let landed := logged.insertBatch ingest.wal.nextRecordSeq [x]
    have hlog : step codec validate c S ⟨ingest, ⟨.appending [x], false⟩ :: rest, .idle⟩
        (.log 0 .ok) =
          some ⟨logged, ⟨.logged ingest.wal.nextRecordSeq [x], false⟩ :: rest, .idle⟩ := by
      simp only [step, List.getElem?_cons_zero, IngestState.appendWal_ok hlen]
      rfl
    have hinsert : step codec validate c S
        ⟨logged, ⟨.logged ingest.wal.nextRecordSeq [x], false⟩ :: rest, .idle⟩ (.insert 0) =
          some ⟨landed, rest, .idle⟩ := rfl
    obtain ⟨s, hrun, hbytes⟩ := ih landed
    refine ⟨s, (((Runs.refl _).snoc trivial hlog).snoc trivial hinsert).trans hrun, ?_⟩
    have hlanded : landed.buffer.bytesEstimate =
        ingest.buffer.bytesEstimate + [x].length * bytesPerSample :=
      Buffer.insertBatch_bytesEstimate ingest.buffer ingest.wal.nextRecordSeq [x]
    rw [hbytes, hlanded, List.length_singleton, Nat.add_mul]
    omega

/-- **With requests that time out, the buffer grows beyond any bound**, whatever the number of
slots and the size of the requests. -/
theorem exists_bytesEstimate_gt (hc : 0 < c) (hS : 0 < S) (hx : validate raw nowMs = .ok x)
    (hlen : (codec.toVec [x]).length < u32Size) {ingest : IngestState V}
    (hlow : ingest.buffer.bytesEstimate < backpressureBytes) (bound : ℕ) :
    ∃ s, Runs (Runs.ofFn (step codec validate c S)) (fun _ _ => True) (start ingest) s ∧
      bound < s.ingest.buffer.bytesEstimate := by
  obtain ⟨s, hrun, hbytes⟩ : ∃ s, Runs (Runs.ofFn (step codec validate c S)) (fun _ _ => True)
        (⟨ingest, List.replicate (bound + 1) (leftBehind x), .idle⟩ : State R V) s ∧
      s.ingest.buffer.bytesEstimate = ingest.buffer.bytesEstimate + (bound + 1) * bytesPerSample :=
    exists_landed hlen (bound + 1) ingest
  refine ⟨s, (exists_detached hc hS hx hlow (bound + 1)).trans hrun, ?_⟩
  rw [hbytes, bytesPerSample]
  omega

end TimedOut

section Instances

open Encoding (sample)

/-- The server on an empty log. -/
def fresh (codec : Extern ℤ) : IngestState ℤ := AppState.open codec .ok .empty .empty

/-- Every sample is valid. -/
def accept (x : ValidatedSample ℤ) (_ : ℤ) : Except Unit (ValidatedSample ℤ) := .ok x

set_option maxRecDepth 100000 in
/-- Two requests of one sample each, both past the check before the first is in the buffer. -/
theorem bytesEstimate_le_of_within_two :
    ∃ s, Runs (Runs.ofFn (step (.serving []) accept 2 1)) (Within 2)
        (start (fresh (.serving []))) s ∧
      s.ingest.buffer.bytesEstimate = 64 ∧ s.ingest.buffer.bytesEstimate ≤ limit 2 1 := by
  obtain ⟨s, hrun, hp⟩ := Runs.exists_of_foldlM (f := step (.serving []) accept 2 1)
    (C := Within 2) (s := start (fresh (.serving [])))
    (p := fun s => s.ingest.buffer.bytesEstimate == 64)
    [.letIn [sample 1], .letIn [sample 2], .check 0, .check 1, .spawn 0 0, .spawn 1 0,
      .log 0 .ok, .insert 0, .log 0 .ok, .insert 0]
    (by decide +kernel)
  exact ⟨s, hrun, by simpa using hp, bytesEstimate_le_of_within (fresh (.serving []))
    (Nat.zero_le _) hrun⟩

set_option maxRecDepth 100000 in
/-- **Timed out requests take the buffer past its cap and what 64 requests of one sample carry**:
each passes the check while the buffer is empty, spawns its append and is dropped, and then the
appends land. -/
theorem timed_out_appends_exceed :
    ∃ s, Runs (Runs.ofFn (step (.serving []) accept 64 1)) (fun _ _ => True)
        (start (fresh (.serving []))) s ∧
      limit 64 1 < s.ingest.buffer.bytesEstimate :=
  exists_bytesEstimate_gt (by decide) (by decide) (rfl : accept (sample 1) 0 = .ok (sample 1))
    (by decide) (by decide) (limit 64 1)

end Instances

end Backpressure

end Skaldberg
