import Mathlib.Data.Finset.Lattice.Lemmas
import Skaldberg.Ingest.Service

/-!
# What a buffer conserves

A buffer is filled by `insertBatch` and emptied by `take`, any number of times and in any order.
The takes cut the inserted batches into *epochs* (`Conservation.epochs`), the last one still open,
and each epoch has one holder: the snapshot of the `take` that closed it, or the buffer itself
(`Conservation.holders`).

What a holder owes to its epoch is said by `Conservation.Holds`: the points of every day and
series in insertion order, one entry for each series not known before, and three counters. The
ids known when an epoch opens are the seed and the ids of the epochs before, so the holders are
related to the epochs one after the other (`Conservation.Chain`); a run keeps them so
(`Conservation.chain_run`), and `Conservation.conserved` reads off the chain what is lost,
duplicated or registered twice over a whole run: nothing.
-/

namespace Skaldberg

namespace Conservation

variable {V : Type}

/-- The calls made to a buffer. -/
inductive Action (V : Type) where
  /-- The batch of a log record is inserted. -/
  | insertBatch (batch : Logged V)
  /-- The contents are swapped out. -/
  | take

/-- One call, on the snapshots taken so far and the buffer. -/
def step (s : List (Snapshot V) × Buffer V) : Action V → List (Snapshot V) × Buffer V
  | .insertBatch batch => (s.1, s.2.insertBatch batch.1 batch.2)
  | .take => (s.1 ++ [s.2.take.1], s.2.take.2)

/-- The snapshots taken and the buffer left by a run of calls on a seeded buffer. -/
def run (seed : List ℤ) (acts : List (Action V)) : List (Snapshot V) × Buffer V :=
  acts.foldl step ([], .withKnownSeries seed)

/-- The contents of the snapshots and, last, of the buffer. -/
def holders (seed : List ℤ) (acts : List (Action V)) : List (Snapshot V) :=
  (run seed acts).1 ++ [(run seed acts).2.take.1]

/-! ### What was inserted -/

/-- One call, on the closed epochs and the open one. -/
def stepEpochs (e : List (List (Logged V)) × List (Logged V)) :
    Action V → List (List (Logged V)) × List (Logged V)
  | .insertBatch batch => (e.1, e.2 ++ [batch])
  | .take => (e.1 ++ [e.2], [])

/-- The closed epochs of a run, and its open one. -/
def runEpochs (acts : List (Action V)) : List (List (Logged V)) × List (Logged V) :=
  acts.foldl stepEpochs ([], [])

/-- The batches inserted between a `take` and the next; the last epoch is the open one. -/
def epochs (acts : List (Action V)) : List (List (Logged V)) :=
  (runEpochs acts).1 ++ [(runEpochs acts).2]

/-- The samples a call inserts. -/
def Action.samples : Action V → List (ValidatedSample V)
  | .insertBatch batch => batch.2
  | .take => []

/-- The samples a run inserts. -/
def inserted (acts : List (Action V)) : List (ValidatedSample V) := acts.flatMap Action.samples

/-- The samples of an epoch. -/
def samplesOf (epoch : List (Logged V)) : List (ValidatedSample V) := epoch.flatMap Prod.snd

/-- The series ids of an epoch. -/
def idsOf (epoch : List (Logged V)) : Finset ℤ :=
  ((samplesOf epoch).map ValidatedSample.seriesId).toFinset

/-- The largest log sequence number of an epoch. -/
def maxSeqOf (epoch : List (Logged V)) : ℕ := (epoch.map Prod.fst).foldr max 0

/-! ### What a holder owes to its epoch -/

/-- The holder of an epoch: the points of every day and series in their order, an entry for the
first sample of each series that was not known, and the counters. -/
structure Holds (known : Finset ℤ) (epoch : List (Logged V)) (h : Snapshot V) : Prop where
  /-- The points stand in insertion order. -/
  points : ∀ day id, h.byDay.points day id = pointsOf (samplesOf epoch) day id
  /-- The series not known before are new, under their first sample. -/
  newSeries : ∀ id, h.newSeries.get? id =
    if id ∈ known then none else Buffer.firstEntry (samplesOf epoch) id
  /-- The number of samples. -/
  sampleCount : h.sampleCount = (samplesOf epoch).length
  /-- The number of rows. -/
  rows : h.byDay.rows.length = (samplesOf epoch).length
  /-- The estimated memory. -/
  bytesEstimate : h.bytesEstimate = (samplesOf epoch).length * bytesPerSample
  /-- The largest sequence number. -/
  maxRecordSeq : h.maxRecordSeq = maxSeqOf epoch

/-- The holders of successive epochs, the ids known growing from one to the next. -/
def Chain : Finset ℤ → List (List (Logged V)) → List (Snapshot V) → Prop
  | _, [], [] => True
  | known, e :: es, h :: hs => Holds known e h ∧ Chain (known ∪ idsOf e) es hs
  | _, _, _ => False

variable {known : Finset ℤ} {es : List (List (Logged V))} {e : List (Logged V)}
  {hs : List (Snapshot V)} {h : Snapshot V}

@[simp] theorem samplesOf_append (e e' : List (Logged V)) :
    samplesOf (e ++ e') = samplesOf e ++ samplesOf e' := List.flatMap_append

@[simp] theorem samplesOf_singleton (a : Logged V) : samplesOf [a] = a.2 :=
  List.flatMap_singleton _ _

theorem mem_idsOf {id : ℤ} : id ∈ idsOf e ↔ ∃ x ∈ samplesOf e, x.seriesId = id := by
  rw [idsOf, List.mem_toFinset, List.mem_map]

theorem maxSeqOf_append_singleton (e : List (Logged V)) (a : Logged V) :
    maxSeqOf (e ++ [a]) = max a.1 (maxSeqOf e) := by
  induction e with
  | nil => rfl
  | cons b e ih =>
    have hcons : ∀ l : List (Logged V), maxSeqOf (b :: l) = max b.1 (maxSeqOf l) := fun _ => rfl
    rw [List.cons_append, hcons, hcons, ih]
    exact max_left_comm _ _ _

theorem firstEntry_eq_none_iff {xs : List (ValidatedSample V)} {id : ℤ} :
    Buffer.firstEntry xs id = none ↔ ∀ x ∈ xs, x.seriesId ≠ id := by
  simp [Buffer.firstEntry]

theorem Holds.mem_keys_newSeries (hh : Holds known e h) {id : ℤ} :
    id ∈ h.newSeries.keys ↔ id ∉ known ∧ id ∈ idsOf e := by
  rw [← SortedMap.contains_iff_mem_keys, SortedMap.contains, hh.newSeries, mem_idsOf]
  split_ifs with hk
  · simp [hk]
  · rw [← Option.ne_none_iff_isSome, Ne, firstEntry_eq_none_iff]
    simp [hk]

/-- A fresh buffer holds the empty epoch. -/
theorem holds_empty (b : Buffer V) (hb : b.take.2 = b) : Holds b.knownSeries [] b.take.1 := by
  rw [← hb]
  refine ⟨fun day id => rfl, fun id => ?_, rfl, rfl, rfl, rfl⟩
  split_ifs <;> rfl

/-- **An insertion extends the open epoch.** -/
theorem Holds.insertBatch {b : Buffer V} (hh : Holds b.knownSeries e b.take.1) (a : Logged V) :
    Holds (b.insertBatch a.1 a.2).knownSeries (e ++ [a]) (b.insertBatch a.1 a.2).take.1 where
  points day id := by
    have hpoints : b.byDay.points day id = pointsOf (samplesOf e) day id := hh.points day id
    rw [samplesOf_append, samplesOf_singleton, pointsOf_append, ← hpoints]
    exact b.points_insertBatch a.1 a.2 day id
  newSeries id := by
    have hnew : b.newSeries.get? id =
        if id ∈ b.knownSeries then none else Buffer.firstEntry (samplesOf e) id := hh.newSeries id
    rw [samplesOf_append, samplesOf_singleton, Buffer.firstEntry_append,
      Buffer.insertBatch_knownSeries]
    refine (b.get?_newSeries_insertBatch a.1 a.2 id).trans ?_
    rw [hnew]
    split_ifs <;> rfl
  sampleCount := by
    have hcount : b.sampleCount = (samplesOf e).length := hh.sampleCount
    rw [samplesOf_append, samplesOf_singleton, List.length_append, ← hcount]
    exact b.insertBatch_sampleCount a.1 a.2
  rows := by
    have hrows : b.rows.length = (samplesOf e).length := hh.rows
    rw [Buffer.take_rows, (b.rows_insertBatch a.1 a.2).length_eq, List.length_append,
      List.length_map, hrows, samplesOf_append, samplesOf_singleton, List.length_append]
    exact Nat.add_comm _ _
  bytesEstimate := by
    have hbytes : b.bytesEstimate = (samplesOf e).length * bytesPerSample := hh.bytesEstimate
    rw [samplesOf_append, samplesOf_singleton, List.length_append, Nat.add_mul, ← hbytes]
    exact b.insertBatch_bytesEstimate a.1 a.2
  maxRecordSeq := by
    have hmax : b.maxRecordSeq = maxSeqOf e := hh.maxRecordSeq
    rw [maxSeqOf_append_singleton, ← hmax]
    exact b.insertBatch_maxRecordSeq a.1 a.2

/-- **A swap-out makes the ids of its epoch known.** -/
theorem Holds.knownSeries_take {b : Buffer V} (hh : Holds b.knownSeries e b.take.1) :
    b.take.2.knownSeries = b.knownSeries ∪ idsOf e := by
  ext id
  have hkeys : id ∈ b.newSeries.keys ↔ id ∉ b.knownSeries ∧ id ∈ idsOf e := hh.mem_keys_newSeries
  simp only [Buffer.take, Finset.mem_union, List.mem_toFinset, hkeys]
  tauto

/-! ### The chain of a run -/

/-- The ids of a list of epochs. -/
def allIds (es : List (List (Logged V))) : Finset ℤ := idsOf es.flatten

theorem allIds_append_singleton (es : List (List (Logged V))) (e : List (Logged V)) :
    allIds (es ++ [e]) = allIds es ∪ idsOf e := by
  simp [allIds, idsOf, List.toFinset_append]

theorem Chain.snoc (hc : Chain known es hs) (hh : Holds (known ∪ allIds es) e h) :
    Chain known (es ++ [e]) (hs ++ [h]) := by
  induction es generalizing known hs with
  | nil =>
    cases hs with
    | nil => exact ⟨by simpa [allIds, idsOf, samplesOf] using hh, trivial⟩
    | cons h' hs => exact hc.elim
  | cons e' es ih =>
    cases hs with
    | nil => exact hc.elim
    | cons h' hs =>
      refine ⟨hc.1, ih hc.2 ?_⟩
      rw [Finset.union_assoc]
      simpa [allIds, idsOf, List.toFinset_append] using hh

/-- What a run keeps: the snapshots hold the closed epochs, the buffer the open one, and the
buffer knows the seed and the ids of the closed epochs. -/
structure Inv (seed : List ℤ) (s : List (Snapshot V) × Buffer V)
    (e : List (List (Logged V)) × List (Logged V)) : Prop where
  /-- The snapshots hold the closed epochs. -/
  snapshots : Chain seed.toFinset e.1 s.1
  /-- The buffer knows the seed and what was swapped out. -/
  known : s.2.knownSeries = seed.toFinset ∪ allIds e.1
  /-- The buffer holds the open epoch. -/
  buffer : Holds s.2.knownSeries e.2 s.2.take.1

theorem Inv.step {seed : List ℤ} {s : List (Snapshot V) × Buffer V}
    {e : List (List (Logged V)) × List (Logged V)} (hi : Inv seed s e) (a : Action V) :
    Inv seed (Conservation.step s a) (stepEpochs e a) := by
  cases a with
  | insertBatch batch =>
    refine ⟨hi.snapshots, ?_, hi.buffer.insertBatch batch⟩
    exact (s.2.insertBatch_knownSeries batch.1 batch.2).trans hi.known
  | take =>
    refine ⟨hi.snapshots.snoc (hi.known ▸ hi.buffer), ?_, holds_empty s.2.take.2 ?_⟩
    · rw [stepEpochs, allIds_append_singleton, ← Finset.union_assoc, ← hi.known]
      exact hi.buffer.knownSeries_take
    · simp [Buffer.take, SortedMap.keys]

/-- **The invariant of a run.** -/
theorem inv_run (seed : List ℤ) (acts : List (Action V)) :
    Inv seed (run seed acts) (runEpochs acts) := by
  have h : ∀ (acts : List (Action V)) s e, Inv seed s e →
      Inv seed (acts.foldl Conservation.step s) (acts.foldl stepEpochs e) := by
    intro acts
    induction acts with
    | nil => exact fun _ _ hi => hi
    | cons a acts ih => exact fun s e hi => ih _ _ (hi.step a)
  refine h acts _ _ ⟨trivial, ?_, holds_empty (.withKnownSeries seed) ?_⟩
  · simp [Buffer.withKnownSeries, allIds, idsOf, samplesOf]
  · simp [Buffer.take, Buffer.withKnownSeries, SortedMap.keys]

/-- **What insertions keep of a buffer, the holders of a run have of their epochs.** -/
theorem forall₂_holders {P : List (Logged V) → Snapshot V → Prop}
    (hempty : P [] ⟨.empty, .empty, 0, 0, 0⟩)
    (hinsert : ∀ (b : Buffer V) (e : List (Logged V)) (a : Logged V), P e b.take.1 →
      P (e ++ [a]) (b.insertBatch a.1 a.2).take.1) (seed : List ℤ) (acts : List (Action V)) :
    List.Forall₂ P (epochs acts) (holders seed acts) := by
  have h : ∀ (acts : List (Action V)) (s : List (Snapshot V) × Buffer V)
      (e : List (List (Logged V)) × List (Logged V)),
      List.Forall₂ P e.1 s.1 → P e.2 s.2.take.1 →
        List.Forall₂ P (acts.foldl stepEpochs e).1 (acts.foldl Conservation.step s).1 ∧
          P (acts.foldl stepEpochs e).2 (acts.foldl Conservation.step s).2.take.1 := by
    intro acts
    induction acts with
    | nil => exact fun _ _ hs hb => ⟨hs, hb⟩
    | cons a acts ih =>
      intro s e hs hb
      cases a with
      | insertBatch batch => exact ih _ _ hs (hinsert s.2 e.2 batch hb)
      | take => exact ih _ _ (List.rel_append hs (.cons hb .nil)) hempty
  obtain ⟨hs, hb⟩ := h acts ([], .withKnownSeries seed) ([], []) .nil hempty
  exact List.rel_append hs (.cons hb .nil)

/-- **The holders of a run hold its epochs**, one after the other. -/
theorem chain_run (seed : List ℤ) (acts : List (Action V)) :
    Chain seed.toFinset (epochs acts) (holders seed acts) := by
  have hi := inv_run seed acts
  exact hi.snapshots.snoc (hi.known ▸ hi.buffer)

/-- The epochs of a run are what it inserts. -/
theorem samplesOf_epochs (acts : List (Action V)) :
    samplesOf (epochs acts).flatten = inserted acts := by
  have h : ∀ (acts : List (Action V)) (e : List (List (Logged V)) × List (Logged V)),
      samplesOf ((acts.foldl stepEpochs e).1 ++ [(acts.foldl stepEpochs e).2]).flatten =
        samplesOf (e.1 ++ [e.2]).flatten ++ inserted acts := by
    intro acts
    induction acts with
    | nil => simp [inserted]
    | cons a acts ih =>
      intro e
      rw [List.foldl_cons, ih]
      cases a <;> simp [stepEpochs, inserted, Action.samples]
  exact (h acts ([], [])).trans (by simp [samplesOf])

/-! ### What a chain conserves -/

/-- **Nothing is lost or duplicated**: the holders spell the epochs, under every day and series in
insertion order. -/
theorem Chain.points (hc : Chain known es hs) (day : NaiveDate) (id : ℤ) :
    (hs.flatMap fun h => h.byDay.points day id) = pointsOf (samplesOf es.flatten) day id := by
  induction es generalizing known hs with
  | nil =>
    cases hs with
    | nil => rfl
    | cons h hs => exact hc.elim
  | cons e es ih =>
    cases hs with
    | nil => exact hc.elim
    | cons h hs =>
      rw [List.flatMap_cons, ih hc.2, hc.1.points, List.flatten_cons, samplesOf_append,
        pointsOf_append]

/-- A holder of a chain holds an epoch. -/
theorem Chain.exists_holds (hc : Chain known es hs) (hh : h ∈ hs) :
    ∃ known' ⊇ known, ∃ e ∈ es, Holds known' e h := by
  induction es generalizing known hs with
  | nil =>
    cases hs with
    | nil => cases hh
    | cons h' hs => exact hc.elim
  | cons e es ih =>
    cases hs with
    | nil => exact hc.elim
    | cons h' hs =>
      rcases List.mem_cons.mp hh with rfl | hh
      · exact ⟨known, Finset.Subset.refl _, e, List.mem_cons_self .., hc.1⟩
      · obtain ⟨known', hsub, e', he', hholds⟩ := ih hc.2 hh
        exact ⟨known', Finset.Subset.trans Finset.subset_union_left hsub, e',
          List.mem_cons_of_mem _ he', hholds⟩

/-- What is known when a chain starts is new in none of its holders. -/
theorem Chain.get?_newSeries_of_known (hc : Chain known es hs) {id : ℤ} (hid : id ∈ known)
    (hh : h ∈ hs) : h.newSeries.get? id = none := by
  obtain ⟨known', hsub, e, -, hholds⟩ := hc.exists_holds hh
  rw [hholds.newSeries, if_pos (hsub hid)]

theorem Chain.maxRecordSeq (hc : Chain known es hs) :
    hs.map Snapshot.maxRecordSeq = es.map maxSeqOf := by
  induction es generalizing known hs with
  | nil =>
    cases hs with
    | nil => rfl
    | cons h hs => exact hc.elim
  | cons e es ih =>
    cases hs with
    | nil => exact hc.elim
    | cons h hs => rw [List.map_cons, List.map_cons, ih hc.2, hc.1.maxRecordSeq]

/-- The first sample of a series is the first point of its day. -/
theorem head?_pointsOf {xs : List (ValidatedSample V)} {x : ValidatedSample V} {id : ℤ}
    (hx : (xs.find? fun s => s.seriesId = id) = some x) :
    (pointsOf xs (dayOfUs x.tsUs) id).head? = some (x.tsUs, x.value) := by
  obtain ⟨hid, before, after, rfl, hbefore⟩ := List.find?_eq_some_iff_append.mp hx
  have hnil : pointsOf before (dayOfUs x.tsUs) id = [] := by
    rw [pointsOf, List.map_eq_nil_iff, List.filter_eq_nil_iff]
    intro y hy
    have hne := hbefore y hy
    simp only [Bool.not_eq_true', decide_eq_false_iff_not] at hne
    simp [hne]
  rw [pointsOf_append, hnil, List.nil_append, pointsOf, List.filter_cons_of_pos]
  · rfl
  · simpa using hid

/-- **A series is registered once, where its first sample is**: one holder of the chain has an
entry for it, that of its first sample, and the holders before have no point of it. -/
theorem Chain.exists_newSeries (hc : Chain known es hs) {id : ℤ} (hid : id ∉ known)
    {x : ValidatedSample V}
    (hx : ((samplesOf es.flatten).find? fun s => s.seriesId = id) = some x) :
    ∃ before h after, hs = before ++ h :: after ∧
      h.newSeries.get? id = some (Buffer.entryOf x) ∧
      (h.byDay.points (dayOfUs x.tsUs) id).head? = some (x.tsUs, x.value) ∧
      (∀ h' ∈ before, ∀ day, h'.byDay.points day id = []) ∧
      ∀ h' ∈ before ++ after, h'.newSeries.get? id = none := by
  induction es generalizing known hs with
  | nil => cases hx
  | cons e es ih =>
    cases hs with
    | nil => exact hc.elim
    | cons h hs =>
      rw [List.flatten_cons, samplesOf_append, List.find?_append] at hx
      rcases hfirst : (samplesOf e).find? fun s => s.seriesId = id with _ | y
      · -- not in this epoch: the series stays unknown, and this holder has nothing of it
        rw [hfirst, Option.none_or] at hx
        have hnone : ∀ s ∈ samplesOf e, s.seriesId ≠ id := by
          simpa using hfirst
        have hid' : id ∉ known ∪ idsOf e := by
          rw [Finset.mem_union, mem_idsOf]
          rintro (hk | ⟨s, hs, hsid⟩)
          · exact hid hk
          · exact hnone s hs hsid
        obtain ⟨before, h', after, rfl, hnew, hhead, hbefore, hother⟩ := ih hc.2 hid' hx
        refine ⟨h :: before, h', after, rfl, hnew, hhead, ?_, ?_⟩
        · intro g hg day
          rcases List.mem_cons.mp hg with rfl | hg
          · rw [hc.1.points, pointsOf, List.map_eq_nil_iff, List.filter_eq_nil_iff]
            intro s hs
            simp [hnone s hs]
          · exact hbefore g hg day
        · intro g hg
          rcases List.mem_cons.mp hg with rfl | hg
          · rw [hc.1.newSeries, if_neg hid]
            exact firstEntry_eq_none_iff.mpr hnone
          · exact hother g hg
      · -- its first sample is here; from the next epoch on the series is known
        rw [hfirst, Option.some_or] at hx
        cases hx
        refine ⟨[], h, hs, rfl, ?_, ?_, by simp, ?_⟩
        · rw [hc.1.newSeries, if_neg hid, Buffer.firstEntry, hfirst]
          rfl
        · rw [hc.1.points]
          exact head?_pointsOf hfirst
        · intro g hg
          refine hc.2.get?_newSeries_of_known ?_ hg
          rw [Finset.mem_union, mem_idsOf]
          exact Or.inr ⟨x, List.mem_of_find?_eq_some hfirst, by simpa using List.find?_some hfirst⟩

/-! ### What a run conserves -/

/-- What a run of insertions and swap-outs conserves, said of the snapshots it takes and, last,
of what the buffer is left with. -/
structure Conserved (seed : List ℤ) (acts : List (Action V)) : Prop where
  /-- Put one behind the other they spell, for every day and series, the inserted points in
  insertion order. -/
  points : ∀ day id, ((holders seed acts).flatMap fun h => h.byDay.points day id) =
    pointsOf (inserted acts) day id
  /-- The counters of each are those of its rows. -/
  counters : ∀ h ∈ holders seed acts,
    h.sampleCount = h.byDay.rows.length ∧ h.bytesEstimate = 32 * h.sampleCount
  /-- A series outside the seed is new in exactly one of them, the one with its first sample, and
  under the metric and labels of that sample. -/
  newSeries : ∀ id ∉ seed, ∀ x, ((inserted acts).find? fun s => s.seriesId = id) = some x →
    ∃ before h after, holders seed acts = before ++ h :: after ∧
      h.newSeries.get? id = some ⟨id, x.metric, x.labels⟩ ∧
      (h.byDay.points (dayOfUs x.tsUs) id).head? = some (x.tsUs, x.value) ∧
      (∀ h' ∈ before, ∀ day, h'.byDay.points day id = []) ∧
      ∀ h' ∈ before ++ after, h'.newSeries.get? id = none
  /-- A series of the seed, or never inserted, is new in none of them. -/
  notNew : ∀ id, (id ∈ seed ∨ ∀ x ∈ inserted acts, x.seriesId ≠ id) →
    ∀ h ∈ holders seed acts, h.newSeries.get? id = none
  /-- The watermark of each is the largest sequence number inserted since the swap-out before. -/
  maxRecordSeq : (holders seed acts).map Snapshot.maxRecordSeq = (epochs acts).map maxSeqOf

/-- **A buffer conserves what it is given**, over every run of insertions and swap-outs, whatever
the seed. -/
theorem conserved (seed : List ℤ) (acts : List (Action V)) : Conserved seed acts := by
  have hc := chain_run seed acts
  refine ⟨fun day id => ?_, fun h hh => ?_, fun id hid x hx => ?_, fun id hid h hh => ?_,
    hc.maxRecordSeq⟩
  · rw [hc.points, samplesOf_epochs]
  · obtain ⟨known, -, e, -, hholds⟩ := hc.exists_holds hh
    rw [hholds.sampleCount, hholds.rows, hholds.bytesEstimate]
    exact ⟨rfl, Nat.mul_comm _ _⟩
  · have hxid : x.seriesId = id := by simpa using List.find?_some hx
    obtain ⟨before, h, after, hsplit, hnew, hrest⟩ :=
      hc.exists_newSeries (by simpa using hid) (by rwa [samplesOf_epochs])
    refine ⟨before, h, after, hsplit, ?_, hrest⟩
    rw [hnew, Buffer.entryOf, hxid]
  · rcases hid with hid | hid
    · exact hc.get?_newSeries_of_known (by simpa using hid) hh
    · obtain ⟨known, -, e, he, hholds⟩ := hc.exists_holds hh
      rw [hholds.newSeries]
      split_ifs
      · rfl
      · refine firstEntry_eq_none_iff.mpr fun s hs => hid s ?_
        rw [← samplesOf_epochs]
        obtain ⟨a, ha, hs⟩ := List.mem_flatMap.mp hs
        exact List.mem_flatMap.mpr ⟨a, List.mem_flatten.mpr ⟨e, he, ha⟩, hs⟩

end Conservation

end Skaldberg
