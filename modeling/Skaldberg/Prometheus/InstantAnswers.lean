import Skaldberg.Prometheus.InstantVectors
import Skaldberg.Prometheus.QueryWindow
import Skaldberg.Prometheus.StoreAnswers

/-!
# What a server answers at one time

An instant selector answers with the latest sample of each series that its query finds in its window
(`Skaldberg.Prometheus.AnswersLatest`). As with a range selector this is about the samples that are
visible in the store that the server implements, at any moment of any run
(`instantSelector_of_run`), and they are those that it asks for exactly when it is read as it is
meant; the two endpoints show the same store. Whatever else an instant query computes from selectors
that name their metrics, no series comes twice in its answer (`wellFormedVector_of_run`): here no
samples need to be told apart for it, as a matrix needs it.
-/

namespace Skaldberg.Prometheus

variable {F : Type}

/-- A vector with the latest of the samples that are asked for: that of each series, once. -/
structure AnswersLatest (xs : Multiset (ValidatedSample F)) (asks : ValidatedSample F → Bool)
    (l : List (InstantPoint F)) : Prop where
  /-- A series is told by its name and its labels. -/
  distinct : WellFormedVector l
  /-- A point is that of a sample, and none of its series is later. -/
  latest : ∀ p ∈ l, ∃ x ∈ xs, asks x = true ∧ p = ⟨x.metric, x.labels, x.tsUs, x.value⟩ ∧
    ∀ y ∈ xs, asks y = true → y.metric = x.metric → y.labels = x.labels → y.tsUs ≤ x.tsUs
  /-- Every sample has its series. -/
  complete : ∀ x ∈ xs, asks x = true → ∃ p ∈ l, p.metricName = x.metric ∧ p.labels = x.labels

/-- Whether an instant selector asks for a sample, at a time. -/
def asksAt (sel : VectorSelector) (timeUs : ℤ) : ValidatedSample F → Bool :=
  asksFor sel (timeUs - lookbackUs) timeUs

section Windows

variable {xs : Multiset (ValidatedSample F)} {l : List (InstantPoint F)}
  {asks asks' : ValidatedSample F → Bool}

/-- Two questions about the series in one window that one vector answers are one question. -/
theorem AnswersLatest.imp (h : AnswersLatest xs asks l) (h' : AnswersLatest xs asks' l)
    (hseries : ∀ x y : ValidatedSample F, x.metric = y.metric → x.labels = y.labels →
      asks x = true → asks' y = true → asks' x = true) {x : ValidatedSample F} (hx : x ∈ xs)
    (hasks : asks x = true) : asks' x = true := by
  obtain ⟨p, hp, hname, hlabels⟩ := h.complete x hx hasks
  obtain ⟨y, -, hy, rfl, -⟩ := h'.latest p hp
  exact hseries x y hname.symm hlabels.symm hasks hy

theorem AnswersLatest.congr (h : AnswersLatest xs asks l) (heq : ∀ x ∈ xs, asks x = asks' x) :
    AnswersLatest xs asks' l where
  distinct := h.distinct
  latest p hp := by
    obtain ⟨x, hx, hasks, rfl, hlatest⟩ := h.latest p hp
    exact ⟨x, hx, (heq x hx).symm.trans hasks, rfl, fun y hy hasks' =>
      hlatest y hy ((heq y hy).trans hasks')⟩
  complete x hx hasks := h.complete x hx ((heq x hx).trans hasks)

/-- In a window with dates both questions are about the series. -/
theorem finds_iff_of_dated {sel : VectorSelector} {lo hi : ℤ} (hlo : InRangeMicros lo)
    (hhi : InRangeMicros hi) (x : ValidatedSample F) :
    finds sel lo hi x = true ↔
      (sel.pushed x.seriesRow && sel.postFilter x.labels) = true ∧ lo ≤ x.tsUs ∧ x.tsUs ≤ hi := by
  rw [finds, Bool.and_eq_true, timestampBetween, Sql.Truth.holds_some, decide_eq_true_eq,
    usToTsLit_micros, usToTsLit_micros, if_pos hlo, if_pos hhi]
  exact Iff.rfl

/-- **A vector with the latest of what a selector finds has the latest of what it asks for** exactly
when the selector is read as it is meant, in a window with dates. -/
theorem AnswersLatest.asksFor_iff {sel : VectorSelector} {lo hi : ℤ} (hlo : InRangeMicros lo)
    (hhi : InRangeMicros hi) (h : AnswersLatest xs (finds sel lo hi) l) :
    AnswersLatest xs (asksFor sel lo hi) l ↔ ReadAsMeant xs sel lo hi := by
  rw [readAsMeant_iff]
  refine ⟨fun h' x hx => ?_, h.congr⟩
  rw [Bool.eq_iff_iff]
  -- the window is the same for both, and what remains is said of the series
  constructor
  · refine h.imp h' (fun x y hname hlabels hfinds hasks => ?_) hx
    rw [asksFor, Bool.and_eq_true] at hasks ⊢
    have hmatches : sel.matches x.seriesRow = sel.matches y.seriesRow :=
      matches_congr hname hlabels
    rw [hmatches, decide_eq_true_eq]
    exact ⟨hasks.1, ((finds_iff_of_dated hlo hhi x).mp hfinds).2⟩
  · refine h'.imp h (fun x y hname hlabels hasks hfinds => ?_) hx
    rw [asksFor, Bool.and_eq_true, decide_eq_true_eq] at hasks
    have hpushed : sel.pushed x.seriesRow = sel.pushed y.seriesRow := pushed_congr hname hlabels
    rw [finds_iff_of_dated hlo hhi] at hfinds ⊢
    rw [hpushed, hlabels]
    exact ⟨hfinds.1, hasks.2⟩

end Windows

/-- **An instant selector answers with the latest samples** of what its query finds. -/
theorem answersLatest_instantSelector {t : Tables F} {xs : Multiset (ValidatedSample F)}
    (hjoin : (samplesJoinSeries t : Multiset (SampleRow F × Skaldberg.SeriesRow)) =
      xs.map fun x => (x.row, x.seriesRow))
    (hspelt : Spelt xs) (E : Sql.Engine) (sel : VectorSelector) (timeUs : ℤ) :
    AnswersLatest xs (finds sel (asI64 (timeUs - lookbackUs)) timeUs)
      (instantSelector E t sel timeUs) := by
  let rows := runSelectorQuery E t sel (asI64 (timeUs - lookbackUs)) timeUs
  have hrows : ∀ row, row ∈ rows ↔ ∃ x ∈ xs,
      finds sel (asI64 (timeUs - lookbackUs)) timeUs x = true ∧ foundRow x = row := by
    intro row
    rw [← Multiset.mem_coe, coe_runSelectorQuery hjoin, Multiset.mem_map]
    simp only [Multiset.mem_filter, and_assoc]
  have hkeys : ((instantSelector E t sel timeUs).map
      fun p => seriesKey p.metricName p.labels).Nodup := nodup_keys_instantSelector E
  constructor
  · rw [WellFormedVector]
    refine List.Nodup.of_map (fun s => seriesKey s.1 s.2) ?_
    rw [List.map_map]
    exact hkeys
  · intro p hp
    obtain ⟨k, row, hget, rfl⟩ := mem_instantSelector_iff_get?_kept.mp hp
    obtain ⟨hrow, hkey, hall⟩ := latest_of_get?_keepLatest hget
    obtain ⟨x, hx, hfinds, rfl⟩ := (hrows row).mp hrow
    refine ⟨x, hx, hfinds, rfl, fun y hy hfinds' hname hlabels => ?_⟩
    refine hall (foundRow y) ((hrows _).mpr ⟨y, hy, hfinds', rfl⟩) ?_
    rw [← hkey, foundRow, foundRow, hname, hlabels]
  · intro x hx hfinds
    obtain ⟨row, hget⟩ := exists_get?_keepLatest ((hrows _).mpr ⟨x, hx, hfinds, rfl⟩)
    obtain ⟨hrow, hkey, -⟩ := latest_of_get?_keepLatest hget
    obtain ⟨y, hy, -, rfl⟩ := (hrows row).mp hrow
    obtain ⟨hname, hlabels⟩ := (hspelt.seriesKey_eq_iff hy hx).mp hkey
    exact ⟨_, mem_instantSelector_iff_get?_kept.mpr ⟨_, _, hget, rfl⟩, hname, hlabels⟩

/-! ### The answers of a server -/

section Runs

variable [F64 F] {xxh3 : List UInt8 → UInt64} {codec : Extern F} {c S rotationBytes : ℕ}
  {t : ServerStore.State (RawSample F) F}
  {ok : ServerStore.State (RawSample F) F → Backpressure.Action (RawSample F) → Prop}

/-- **No series comes twice in an answer**: at any moment every instant query whose selectors name
their metrics has a well-formed vector. -/
theorem wellFormedVector_of_run
    (hrun : Runs (Runs.ofFn (ServerStore.step codec (validate xxh3) c S)) ok
      (ServerStore.start codec rotationBytes) t)
    (hfree : ∀ x ∈ t.store.accepted, CommaFree x.labels) (E : Sql.Engine) {e : Expr F}
    (hnamed : ∀ sel, Reaches e sel → (effectiveMetricName sel).isSome = true) {timeUs : ℤ}
    {l : List (InstantPoint F)} (hl : evaluateInstant E t.server.ingest.tables timeUs e = .ok l) :
    WellFormedVector l := by
  have hvalid := validatedTables_of_run hrun
  have htold : ∀ sel, Reaches e sel → ToldAt E t.server.ingest.tables sel timeUs := by
    intro sel hreach
    obtain ⟨name, hname⟩ := Option.isSome_iff_exists.mp (hnamed sel hreach)
    exact toldAt_of_named hvalid hname E timeUs
  exact (told_evaluateInstant hvalid (speltApart_of_run hrun hfree) e hl htold).wellFormed

/-- One of two clients is flushed, and a sum over `up` has no series twice. -/
theorem wellFormedVector_of_run_overtaking :
    ∃ t, Runs (Runs.ofFn serve) (fun _ _ => True) served t ∧
      t.server.ingest.tables.samples.length = 1 ∧ ∀ (E : Sql.Engine) (timeUs : ℤ),
        ∃ l, evaluateInstant E t.server.ingest.tables timeUs
          (.binary .add (.vectorSelector anyUp) (.numberLiteral F64.inf) none) = .ok l ∧
            WellFormedVector l := by
  obtain ⟨t, -, hrun, -, ⟨husual, -, hlen, -⟩, -⟩ := exists_overtaking
  refine ⟨t, hrun.mono fun _ _ _ => trivial, hlen, fun E timeUs => ?_⟩
  have hinf : F64.isFinite (F64.inf : Whole) = false := by decide
  have hup : evaluateInstant E t.server.ingest.tables timeUs (.vectorSelector anyUp) = .ok _ :=
    evaluateInstant_selector rfl
  have hl := evaluateInstant_add_inf hinf (fun v h => (by cases h)) hup
  refine ⟨_, hl, wellFormedVector_of_run hrun husual.2 E (fun sel hreach => ?_) hl⟩
  rw [reaches_vectorSelector (reaches_add_literal hreach)]
  rfl

end Runs

end Skaldberg.Prometheus
