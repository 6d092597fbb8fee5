import Skaldberg.Ingest.ServerStore
import Skaldberg.Prometheus.SelectorSemantics
import Skaldberg.Prometheus.WellFormed

/-!
# What a server answers

A query reads the two tables, and what it finds there is what the store that the server implements
calls visible (`Skaldberg.StagedStore.visible`): the joined rows are the visible samples with their
series (`samplesJoinSeries_eq`). A range selector answers with those of the visible samples that its
query finds, each series once and its points in the order of their timestamps (`Answers`). These are
the samples that it asks for (`asksFor`) exactly when its matchers and its window are read on them
as they are meant (`ReadAsMeant`), which they are if the matchers are plain and the window has dates
(`ReadAsMeant.of_plain`).
-/

namespace Skaldberg.Prometheus

open ServerStore (Refines)

variable {F R : Type}

/-! ### The joined rows -/

/-- The samples of a series have one metric and one label map. -/
def SameSeries (xs : Multiset (ValidatedSample F)) : Prop :=
  ∀ x ∈ xs, ∀ y ∈ xs, x.seriesId = y.seriesId → x.seriesRow = y.seriesRow

instance (xs : Multiset (ValidatedSample F)) : Decidable (SameSeries xs) :=
  inferInstanceAs (Decidable (∀ x ∈ xs, ∀ y ∈ xs, x.seriesId = y.seriesId →
    x.seriesRow = y.seriesRow))

section Joined

variable {s : Backpressure.State R F} {st : StagedStore (ValidatedSample F) ℤ}

/-- **The series of a stored sample** is in the table if its key is listed. -/
theorem filter_series_eq (h : Refines s st) (hsame : SameSeries st.stored) {x : ValidatedSample F}
    (hx : x ∈ st.stored) [Decidable (x.seriesId ∈ st.listed)] :
    (s.ingest.tables.series.filter fun r => x.row.seriesId == r.seriesId) =
      if x.seriesId ∈ st.listed then [x.seriesRow] else [] := by
  split_ifs with hlisted
  · obtain ⟨r, hr, hid⟩ := List.mem_map.mp ((h.listed x.seriesId).mpr hlisted)
    obtain ⟨y, hy, rfl⟩ := h.listedRow r hr
    rw [hsame y hy x hx hid] at hr
    have hone := Sql.filter_key_eq h.oneRow hr
    refine (List.filter_congr fun r _ => ?_).trans hone
    rw [Bool.eq_iff_iff, beq_iff_eq, decide_eq_true_eq]
    exact eq_comm
  · refine List.filter_eq_nil_iff.mpr fun r hr hid => hlisted ?_
    exact (h.listed x.seriesId).mp (List.mem_map.mpr ⟨r, hr, (beq_iff_eq.mp hid).symm⟩)

/-- **What a query finds in the tables is what is visible**, each sample with its series. -/
theorem samplesJoinSeries_eq (h : Refines s st) (hsame : SameSeries st.stored) :
    (samplesJoinSeries s.ingest.tables : Multiset (SampleRow F × Skaldberg.SeriesRow)) =
      (st.visible ValidatedSample.seriesId).map fun x => (x.row, x.seriesRow) := by
  classical
  obtain ⟨xs, hxs⟩ := Quot.exists_rep st.stored
  have hxs : (xs : Multiset (ValidatedSample F)) = st.stored := hxs
  have hsamples : s.ingest.tables.samples.Perm (xs.map ValidatedSample.row) :=
    Multiset.coe_eq_coe.mp (by rw [h.stored, ← hxs, Multiset.map_coe])
  have hjoin : ∀ l : List (ValidatedSample F), (∀ x ∈ l, x ∈ st.stored) →
      Sql.join (fun sa r => sa.seriesId == r.seriesId) (l.map ValidatedSample.row)
        s.ingest.tables.series =
          (l.filter fun x => x.seriesId ∈ st.listed).map fun x => (x.row, x.seriesRow) := by
    intro l hl
    induction l with
    | nil => rfl
    | cons x l ih =>
      have ih := ih fun y hy => hl y (List.mem_cons_of_mem _ hy)
      rw [Sql.join] at ih ⊢
      rw [List.map_cons, List.flatMap_cons, ih,
        filter_series_eq h hsame (hl x (List.mem_cons_self ..)), List.filter_cons]
      by_cases hlisted : x.seriesId ∈ st.listed
      · simp [hlisted]
      · simp [hlisted]
  have hperm : (samplesJoinSeries s.ingest.tables).Perm _ :=
    Sql.join_perm_left _ _ hsamples
  rw [Multiset.coe_eq_coe.mpr hperm, hjoin xs fun x hx => hxs ▸ hx, StagedStore.visible, ← hxs,
    Multiset.filter_coe, Multiset.map_coe]

end Joined

/-! ### What a selector asks for, and what it finds -/

/-- Whether a selector asks for a sample, in a window: its series has the name of the selector and
every matcher accepts it, a missing label being the empty string, and it lies in the window. -/
def asksFor (sel : VectorSelector) (lo hi : ℤ) (x : ValidatedSample F) : Bool :=
  sel.matches x.seriesRow && decide (lo ≤ x.tsUs ∧ x.tsUs ≤ hi)

/-- Whether the query of a selector finds a sample, and the filter of the program keeps it. -/
def finds (sel : VectorSelector) (lo hi : ℤ) (x : ValidatedSample F) : Bool :=
  sel.pushed x.seriesRow && sel.postFilter x.labels && (timestampBetween lo hi x.row).holds

/-- A selector is read as it is meant: of the samples whose series the query and the selector agree
on, those that lack a label asked to be empty or lie outside the literals of the window are those
that a matcher on the name refuses or that lie outside the window. -/
def ReadAsMeant (xs : Multiset (ValidatedSample F)) (sel : VectorSelector) (lo hi : ℤ) : Prop :=
  ∀ x ∈ xs, sel.Shared x.seriesRow →
    ((¬sel.EmptyAtMissing x.seriesRow ∧ (usToTsLit lo).micros ≤ x.tsUs ∧
        x.tsUs ≤ (usToTsLit hi).micros) ↔
      (sel.NamesAccept x.seriesRow ∧ lo ≤ x.tsUs ∧ x.tsUs ≤ hi))

/-- **When a selector finds what it asks for.** -/
theorem readAsMeant_iff {xs : Multiset (ValidatedSample F)} {sel : VectorSelector} {lo hi : ℤ} :
    ReadAsMeant xs sel lo hi ↔ ∀ x ∈ xs, finds sel lo hi x = asksFor sel lo hi x := by
  refine forall₂_congr fun x _ => ?_
  rw [finds, timestampBetween, Sql.Truth.holds_some, asksFor]
  exact through_eq_iff.symm

/-- **Plain matchers in a window with dates** are read as they are meant: none asks for an empty
label, and the name is the one before the braces. -/
theorem ReadAsMeant.of_plain {sel : VectorSelector} {lo hi : ℤ}
    (hempty : ∀ m ∈ sel.matchers, m.op = .equal → m.value ≠ "")
    (hname : ∀ m ∈ sel.matchers, m.name ≠ "__name__") (hlo : InRangeMicros lo)
    (hhi : InRangeMicros hi) (xs : Multiset (ValidatedSample F)) : ReadAsMeant xs sel lo hi := by
  intro x _ _
  have hlits : ¬sel.EmptyAtMissing x.seriesRow := by
    rintro ⟨m, hm, -, hop, hvalue, -⟩
    exact hempty m hm hop hvalue
  have hnames : sel.NamesAccept x.seriesRow := fun m hm he => absurd he (hname m hm)
  rw [usToTsLit_micros, usToTsLit_micros, if_pos hlo, if_pos hhi, and_iff_right hlits,
    and_iff_right hnames]

/-- The selector of one of two jobs. -/
def upApi : VectorSelector := ⟨some "up", [⟨.equal, "job", "api"⟩]⟩

/-- It is read as it is meant. -/
theorem readAsMeant_upApi {lo hi : ℤ} (hlo : InRangeMicros lo) (hhi : InRangeMicros hi)
    (xs : Multiset (ValidatedSample F)) : ReadAsMeant xs upApi lo hi := by
  refine .of_plain (fun m hm _ => ?_) (fun m hm => ?_) hlo hhi xs
  · rw [List.mem_singleton.mp hm]
    exact (by decide : "api" ≠ "")
  · rw [List.mem_singleton.mp hm]
    exact (by decide : "job" ≠ "__name__")

/-- What is asked of a sample is asked of its series and its timestamp. -/
def BySeries (asks : ValidatedSample F → Bool) : Prop :=
  ∀ x y : ValidatedSample F, x.metric = y.metric → x.labels = y.labels → x.tsUs = y.tsUs →
    asks x = asks y

theorem bySeries_asksFor (sel : VectorSelector) (lo hi : ℤ) :
    BySeries (F := F) (asksFor sel lo hi) := by
  intro x y hname hlabels hts
  have hmatches : sel.matches x.seriesRow = sel.matches y.seriesRow := matches_congr hname hlabels
  rw [asksFor, asksFor, hmatches, hts]

theorem bySeries_finds (sel : VectorSelector) (lo hi : ℤ) :
    BySeries (F := F) (finds sel lo hi) := by
  intro x y hname hlabels hts
  have hrow : (timestampBetween lo hi x.row).holds = (timestampBetween lo hi y.row).holds := by
    rw [timestampBetween, timestampBetween, ValidatedSample.row, ValidatedSample.row, hts]
  have hpushed : sel.pushed x.seriesRow = sel.pushed y.seriesRow := pushed_congr hname hlabels
  rw [finds, finds, hrow, hpushed, hlabels]

/-! ### The answer of a range selector -/

/-- A matrix with the samples that are asked for: the series of each, once, with their points in
the order of their timestamps. -/
structure Answers (xs : Multiset (ValidatedSample F)) (asks : ValidatedSample F → Bool)
    (l : List (RangePoints F)) : Prop where
  /-- The timestamps of a series do not decrease. -/
  byTime : ∀ s ∈ l, (s.points.map Prod.fst).Pairwise (· ≤ ·)
  /-- A series is told by its name and its labels. -/
  distinct : (l.map fun s => (s.metricName, s.labels)).Nodup
  /-- A series has the points of its samples. -/
  points : ∀ s ∈ l, (s.points : Multiset (ℤ × F)) = (xs.filter fun x =>
    asks x = true ∧ x.metric = s.metricName ∧ x.labels = s.labels).map fun x => (x.tsUs, x.value)
  /-- No series is empty. -/
  nonempty : ∀ s ∈ l, s.points ≠ []
  /-- Every sample has its series. -/
  complete : ∀ x ∈ xs, asks x = true → ∃ s ∈ l, s.metricName = x.metric ∧ s.labels = x.labels

/-- Two questions that one matrix answers are one question. -/
theorem Answers.imp {xs : Multiset (ValidatedSample F)} {asks asks' : ValidatedSample F → Bool}
    {l : List (RangePoints F)} (h : Answers xs asks l) (h' : Answers xs asks' l)
    (hasks' : BySeries asks') {x : ValidatedSample F} (hx : x ∈ xs) (hasks : asks x = true) :
    asks' x = true := by
  -- its point is in the matrix, and so belongs to a sample that the other question asks for
  obtain ⟨s, hs, hname, hlabels⟩ := h.complete x hx hasks
  have hpoint : (x.tsUs, x.value) ∈ (s.points : Multiset (ℤ × F)) := by
    rw [h.points s hs]
    exact Multiset.mem_map_of_mem _ (Multiset.mem_filter.mpr ⟨hx, hasks, hname.symm, hlabels.symm⟩)
  rw [h'.points s hs] at hpoint
  obtain ⟨y, hy, hyx⟩ := Multiset.mem_map.mp hpoint
  obtain ⟨-, hy, hname', hlabels'⟩ := Multiset.mem_filter.mp hy
  rw [← hasks' y x (hname'.trans hname) (hlabels'.trans hlabels) (congrArg Prod.fst hyx)]
  exact hy

theorem Answers.congr {xs : Multiset (ValidatedSample F)} {asks asks' : ValidatedSample F → Bool}
    {l : List (RangePoints F)} (h : Answers xs asks l) (heq : ∀ x ∈ xs, asks x = asks' x) :
    Answers xs asks' l where
  byTime := h.byTime
  distinct := h.distinct
  points s hs := by
    rw [h.points s hs]
    exact congrArg _ (Multiset.filter_congr fun x hx => by rw [heq x hx])
  nonempty := h.nonempty
  complete x hx hasks := h.complete x hx ((heq x hx).trans hasks)

/-- **A matrix with what a selector finds has what it asks for** exactly when the selector is read
as it is meant. -/
theorem Answers.asksFor_iff {xs : Multiset (ValidatedSample F)} {sel : VectorSelector} {lo hi : ℤ}
    {l : List (RangePoints F)} (h : Answers xs (finds sel lo hi) l) :
    Answers xs (asksFor sel lo hi) l ↔ ReadAsMeant xs sel lo hi := by
  rw [readAsMeant_iff]
  refine ⟨fun h' x hx => ?_, h.congr⟩
  rw [Bool.eq_iff_iff]
  exact ⟨h.imp h' (bySeries_asksFor sel lo hi) hx, h'.imp h (bySeries_finds sel lo hi) hx⟩

/-- The row that a sample is found in. -/
def foundRow (x : ValidatedSample F) : SeriesRow F := ⟨x.metric, x.labels, x.tsUs, x.value⟩

/-- **The rows of a selector** are the samples that it finds. -/
theorem coe_runSelectorQuery {t : Tables F} {xs : Multiset (ValidatedSample F)}
    (h : (samplesJoinSeries t : Multiset (SampleRow F × Skaldberg.SeriesRow)) =
      xs.map fun x => (x.row, x.seriesRow)) (E : Sql.Engine) (sel : VectorSelector) (lo hi : ℤ) :
    (runSelectorQuery E t sel lo hi : Multiset (SeriesRow F)) =
      (xs.filter fun x => finds sel lo hi x = true).map foundRow := by
  have hfilter : ((samplesJoinSeries t).filter fun r =>
      (selectorWhere sel lo hi r).holds && sel.postFilter r.2.labels) =
        (samplesJoinSeries t).filter fun r => decide
          ((selectorWhere sel lo hi r).holds = true ∧ sel.postFilter r.2.labels = true) :=
    List.filter_congr fun r _ => by rw [Bool.decide_and, Bool.decide_eq_true, Bool.decide_eq_true]
  rw [Multiset.coe_eq_coe.mpr (runSelectorQuery_perm E t sel lo hi), hfilter, ← Multiset.map_coe,
    ← Multiset.filter_coe, h, Multiset.filter_map, Multiset.map_map]
  refine congrArg₂ Multiset.map rfl (Multiset.filter_congr fun x _ => ?_)
  rw [Function.comp_apply, selectorWhere_holds, finds, Bool.and_right_comm, Bool.and_eq_true_iff,
    Bool.and_eq_true_iff, Bool.and_eq_true_iff]
  exact Iff.rfl

/-- Samples with valid names and without a comma in a label value. -/
def Spelt (xs : Multiset (ValidatedSample F)) : Prop :=
  ∀ x ∈ xs, isValidName x.metric = true ∧ (∀ e ∈ x.labels.entries, AcceptedName e.1) ∧
    CommaFree x.labels

/-- The key of a sample's series tells the series. -/
theorem Spelt.seriesKey_eq_iff {xs : Multiset (ValidatedSample F)} (h : Spelt xs)
    {x y : ValidatedSample F} (hx : x ∈ xs) (hy : y ∈ xs) :
    seriesKey x.metric x.labels = seriesKey y.metric y.labels ↔
      x.metric = y.metric ∧ x.labels = y.labels := by
  obtain ⟨hname, hlabels, hfree⟩ := h x hx
  obtain ⟨hname', hlabels', hfree'⟩ := h y hy
  rw [seriesKey_eq_iff_spelling hname hname']
  refine and_congr_right fun _ => ⟨spelling_injective hlabels hlabels' hfree hfree', ?_⟩
  exact congrArg spelling

/-- The rows of a series come in the order of their timestamps. -/
theorem pairwise_runSelectorQuery (E : Sql.Engine) (t : Tables F) (sel : VectorSelector)
    (lo hi : ℤ) : (runSelectorQuery E t sel lo hi).Pairwise fun a b =>
      a.metricName = b.metricName → a.tsUs ≤ b.tsUs := by
  refine List.Pairwise.filter _ ?_
  refine (E.sort_pairwise (fun a b : SeriesRow F =>
    nameTimeLe (a.metricName, a.tsUs) (b.metricName, b.tsUs)) _
    (fun _ _ => nameTimeLe_total _ _) fun _ _ _ => nameTimeLe_trans).imp fun {a b} hab hname => ?_
  rcases Prod.Lex.toLex_le_toLex.mp (of_decide_eq_true hab) with hlt | ⟨-, hle⟩
  · exact absurd hname hlt.ne
  · exact hle

/-- **A range selector answers with the samples that its query finds.** -/
theorem answers_rangeSelector {t : Tables F} {xs : Multiset (ValidatedSample F)}
    (h : (samplesJoinSeries t : Multiset (SampleRow F × Skaldberg.SeriesRow)) =
      xs.map fun x => (x.row, x.seriesRow)) (hspelt : Spelt xs) (E : Sql.Engine)
    (sel : VectorSelector) (lo hi : ℤ) :
    Answers xs (finds sel lo hi) (rangeSelector E t sel lo hi) := by
  have hrows := coe_runSelectorQuery h E sel lo hi
  have hmem : ∀ r ∈ runSelectorQuery E t sel lo hi,
      ∃ x ∈ xs, finds sel lo hi x = true ∧ foundRow x = r := by
    intro r hr
    rw [← Multiset.mem_coe, hrows] at hr
    obtain ⟨x, hx, rfl⟩ := Multiset.mem_map.mp hr
    obtain ⟨hx, hfinds⟩ := Multiset.mem_filter.mp hx
    exact ⟨x, hx, hfinds, rfl⟩
  have hkey : ∀ a ∈ runSelectorQuery E t sel lo hi, ∀ b ∈ runSelectorQuery E t sel lo hi,
      seriesKey a.metricName a.labels = seriesKey b.metricName b.labels ↔
        a.metricName = b.metricName ∧ a.labels = b.labels := by
    intro a ha b hb
    obtain ⟨x, hx, -, rfl⟩ := hmem a ha
    obtain ⟨y, hy, -, rfl⟩ := hmem b hb
    exact hspelt.seriesKey_eq_iff hx hy
  refine ⟨fun s hs => ?_, ?_, fun s hs => ?_, fun s hs => ?_, fun x hx hfinds => ?_⟩
  · obtain ⟨r, hr, rfl⟩ := mem_groupRowsBySeries.mp hs
    rw [map_fst_points_collected, List.pairwise_map]
    refine ((pairwise_runSelectorQuery E t sel lo hi).filter _).imp_of_mem
      fun {a b} ha hb hab => hab ?_
    obtain ⟨ha, hka⟩ := List.mem_filter.mp ha
    obtain ⟨hb, hkb⟩ := List.mem_filter.mp hb
    exact ((hkey a ha b hb).mp ((of_decide_eq_true hka).trans (of_decide_eq_true hkb).symm)).1
  · refine nodup_map_groupRowsBySeries (g := fun r => (r.metricName, r.labels))
      (fun _ _ => rfl) fun a ha b hb heq => ?_
    obtain ⟨hname, hlabels⟩ := Prod.ext_iff.mp heq
    exact (hkey a ha b hb).mpr ⟨hname, hlabels⟩
  · obtain ⟨a, ha, rfl⟩ := mem_groupRowsBySeries.mp hs
    obtain ⟨r, hr, -, hcollected⟩ := exists_row_of_collected ha
    rw [hcollected]
    have hfilter : (runSelectorQuery E t sel lo hi).filter (fun r' => decide
        (seriesKey r'.metricName r'.labels = seriesKey r.metricName r.labels)) =
          (runSelectorQuery E t sel lo hi).filter fun r' => decide
            (r'.metricName = r.metricName ∧ r'.labels = r.labels) :=
      List.filter_congr fun r' hr' => decide_eq_decide.mpr (hkey r' hr' r hr)
    rw [hfilter, ← Multiset.map_coe, ← Multiset.filter_coe, hrows, Multiset.filter_map,
      Multiset.map_map, Multiset.filter_filter]
    refine congrArg₂ Multiset.map rfl (Multiset.filter_congr fun x _ => ?_)
    rw [and_comm]
    rfl
  · obtain ⟨r, -, -, -, hne⟩ := exists_row_of_mem_groupRowsBySeries hs
    exact hne
  · have hr : foundRow x ∈ runSelectorQuery E t sel lo hi := by
      rw [← Multiset.mem_coe, hrows]
      exact Multiset.mem_map_of_mem _ (Multiset.mem_filter.mpr ⟨hx, hfinds⟩)
    obtain ⟨r, hr', hrkey, hcollected⟩ := exists_row_of_collected hr
    obtain ⟨hname, hlabels⟩ := (hkey _ hr r hr').mp hrkey
    exact ⟨_, mem_groupRowsBySeries.mpr ⟨_, hr, hcollected.symm⟩, hname.symm, hlabels.symm⟩

/-! ### The answers of a server -/

section Runs

variable [F64 F] {xxh3 : List UInt8 → UInt64} {codec : Extern F} {c S rotationBytes : ℕ}
  {t t' : ServerStore.State (RawSample F) F}
  {ok : ServerStore.State (RawSample F) F → Backpressure.Action (RawSample F) → Prop}

/-- A flush that is committed is committed to both tables. -/
def Lands (_ : ServerStore.State (RawSample F) F) : Backpressure.Action (RawSample F) → Prop
  | .commit io => io = .ok
  | _ => True

instance (s : ServerStore.State (RawSample F) F) : ∀ a, Decidable (Lands s a)
  | .commit io => inferInstanceAs (Decidable (io = .ok))
  | .letIn _ => instDecidableTrue
  | .check _ => instDecidableTrue
  | .reject _ => instDecidableTrue
  | .spawn _ _ => instDecidableTrue
  | .log _ _ => instDecidableTrue
  | .insert _ => instDecidableTrue
  | .timeout _ => instDecidableTrue
  | .take => instDecidableTrue
  | .truncate => instDecidableTrue

section

variable (hrun : Runs (Runs.ofFn (ServerStore.step codec (validate xxh3) c S)) ok
  (ServerStore.start codec rotationBytes) t)
include hrun

theorem spelt_of_run (hfree : ∀ x ∈ t.store.accepted, CommaFree x.labels) :
    Spelt t.store.accepted := by
  intro x hx
  obtain ⟨raw, nowMs, hraw⟩ := (ServerStore.vetted_run hrun).accepted x hx
  obtain ⟨hname, hlabels⟩ := SeriesIdentity.accepted_names hraw
  exact ⟨hname, hlabels, hfree x hx⟩

/-- What a query of a server joins. -/
theorem samplesJoinSeries_of_run (hsame : SameSeries t.store.accepted) :
    (samplesJoinSeries t.server.ingest.tables : Multiset (SampleRow F × Skaldberg.SeriesRow)) =
      (t.store.visible ValidatedSample.seriesId).map fun x => (x.row, x.seriesRow) := by
  have hinv := ServerStore.inv_run hrun
  have hstored : t.store.stored ≤ t.store.accepted :=
    (Multiset.le_add_left _ _).trans hinv.sound
  exact samplesJoinSeries_eq hinv.refines fun x hx y hy =>
    hsame x (Multiset.mem_of_le hstored hx) y (Multiset.mem_of_le hstored hy)

/-- What is visible has been accepted. -/
theorem visible_le_of_run :
    t.store.visible ValidatedSample.seriesId ≤ t.store.accepted :=
  (ServerStore.inv_run hrun).sound.visible_le

/-- **A range selector answers with what it finds of what is visible.** -/
theorem answers_of_run (hsame : SameSeries t.store.accepted)
    (hfree : ∀ x ∈ t.store.accepted, CommaFree x.labels) (E : Sql.Engine) (sel : VectorSelector)
    (lo hi : ℤ) :
    Answers (t.store.visible ValidatedSample.seriesId) (finds sel lo hi)
      (rangeSelector E t.server.ingest.tables sel lo hi) := by
  have hspelt := spelt_of_run hrun hfree
  exact answers_rangeSelector (samplesJoinSeries_of_run hrun hsame)
    (fun x hx => hspelt x (Multiset.mem_of_le (visible_le_of_run hrun) hx)) E sel lo hi

end

/-- A sample of a job, as a client sends it. -/
def jobSample (job : String) (ts value : ℤ) : RawSample Whole :=
  ⟨"up", [("job", job)], by simp, ts, .num value⟩

/-- The steps of a server for two requests of at most two samples. -/
def serve : ServerStore.State (RawSample Whole) Whole → Backpressure.Action (RawSample Whole) →
    Option (ServerStore.State (RawSample Whole) Whole) :=
  ServerStore.step Encoding.wholeCodec (validate sumHash) 2 2

/-- A new server. -/
def served : ServerStore.State (RawSample Whole) Whole :=
  ServerStore.start Encoding.wholeCodec defaultRotationBytes

/-- Two clients, the first of them flushed and the second inserted in the meantime. -/
def overtaking : List (Backpressure.Action (RawSample Whole)) :=
  [.letIn [jobSample "api" 0 1], .letIn [jobSample "db" 0 2], .check 0, .check 1, .spawn 0 0,
    .spawn 1 0, .log 0 .ok, .insert 0, .take, .log 0 .ok, .insert 0, .commit .ok, .truncate]

/-- What is asked of the samples of a server. -/
def Usual (t : ServerStore.State (RawSample Whole) Whole) : Prop :=
  SameSeries t.store.accepted ∧ ∀ x ∈ t.store.accepted, CommaFree x.labels

instance (t : ServerStore.State (RawSample Whole) Whole) : Decidable (Usual t) :=
  inferInstanceAs (Decidable (_ ∧ _))

/-- No series has two samples at one timestamp, and labels stand under one metric. -/
structure ToldApart (xs : Multiset (ValidatedSample F)) : Prop where
  /-- A series has one sample at a timestamp. -/
  oneSample : (xs.map fun x => (x.seriesRow, x.tsUs)).Nodup
  /-- Labels stand under one metric. -/
  oneMetric : ∀ x ∈ xs, ∀ y ∈ xs, x.labels = y.labels → x.metric = y.metric

instance (xs : Multiset (ValidatedSample F)) : Decidable (ToldApart xs) :=
  decidable_of_iff ((xs.map fun x => (x.seriesRow, x.tsUs)).Nodup ∧
    ∀ x ∈ xs, ∀ y ∈ xs, x.labels = y.labels → x.metric = y.metric)
    ⟨fun h => ⟨h.1, h.2⟩, fun h => ⟨h.oneSample, h.oneMetric⟩⟩

set_option maxRecDepth 100000 in
/-- Where that leads: two samples are accepted, told apart and with dates, one of which is flushed;
and the other one is flushed next. -/
theorem exists_overtaking :
    ∃ t t', Runs (Runs.ofFn serve) Lands served t ∧ Runs (Runs.ofFn serve) Lands t t' ∧
      (Usual t ∧ t.store.accepted.card = 2 ∧ t.server.ingest.tables.samples.length = 1 ∧
        (∀ x ∈ t.store.accepted, InRangeMicros x.tsUs) ∧ ToldApart t.store.accepted) ∧
      Usual t' ∧ t'.store.accepted.card = 2 ∧ t'.server.ingest.tables.samples.length = 2 ∧
        t'.server.ingest.buffer.isEmpty = true ∧ t'.server.flusher.rows = [] := by
  let flushed (t : ServerStore.State (RawSample Whole) Whole) : Bool :=
    decide (Usual t ∧ t.store.accepted.card = 2 ∧ t.server.ingest.tables.samples.length = 2 ∧
      t.server.ingest.buffer.isEmpty = true ∧ t.server.flusher.rows = [])
  obtain ⟨t, hrun, hp⟩ := Runs.exists_of_foldlM (f := serve) (C := Lands) (s := served)
    (p := fun t => decide (Usual t ∧ t.store.accepted.card = 2 ∧
        t.server.ingest.tables.samples.length = 1 ∧
          (∀ x ∈ t.store.accepted, InRangeMicros x.tsUs) ∧ ToldApart t.store.accepted) &&
      (([.take, .commit .ok].foldlM (fun s a => if Lands s a then serve s a else none) t).map
        flushed == some true)) overtaking (by decide +kernel)
  simp only [Bool.and_eq_true, beq_iff_eq] at hp
  obtain ⟨t', hrun', hp'⟩ := Runs.exists_of_foldlM (f := serve) (C := Lands) _ hp.2
  exact ⟨t, t', hrun, hrun', of_decide_eq_true hp.1, of_decide_eq_true hp'⟩

/-- A later store has accepted what an earlier one has, and shows what it shows. -/
theorem le_of_run (hrun : Runs (Runs.ofFn (ServerStore.step codec (validate xxh3) c S)) ok t t') :
    t.store.accepted ≤ t'.store.accepted ∧
      t.store.visible ValidatedSample.seriesId ≤ t'.store.visible ValidatedSample.seriesId := by
  refine hrun.invariant (P := fun u => t.store.accepted ≤ u.store.accepted ∧
    t.store.visible ValidatedSample.seriesId ≤ u.store.visible ValidatedSample.seriesId)
    ⟨le_rfl, le_rfl⟩ fun {u a u'} h _ hs => ?_
  obtain ⟨-, hstore⟩ := ServerStore.exists_step hs
  rw [hstore, ServerStore.follow]
  split
  · exact ⟨h.1.trans (StagedStore.accepted_le_next _ _ _),
      h.2.trans (StagedStore.visible_le_next _ _ _)⟩
  · exact h

/-- **Answers only grow**: a series that a range selector has been answered with is in every later
answer, with at least its points. -/
theorem rangeSelector_grows
    (hrun : Runs (Runs.ofFn (ServerStore.step codec (validate xxh3) c S)) ok
      (ServerStore.start codec rotationBytes) t)
    (hrun' : Runs (Runs.ofFn (ServerStore.step codec (validate xxh3) c S)) ok t t')
    (hsame : SameSeries t'.store.accepted) (hfree : ∀ x ∈ t'.store.accepted, CommaFree x.labels)
    (E E' : Sql.Engine) (sel : VectorSelector) (lo hi : ℤ) :
    ∀ s ∈ rangeSelector E t.server.ingest.tables sel lo hi,
      ∃ s' ∈ rangeSelector E' t'.server.ingest.tables sel lo hi,
        s'.metricName = s.metricName ∧ s'.labels = s.labels ∧
          (s.points : Multiset (ℤ × F)) ≤ s'.points := by
  obtain ⟨haccepted, hvisible⟩ := le_of_run hrun'
  have hbefore := answers_of_run hrun
    (fun x hx y hy => hsame x (Multiset.mem_of_le haccepted hx) y (Multiset.mem_of_le haccepted hy))
    (fun x hx => hfree x (Multiset.mem_of_le haccepted hx)) E sel lo hi
  have hafter := answers_of_run (hrun.trans hrun') hsame hfree E' sel lo hi
  intro s hs
  have hpoints := hbefore.points s hs
  -- a series has a point, so there is a sample that its series is there for
  obtain ⟨p, hp⟩ := List.exists_mem_of_ne_nil _ (hbefore.nonempty s hs)
  rw [← Multiset.mem_coe, hpoints] at hp
  obtain ⟨x, hx, -⟩ := Multiset.mem_map.mp hp
  obtain ⟨hx, hfinds, hname, hlabels⟩ := Multiset.mem_filter.mp hx
  obtain ⟨s', hs', hname', hlabels'⟩ :=
    hafter.complete x (Multiset.mem_of_le hvisible hx) hfinds
  refine ⟨s', hs', hname'.trans hname, hlabels'.trans hlabels, ?_⟩
  rw [hpoints, hafter.points s' hs', hname'.trans hname, hlabels'.trans hlabels]
  exact Multiset.map_le_map (Multiset.filter_le_filter _ hvisible)

/-- The answers before and after a second flush. -/
theorem rangeSelector_grows_second_flush :
    ∃ t t', Runs (Runs.ofFn serve) (fun _ _ => True) served t ∧
      Runs (Runs.ofFn serve) (fun _ _ => True) t t' ∧
        t.server.ingest.tables.samples.length = 1 ∧ t'.server.ingest.tables.samples.length = 2 ∧
          ∀ (E E' : Sql.Engine) (sel : VectorSelector) (lo hi : ℤ),
            ∀ s ∈ rangeSelector E t.server.ingest.tables sel lo hi,
              ∃ s' ∈ rangeSelector E' t'.server.ingest.tables sel lo hi,
                s'.metricName = s.metricName ∧ s'.labels = s.labels ∧
                  (s.points : Multiset (ℤ × Whole)) ≤ s'.points := by
  obtain ⟨t, t', hrun, hrun', ⟨-, -, hlen, -⟩, husual, -, hlen', -⟩ := exists_overtaking
  exact ⟨t, t', hrun.mono fun _ _ _ => trivial, hrun'.mono fun _ _ _ => trivial, hlen, hlen',
    rangeSelector_grows hrun hrun' husual.1 husual.2⟩

/-- **Everything accepted is visible** once it is flushed, as long as every commit lands. -/
theorem visible_eq_of_landing
    (hrun : Runs (Runs.ofFn (ServerStore.step codec (validate xxh3) c S)) Lands
      (ServerStore.start codec rotationBytes) t)
    (hbuffer : t.server.ingest.buffer.isEmpty = true) (hflusher : t.server.flusher.rows = []) :
    t.store.visible ValidatedSample.seriesId = t.store.accepted := by
  have hlossless : t.store.Lossless ValidatedSample.seriesId := by
    refine hrun.invariant (P := fun u => u.store.Lossless ValidatedSample.seriesId)
      (StagedStore.lossless_empty _ ∅) fun {u a u'} h hok hs => ?_
    obtain ⟨-, hstore⟩ := ServerStore.exists_step hs
    rw [hstore, ServerStore.follow]
    split
    · rename_i act hact
      refine h.next (ServerStore.lands_meaning (fun io ha => ?_) hact)
      rw [ha] at hok
      exact hok
    · exact h
  have hrefines := (ServerStore.inv_run hrun).refines
  have hpending : t.store.pending = 0 := by
    have hrows := hrefines.pending
    rw [hrefines.counted.rows_eq_nil hbuffer] at hrows
    exact Multiset.map_eq_zero.mp hrows.symm
  exact hlossless.visible_eq hpending (hrefines.moving_eq_zero hflusher)

/-- **The tables of a server are validated**: one row a series, each registered for a sample that
has been validated. -/
theorem validatedTables_of_run
    (hrun : Runs (Runs.ofFn (ServerStore.step codec (validate xxh3) c S)) ok
      (ServerStore.start codec rotationBytes) t) :
    ValidatedTables xxh3 t.server.ingest.tables := by
  have hinv := ServerStore.inv_run hrun
  refine ⟨hinv.refines.oneRow, fun r hr => ?_⟩
  obtain ⟨x, hx, rfl⟩ := hinv.refines.listedRow r hr
  have hstored : t.store.stored ≤ t.store.accepted :=
    (Multiset.le_add_left _ _).trans hinv.sound
  obtain ⟨raw, nowMs, hraw⟩ :=
    (ServerStore.vetted_run hrun).accepted x (Multiset.mem_of_le hstored hx)
  exact registered_of_validate hraw

/-- **The labels of a server are spelt apart** as long as no label value has a comma. -/
theorem speltApart_of_run
    (hrun : Runs (Runs.ofFn (ServerStore.step codec (validate xxh3) c S)) ok
      (ServerStore.start codec rotationBytes) t)
    (hfree : ∀ x ∈ t.store.accepted, CommaFree x.labels) :
    SpeltApart t.server.ingest.tables := by
  have hinv := ServerStore.inv_run hrun
  refine speltApart_of_commaFree (validatedTables_of_run hrun) fun r hr => ?_
  obtain ⟨x, hx, rfl⟩ := hinv.refines.listedRow r (mem_sampledSeries.mp hr).1
  exact hfree x (Multiset.mem_of_le ((Multiset.le_add_left _ _).trans hinv.sound) hx)

/-- The selector that accepts every series. -/
def everything : VectorSelector := ⟨none, []⟩

omit [F64 F] in
/-- The samples of every series. -/
theorem selectedRows_sublist (t : Tables F) (sel : VectorSelector) :
    (selectedRows t sel).Sublist (selectedRows t everything) := by
  have hall : selectedRows t everything =
      (samplesJoinSeries t).filter fun r => decide (InRangeMicros r.1.timestamp) :=
    List.filter_congr fun r _ => Bool.true_and _
  rw [hall, selectedRows, ← List.filter_filter]
  exact List.filter_sublist

omit [F64 F] in
/-- **Unambiguous for everything is unambiguous for every selector.** -/
theorem Unambiguous.of_everything {t : Tables F} (h : Unambiguous t everything)
    (sel : VectorSelector) : Unambiguous t sel where
  oneSample := h.oneSample.sublist (selectedRows_sublist t sel)
  oneName r hr r' hr' := h.oneName r ((selectedRows_sublist t sel).subset hr) r'
    ((selectedRows_sublist t sel).subset hr')

/-- The samples that have a date. -/
def dated (xs : Multiset (ValidatedSample F)) : Multiset (ValidatedSample F) :=
  xs.filter fun x => InRangeMicros x.tsUs

omit [F64 F] in
theorem ToldApart.mono {xs ys : Multiset (ValidatedSample F)} (h : ToldApart ys) (hle : xs ≤ ys) :
    ToldApart xs where
  oneSample := Multiset.nodup_of_le (Multiset.map_le_map hle) h.oneSample
  oneMetric x hx y hy := h.oneMetric x (Multiset.mem_of_le hle hx) y (Multiset.mem_of_le hle hy)

omit [F64 F] in
/-- **What is joined is unambiguous** when its samples are told apart. -/
theorem unambiguous_everything_iff {t : Tables F} {xs : Multiset (ValidatedSample F)}
    (h : (samplesJoinSeries t : Multiset (SampleRow F × Skaldberg.SeriesRow)) =
      xs.map fun x => (x.row, x.seriesRow))
    (hid : ∀ x ∈ xs, ∀ y ∈ xs, x.metric = y.metric → x.labels = y.labels →
      x.seriesId = y.seriesId) :
    Unambiguous t everything ↔ ToldApart (dated xs) := by
  have hrows : (selectedRows t everything : Multiset (SampleRow F × Skaldberg.SeriesRow)) =
      (dated xs).map fun x => (x.row, x.seriesRow) := by
    have hall : selectedRows t everything =
        (samplesJoinSeries t).filter fun r => decide (InRangeMicros r.1.timestamp) :=
      List.filter_congr fun r _ => Bool.true_and _
    rw [hall, ← Multiset.filter_coe, h, Multiset.filter_map]
    rfl
  have hmem : ∀ {r}, r ∈ selectedRows t everything ↔
      ∃ x ∈ dated xs, (x.row, x.seriesRow) = r := by
    intro r
    rw [← Multiset.mem_coe, hrows, Multiset.mem_map]
  have hpairs : ((selectedRows t everything).Pairwise fun r r' =>
      r.2 = r'.2 → r.1.timestamp ≠ r'.1.timestamp) ↔
        ((dated xs).map fun x => (x.seriesRow, x.tsUs)).Nodup := by
    have hmap : ((dated xs).map fun x => (x.seriesRow, x.tsUs)) =
        ((selectedRows t everything).map fun r => (r.2, r.1.timestamp) : Multiset _) := by
      rw [← Multiset.map_coe, hrows, Multiset.map_map]
      rfl
    rw [hmap, Multiset.coe_nodup, List.Nodup, List.pairwise_map]
    exact List.Pairwise.iff fun r r' => by simp only [ne_eq, Prod.mk.injEq, not_and]
  constructor
  · refine fun hun => ⟨hpairs.mp hun.oneSample, fun x hx y hy hlabels => ?_⟩
    have hrow := hun.oneName _ (hmem.mpr ⟨x, hx, rfl⟩) _ (hmem.mpr ⟨y, hy, rfl⟩) hlabels
    exact congrArg Skaldberg.SeriesRow.metricName hrow
  · refine fun htold => ⟨hpairs.mpr htold.oneSample, fun r hr r' hr' hlabels => ?_⟩
    obtain ⟨x, hx, rfl⟩ := hmem.mp hr
    obtain ⟨y, hy, rfl⟩ := hmem.mp hr'
    have hlabels : x.labels = y.labels := hlabels
    have hmetric := htold.oneMetric x hx y hy hlabels
    have hid := hid x (Multiset.mem_of_mem_filter hx) y (Multiset.mem_of_mem_filter hy) hmetric
      hlabels
    rw [ValidatedSample.seriesRow, ValidatedSample.seriesRow, hid, hmetric, hlabels]

/-- **When every matrix of a server is well formed**: exactly while the visible samples are told
apart, no series having two at one timestamp and no two series having the same labels. -/
theorem wellFormed_of_run
    (hrun : Runs (Runs.ofFn (ServerStore.step codec (validate xxh3) c S)) ok
      (ServerStore.start codec rotationBytes) t)
    (hsame : SameSeries t.store.accepted) (hfree : ∀ x ∈ t.store.accepted, CommaFree x.labels)
    (hinf : F64.isFinite (F64.inf : F) = false) (E : Sql.Engine) :
    (∀ (e : Expr F) (startUs endUs stepUs : ℤ) (l : List (RangePoints F)),
      evaluateRange E t.server.ingest.tables startUs endUs stepUs e = .ok l → WellFormed l) ↔
        ToldApart (dated (t.store.visible ValidatedSample.seriesId)) := by
  have hvalid := validatedTables_of_run hrun
  have hjoin := samplesJoinSeries_of_run hrun hsame
  have hvisible : ∀ x ∈ t.store.visible ValidatedSample.seriesId, x ∈ t.store.accepted :=
    fun x hx => Multiset.mem_of_le (visible_le_of_run hrun) hx
  have hapart := speltApart_of_run hrun hfree
  have hid : ∀ x ∈ t.store.visible ValidatedSample.seriesId,
      ∀ y ∈ t.store.visible ValidatedSample.seriesId, x.metric = y.metric → x.labels = y.labels →
        x.seriesId = y.seriesId := by
    intro x hx y hy hmetric hlabels
    have hderived : ∀ z ∈ t.store.accepted,
        z.seriesId = deriveSeriesId xxh3 z.metric z.labels := by
      intro z hz
      obtain ⟨raw, nowMs, hraw⟩ := (ServerStore.vetted_run hrun).accepted z hz
      exact (registered_of_validate hraw).seriesId
    rw [hderived x (hvisible x hx), hderived y (hvisible y hy), hmetric, hlabels]
  rw [← unambiguous_everything_iff hjoin hid]
  constructor
  · exact fun h => unambiguous_of_wellFormed (E := E) hvalid hapart hinf fun e _ => h e
  · intro h e startUs endUs stepUs l hl
    exact wellFormed_evaluateRange hvalid hapart hl fun sel _ => h.of_everything sel

/-- Every matrix is well formed while no two clients send a sample of one series at one time. -/
theorem wellFormed_of_run_overtaking :
    ∃ t, Runs (Runs.ofFn serve) (fun _ _ => True) served t ∧
      t.server.ingest.tables.samples.length = 1 ∧
        ∀ (E : Sql.Engine) (e : Expr Whole) (startUs endUs stepUs : ℤ)
          (l : List (RangePoints Whole)),
            evaluateRange E t.server.ingest.tables startUs endUs stepUs e = .ok l →
              WellFormed l := by
  obtain ⟨t, -, hrun, -, ⟨husual, -, hlen, -, htold⟩, -⟩ := exists_overtaking
  refine ⟨t, hrun.mono fun _ _ _ => trivial, hlen, fun E => ?_⟩
  refine (wellFormed_of_run hrun husual.1 husual.2 (by decide) E).mpr ?_
  exact htold.mono ((Multiset.filter_le _ _).trans (visible_le_of_run hrun))

end Runs

end Skaldberg.Prometheus
