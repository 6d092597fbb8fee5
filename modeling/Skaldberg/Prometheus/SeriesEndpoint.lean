import Skaldberg.Lib.FirstSeen
import Skaldberg.Prometheus.SelectorSemantics
import Skaldberg.Prometheus.SeriesKey

/-!
# The series of an answer

`/api/v1/series` lists the series that satisfy one of several selectors
(`Skaldberg.Prometheus.series`). Its query has a condition on the metric name alone, and the filter
behind it is the one that is left to the program where the query has taken `=` and `!=` off it: here
nothing takes them, and a series is let through whatever its labels are
(`VectorSelector.letsThrough`). And a series is listed once by remembering its key, which another
one may have.

What is listed is the first series of each key, in the order of the selectors and then in whatever
order the rows of a query come in (`series_eq_ok`). `series_perm_iff` says when that is what was
asked for.
-/

namespace Skaldberg.Prometheus

variable {F : Type} {t : Tables F}

/-! ### The endpoint -/

/-- `series_metric_obj`: the labels of a series, with its metric under `__name__`. -/
def seriesMetricObj (metricName : String) (labels : Labels) : Labels :=
  .ofList (("__name__", metricName) :: labels.entries)

/-- The object of a series. -/
def seriesObj (s : Skaldberg.SeriesRow) : Labels := seriesMetricObj s.metricName s.labels

/-- The key of a series. -/
def keyOf (s : Skaldberg.SeriesRow) : String := seriesKey s.metricName s.labels

/-- The `WHERE` clause of the endpoint. -/
def seriesWhere (sel : VectorSelector) (s : Skaldberg.SeriesRow) : Sql.Truth :=
  Sql.conj (((effectiveMetricName sel).map SeriesCond.metricNameEq).toList.map (SeriesCond.eval s))

/-- The series that the query of a selector returns, in any order, and the filter lets through. -/
def scannedSeries (E : Sql.Engine) (t : Tables F) (sel : VectorSelector) :
    List Skaldberg.SeriesRow :=
  (E.sort (fun _ _ => true) (Sql.select (seriesWhere sel) t.series)).filter fun s =>
    sel.postFilter s.labels

/-- List a series, unless its key has been seen. -/
def pushSeries (acc : List Labels × Finset String) (s : Skaldberg.SeriesRow) :
    List Labels × Finset String :=
  if keyOf s ∈ acc.2 then acc else (acc.1 ++ [seriesObj s], insert (keyOf s) acc.2)

/-- The loop over the selectors. An expression without one is passed over. -/
def seriesFrom (parse : String → Except String (Expr F)) (E : Sql.Engine) (t : Tables F) :
    List String → List Labels × Finset String → Except PromError (List Labels)
  | [], acc => .ok acc.1
  | q :: matches_, acc =>
    match parse q with
    | .error e => .error (.badData ("PromQL parse: " ++ e))
    | .ok expr =>
      match extractSelector expr with
      | none => seriesFrom parse E t matches_ acc
      | some sel => seriesFrom parse E t matches_ ((scannedSeries E t sel).foldl pushSeries acc)

/-- `series`: the data of the answer. -/
def series (parse : String → Except String (Expr F)) (E : Sql.Engine) (t : Tables F)
    (matches_ : List String) : Except PromError (List Labels) :=
  if matches_.isEmpty then .ok [] else seriesFrom parse E t matches_ ([], ∅)

/-! ### What is listed -/

/-- Whether the query and the filter of the endpoint let a series through. -/
def VectorSelector.letsThrough (sel : VectorSelector) (s : Skaldberg.SeriesRow) : Bool :=
  (seriesWhere sel s).holds && sel.postFilter s.labels

/-- The selectors of the expressions that are parsed. -/
def selectorsOf (parse : String → Except String (Expr F)) (matches_ : List String) :
    List VectorSelector :=
  matches_.filterMap fun q => (parse q).toOption.bind extractSelector

/-- **A series that satisfies a selector is let through.** -/
theorem VectorSelector.letsThrough_of_matches {sel : VectorSelector} {s : Skaldberg.SeriesRow}
    (h : sel.matches s = true) : sel.letsThrough s = true := by
  obtain ⟨⟨hname, hlabels⟩, -⟩ := matches_iff.mp h
  rw [letsThrough, Bool.and_eq_true]
  constructor
  · rw [seriesWhere, Sql.holds_conj, List.all_map, List.all_eq_true]
    intro c hc
    obtain ⟨name, hn, rfl⟩ := List.mem_map.mp (by rwa [Option.toList_map] at hc)
    simp [SeriesCond.eval, hname name (Option.mem_toList.mp hn)]
  · rw [postFilter, List.all_eq_true]
    intro m hm
    have hm := (List.mem_filter.mp hm).1
    obtain ⟨hm, hne⟩ := List.mem_filter.mp hm
    exact hlabels m hm (by simpa using hne)

/-- **An object tells its series**, where no label is called `__name__`. -/
theorem seriesObj_injective {s s' : Skaldberg.SeriesRow}
    (hs : ∀ e ∈ s.labels.entries, e.1 ≠ "__name__")
    (hs' : ∀ e ∈ s'.labels.entries, e.1 ≠ "__name__") (h : seriesObj s = seriesObj s') :
    s.metricName = s'.metricName ∧ s.labels = s'.labels := by
  have hname : ∀ s : Skaldberg.SeriesRow, (∀ e ∈ s.labels.entries, e.1 ≠ "__name__") →
      (seriesObj s).get? "__name__" = some s.metricName := by
    intro s hs
    refine SortedMap.get?_ofList_of_unique (List.mem_cons_self ..) fun v' hv' => ?_
    rcases List.mem_cons.mp hv' with heq | hmem
    · exact congrArg Prod.snd heq
    · exact absurd rfl (hs _ hmem)
  have hlabels : ∀ s : Skaldberg.SeriesRow, (∀ e ∈ s.labels.entries, e.1 ≠ "__name__") →
      ∀ e, e ∈ s.labels.entries ↔ e.1 ≠ "__name__" ∧ (seriesObj s).get? e.1 = some e.2 := by
    rintro s hs ⟨k, v⟩
    constructor
    · intro he
      refine ⟨hs _ he, SortedMap.get?_ofList_of_unique (List.mem_cons_of_mem _ he) fun v' hv' => ?_⟩
      rcases List.mem_cons.mp hv' with heq | hmem
      · exact absurd (congrArg Prod.fst heq) (hs (k, v) he)
      · have hv := SortedMap.get?_eq_some_iff.mpr he
        rw [SortedMap.get?_eq_some_iff.mpr hmem] at hv
        exact Option.some.inj hv
    · rintro ⟨hk, hget⟩
      rcases List.mem_cons.mp (SortedMap.mem_of_get?_ofList hget) with heq | hmem
      · exact absurd (congrArg Prod.fst heq) hk
      · exact hmem
  constructor
  · have hboth := hname s hs
    rw [h, hname s' hs'] at hboth
    exact (Option.some.inj hboth).symm
  · refine SortedMap.ext_get? fun k => Option.ext fun v => ?_
    rw [SortedMap.get?_eq_some_iff, SortedMap.get?_eq_some_iff, hlabels s hs, hlabels s' hs', h]

/-- **Validated series have objects of their own.** -/
theorem ValidatedTables.nodup_seriesObj {xxh3 : List UInt8 → UInt64}
    (h : ValidatedTables xxh3 t) : (t.series.map seriesObj).Nodup := by
  have hname : ∀ s ∈ t.series, ∀ e ∈ s.labels.entries, e.1 ≠ "__name__" := by
    intro s hs e he heq
    have hreserved := ((h.registered s hs).labelNames e he).1
    rw [heq] at hreserved
    revert hreserved
    decide
  refine (h.oneRow.of_map _).map_on fun s hs s' hs' hobj => ?_
  obtain ⟨hmetric, hlabels⟩ := seriesObj_injective (hname s hs) (hname s' hs') hobj
  exact h.series_eq hs hs' hmetric hlabels

theorem mem_scannedSeries {E : Sql.Engine} {sel : VectorSelector} {s : Skaldberg.SeriesRow} :
    s ∈ scannedSeries E t sel ↔ s ∈ t.series ∧ sel.letsThrough s = true := by
  rw [scannedSeries, List.mem_filter, E.mem_sort, Sql.mem_select, VectorSelector.letsThrough,
    Bool.and_eq_true, and_assoc]

theorem foldl_pushSeries (l : List Skaldberg.SeriesRow) (acc : List Labels × Finset String) :
    l.foldl pushSeries acc = (acc.1 ++ (FirstSeen.firsts keyOf acc.2 l).map seriesObj,
      FirstSeen.seenAfter keyOf acc.2 l) := by
  induction l generalizing acc with
  | nil => simp [FirstSeen.firsts, FirstSeen.seenAfter]
  | cons s l ih =>
    rw [List.foldl_cons, ih, pushSeries, FirstSeen.firsts, FirstSeen.seenAfter_cons]
    split_ifs with hs
    · rw [Finset.insert_eq_of_mem hs]
    · rw [List.map_cons, List.append_assoc, List.singleton_append]

/-- The series that are listed. -/
def listedSeries (E : Sql.Engine) (t : Tables F) (sels : List VectorSelector) :
    List Skaldberg.SeriesRow :=
  FirstSeen.firsts keyOf ∅ (sels.flatMap (scannedSeries E t))

/-- **What is listed**: the first series of each key. -/
theorem series_eq_ok {parse : String → Except String (Expr F)} {matches_ : List String}
    (hparse : ∀ q ∈ matches_, ∃ e, parse q = .ok e) (E : Sql.Engine) :
    series parse E t matches_ =
      .ok ((listedSeries E t (selectorsOf parse matches_)).map seriesObj) := by
  have hfrom : ∀ acc, seriesFrom parse E t matches_ acc = .ok (acc.1 ++ (FirstSeen.firsts keyOf
      acc.2 ((selectorsOf parse matches_).flatMap (scannedSeries E t))).map seriesObj) := by
    induction matches_ with
    | nil => simp [seriesFrom, selectorsOf, FirstSeen.firsts]
    | cons q qs ih =>
      intro acc
      obtain ⟨e, he⟩ := hparse q (List.mem_cons_self ..)
      have ih := ih fun q' hq' => hparse q' (List.mem_cons_of_mem _ hq')
      have hsels : selectorsOf parse (q :: qs) =
          (extractSelector e).toList ++ selectorsOf parse qs := by
        have hbind : (parse q).toOption.bind extractSelector = extractSelector e := by rw [he]; rfl
        rw [selectorsOf, List.filterMap_cons, hbind]
        cases extractSelector e <;> rfl
      rw [seriesFrom, he, hsels]
      rcases hsel : extractSelector e with _ | sel
      · simp only [hsel]
        exact ih acc
      · simp only [hsel]
        rw [ih, foldl_pushSeries, Option.toList_some, List.flatMap_append, List.flatMap_singleton,
          FirstSeen.firsts_append, List.map_append, List.append_assoc]
  rw [series]
  split_ifs with hempty
  · rw [List.isEmpty_iff.mp hempty]
    rfl
  · rw [hfrom, List.nil_append, listedSeries]

/-- **An expression that cannot be parsed** refuses the request. -/
theorem series_eq_error {parse : String → Except String (Expr F)} {matches_ : List String}
    {q e : String} (hq : q ∈ matches_) (hparse : parse q = .error e) (E : Sql.Engine) :
    ∃ e', series parse E t matches_ = .error (.badData ("PromQL parse: " ++ e')) := by
  have hfrom : ∀ acc, ∃ e', seriesFrom parse E t matches_ acc =
      .error (.badData ("PromQL parse: " ++ e')) := by
    induction matches_ with
    | nil => cases hq
    | cons q' qs ih =>
      intro acc
      rw [seriesFrom]
      rcases hq' : parse q' with e' | expr
      · exact ⟨e', rfl⟩
      · rcases List.mem_cons.mp hq with rfl | hq
        · rw [hparse] at hq'
          cases hq'
        · rcases hsel : extractSelector expr with _ | sel
          · simp only [hsel]
            exact ih hq acc
          · simp only [hsel]
            exact ih hq _
  have hne : matches_.isEmpty = false := by
    cases matches_ with
    | nil => cases hq
    | cons => rfl
  rw [series, hne]
  exact hfrom _

/-! ### Which series of a key is listed -/

/-- The first selector to let a series under a key through. -/
def firstSelector (t : Tables F) (sels : List VectorSelector) (k : String) :
    Option VectorSelector :=
  sels.find? fun sel => t.series.any fun s => decide (keyOf s = k) && sel.letsThrough s

/-- The series under a key that this selector lets through. -/
def firstThrough (t : Tables F) (sels : List VectorSelector) (k : String) :
    List Skaldberg.SeriesRow :=
  (firstSelector t sels k).elim [] fun sel =>
    t.series.filter fun s => decide (keyOf s = k) && sel.letsThrough s

/-- Of the series under a key, those that satisfy one of the selectors are those that the first
selector to let one through lets through, and there is at most one. -/
def ExactAt (t : Tables F) (sels : List VectorSelector) (k : String) : Prop :=
  (∀ s ∈ t.series, keyOf s = k →
    ((∃ sel ∈ sels, sel.matches s = true) ↔ s ∈ firstThrough t sels k)) ∧
    ∀ s ∈ firstThrough t sels k, ∀ s' ∈ firstThrough t sels k, s = s'

/-- The series that satisfy one of the selectors. -/
def askedSeries (t : Tables F) (sels : List VectorSelector) : List Skaldberg.SeriesRow :=
  t.series.filter fun s => sels.any fun sel => sel.matches s

variable {sels : List VectorSelector} {E : Sql.Engine} {k : String} {s : Skaldberg.SeriesRow}

theorem mem_firstThrough :
    s ∈ firstThrough t sels k ↔ ∃ sel, firstSelector t sels k = some sel ∧
      s ∈ t.series ∧ keyOf s = k ∧ sel.letsThrough s = true := by
  rw [firstThrough]
  cases firstSelector t sels k <;> simp

/-- **The series under a key that is listed** is one that the first selector to let one through
lets through. -/
theorem find?_flatMap_scannedSeries :
    (sels.flatMap (scannedSeries E t)).find? (fun s => decide (keyOf s = k)) =
      (firstSelector t sels k).bind fun sel =>
        (scannedSeries E t sel).find? fun s => decide (keyOf s = k) := by
  have hsome : ∀ sel : VectorSelector, (t.series.any fun s => decide (keyOf s = k) &&
      sel.letsThrough s) =
        ((scannedSeries E t sel).find? fun s => decide (keyOf s = k)).isSome := by
    intro sel
    rw [Bool.eq_iff_iff, List.find?_isSome, List.any_eq_true]
    constructor
    · rintro ⟨s, hs, h⟩
      rw [Bool.and_eq_true] at h
      exact ⟨s, mem_scannedSeries.mpr ⟨hs, h.2⟩, h.1⟩
    · rintro ⟨s, hs, h⟩
      obtain ⟨hs, hthrough⟩ := mem_scannedSeries.mp hs
      exact ⟨s, hs, by rw [h, hthrough, Bool.and_self]⟩
  induction sels with
  | nil => rfl
  | cons sel sels ih =>
    rw [List.flatMap_cons, List.find?_append, ih, firstSelector, firstSelector, List.find?_cons,
      hsome sel]
    cases hfind : (scannedSeries E t sel).find? fun s => decide (keyOf s = k) with
    | none => rfl
    | some s => exact hfind.symm

theorem mem_listedSeries :
    s ∈ listedSeries E t sels ↔
      (sels.flatMap (scannedSeries E t)).find? (fun s' => decide (keyOf s' = keyOf s)) =
        some s := by
  rw [listedSeries, FirstSeen.mem_firsts]
  simp

theorem mem_firstThrough_of_mem_listedSeries (h : s ∈ listedSeries E t sels) :
    s ∈ firstThrough t sels (keyOf s) := by
  rw [mem_listedSeries, find?_flatMap_scannedSeries] at h
  obtain ⟨sel, hsel, hs⟩ := Option.bind_eq_some_iff.mp h
  obtain ⟨hmem, hthrough⟩ := mem_scannedSeries.mp (List.mem_of_find?_eq_some hs)
  exact mem_firstThrough.mpr ⟨sel, hsel, hmem, rfl, hthrough⟩

theorem mem_series_of_mem_listedSeries (h : s ∈ listedSeries E t sels) : s ∈ t.series := by
  obtain ⟨sel, -, hs⟩ := List.mem_flatMap.mp (FirstSeen.firsts_subset h)
  exact (mem_scannedSeries.mp hs).1

/-- Of the series of a key that can be listed, one is. -/
theorem exists_mem_listedSeries (h : s ∈ firstThrough t sels k) :
    ∃ s' ∈ listedSeries E t sels, keyOf s' = k := by
  obtain ⟨sel, hsel, hmem, hkey, hthrough⟩ := mem_firstThrough.mp h
  have hfind : ((scannedSeries E t sel).find? fun s => decide (keyOf s = k)).isSome :=
    List.find?_isSome.mpr ⟨s, mem_scannedSeries.mpr ⟨hmem, hthrough⟩, decide_eq_true hkey⟩
  obtain ⟨s', hs'⟩ := Option.isSome_iff_exists.mp hfind
  have hkey' := List.find?_some hs'
  rw [decide_eq_true_eq] at hkey'
  refine ⟨s', mem_listedSeries.mpr ?_, hkey'⟩
  rw [hkey', find?_flatMap_scannedSeries, hsel]
  exact hs'

/-- **Any of the series of a key that can be listed is listed** in some order of the rows. -/
theorem exists_engine_mem_listedSeries (h : s ∈ firstThrough t sels k) :
    ∃ E, s ∈ listedSeries E t sels := by
  obtain ⟨sel, hsel, hmem, rfl, hthrough⟩ := mem_firstThrough.mp h
  rw [VectorSelector.letsThrough, Bool.and_eq_true] at hthrough
  obtain ⟨E, l₁, l₂, hsort, hfirst⟩ := Sql.Engine.exists_sort_eq
    (fun _ _ : Skaldberg.SeriesRow => true) (Sql.mem_select.mpr ⟨hmem, hthrough.1⟩)
  have hnil : l₁ = [] := List.eq_nil_iff_forall_not_mem.mpr fun b hb => hfirst b hb rfl
  refine ⟨E, mem_listedSeries.mpr ?_⟩
  have hrest : (s :: l₂).filter (fun s => sel.postFilter s.labels) =
      s :: l₂.filter fun s => sel.postFilter s.labels := List.filter_cons_of_pos hthrough.2
  rw [find?_flatMap_scannedSeries, hsel, Option.bind_some, scannedSeries, hsort, hnil,
    List.nil_append, hrest, List.find?_cons, decide_eq_true rfl]

theorem eq_of_mem_listedSeries {s' : Skaldberg.SeriesRow} (h : s ∈ listedSeries E t sels)
    (h' : s' ∈ listedSeries E t sels) (hkey : keyOf s = keyOf s') : s = s' :=
  List.inj_on_of_nodup_map FirstSeen.nodup_map_firsts h h' hkey

/-- **What is listed is what was asked for**, whatever order the rows come in, exactly when it is so
at each key. -/
theorem listedSeries_perm_iff (hnodup : t.series.Nodup) :
    (∀ E, (listedSeries E t sels).Perm (askedSeries t sels)) ↔ ∀ k, ExactAt t sels k := by
  have hlisted : ∀ E, (listedSeries E t sels).Nodup :=
    fun E => FirstSeen.nodup_map_firsts.of_map _
  have hasked : ∀ s, s ∈ askedSeries t sels ↔
      s ∈ t.series ∧ ∃ sel ∈ sels, sel.matches s = true := by
    intro s
    rw [askedSeries, List.mem_filter, List.any_eq_true]
  constructor
  · intro h k
    have hiff : ∀ E s, s ∈ listedSeries E t sels ↔ s ∈ askedSeries t sels :=
      fun E s => (h E).mem_iff
    -- what can be listed was asked for, so that it is always listed, and alone under its key
    have hsub : ∀ s ∈ firstThrough t sels k, s ∈ askedSeries t sels := by
      intro s hs
      obtain ⟨E, hE⟩ := exists_engine_mem_listedSeries hs
      exact (hiff E s).mp hE
    refine ⟨fun s hs hk => ⟨fun hmatch => ?_, fun hs => ((hasked s).mp (hsub s hs)).2⟩, ?_⟩
    · rw [← hk]
      exact mem_firstThrough_of_mem_listedSeries
        ((hiff Sql.Engine.stable s).mpr ((hasked s).mpr ⟨hs, hmatch⟩))
    · intro s hs s' hs'
      have hkey : keyOf s = keyOf s' := by
        obtain ⟨-, -, -, hs, -⟩ := mem_firstThrough.mp hs
        obtain ⟨-, -, -, hs', -⟩ := mem_firstThrough.mp hs'
        rw [hs, hs']
      exact eq_of_mem_listedSeries ((hiff Sql.Engine.stable s).mpr (hsub s hs))
        ((hiff Sql.Engine.stable s').mpr (hsub s' hs')) hkey
  · intro h E
    refine (List.perm_ext_iff_of_nodup (hlisted E) (hnodup.filter _)).mpr fun s => ?_
    rw [← askedSeries, hasked]
    obtain ⟨hmatch, hone⟩ := h (keyOf s)
    constructor
    · intro hs
      have hseries := mem_series_of_mem_listedSeries hs
      exact ⟨hseries, (hmatch s hseries rfl).mpr (mem_firstThrough_of_mem_listedSeries hs)⟩
    · rintro ⟨hs, hsel⟩
      have hmem := (hmatch s hs rfl).mp hsel
      obtain ⟨s', hs', hkey⟩ := exists_mem_listedSeries (E := E) hmem
      have hmem' := mem_firstThrough_of_mem_listedSeries hs'
      rw [hkey] at hmem'
      rw [hone s hmem s' hmem']
      exact hs'

/-- **Where no two series have one key**, what is asked at each key is that what is let through
satisfies a selector. -/
theorem forall_exactAt_iff (hkeys : (t.series.map keyOf).Nodup) :
    (∀ k, ExactAt t sels k) ↔ ∀ s ∈ t.series,
      (∃ sel ∈ sels, sel.letsThrough s = true) → ∃ sel ∈ sels, sel.matches s = true := by
  have hthrough : ∀ s ∈ t.series,
      (s ∈ firstThrough t sels (keyOf s) ↔ ∃ sel ∈ sels, sel.letsThrough s = true) := by
    intro s hs
    rw [mem_firstThrough]
    constructor
    · rintro ⟨sel, hsel, -, -, hthrough⟩
      exact ⟨sel, List.mem_of_find?_eq_some hsel, hthrough⟩
    · rintro ⟨sel, hsel, hthrough⟩
      have hsome : (firstSelector t sels (keyOf s)).isSome := List.find?_isSome.mpr
        ⟨sel, hsel, List.any_eq_true.mpr ⟨s, hs, by simp [hthrough]⟩⟩
      obtain ⟨first, hfirst⟩ := Option.isSome_iff_exists.mp hsome
      -- the series it lets through under the key is this one
      have hany := List.find?_some hfirst
      obtain ⟨s', hs', hthrough'⟩ := List.any_eq_true.mp hany
      rw [Bool.and_eq_true, decide_eq_true_eq] at hthrough'
      have hss' : s' = s := List.inj_on_of_nodup_map hkeys hs' hs hthrough'.1
      exact ⟨first, hfirst, hs, rfl, hss' ▸ hthrough'.2⟩
  constructor
  · intro h s hs
    rw [← hthrough s hs]
    exact ((h (keyOf s)).1 s hs rfl).mpr
  · intro h k
    refine ⟨?_, fun s hs s' hs' => ?_⟩
    · rintro s hs rfl
      rw [hthrough s hs]
      refine ⟨?_, h s hs⟩
      rintro ⟨sel, hsel, hmatch⟩
      exact ⟨sel, hsel, VectorSelector.letsThrough_of_matches hmatch⟩
    · obtain ⟨-, -, hmem, hkey, -⟩ := mem_firstThrough.mp hs
      obtain ⟨-, -, hmem', hkey', -⟩ := mem_firstThrough.mp hs'
      exact List.inj_on_of_nodup_map hkeys hmem hmem' (hkey.trans hkey'.symm)

/-! ### The answer -/

/-- **When the endpoint lists what was asked for**: whatever order the rows of its queries come in,
its answer is the objects of the series that satisfy one of the selectors, each once, exactly when
at each key one series at most is let through by the first selector that lets one through, and that
series, if there is one, is the only one under the key to satisfy a selector. -/
theorem series_perm_iff (hone : (t.series.map seriesObj).Nodup)
    {parse : String → Except String (Expr F)} {matches_ : List String}
    (hparse : ∀ q ∈ matches_, ∃ e, parse q = .ok e) :
    (∀ E, ∃ data, series parse E t matches_ = .ok data ∧
      data.Perm ((askedSeries t (selectorsOf parse matches_)).map seriesObj)) ↔
      ∀ k, ExactAt t (selectorsOf parse matches_) k := by
  rw [← listedSeries_perm_iff (hone.of_map _)]
  refine forall_congr' fun E => ?_
  rw [series_eq_ok hparse E]
  constructor
  · rintro ⟨data, hdata, hperm⟩
    rw [← Except.ok.inj hdata] at hperm
    have hlisted : (listedSeries E t (selectorsOf parse matches_)).Nodup :=
      FirstSeen.nodup_map_firsts.of_map _
    -- an object tells its series
    refine (List.perm_ext_iff_of_nodup hlisted ((hone.of_map _).filter _)).mpr fun s => ⟨?_, ?_⟩
    · intro hs
      obtain ⟨s', hs', hobj⟩ := List.mem_map.mp (hperm.mem_iff.mp (List.mem_map_of_mem hs))
      have heq : s' = s := List.inj_on_of_nodup_map hone (List.mem_of_mem_filter hs')
        (mem_series_of_mem_listedSeries hs) hobj
      exact heq ▸ hs'
    · intro hs
      obtain ⟨s', hs', hobj⟩ := List.mem_map.mp (hperm.mem_iff.mpr (List.mem_map_of_mem hs))
      have heq : s' = s := List.inj_on_of_nodup_map hone (mem_series_of_mem_listedSeries hs')
        (List.mem_of_mem_filter hs) hobj
      exact heq ▸ hs'
  · exact fun h => ⟨_, rfl, h.map _⟩

section Instances

/-- A series table with two jobs. -/
def jobsTable : Tables Whole :=
  ⟨[], [⟨1, "up", .ofList [("job", "api")]⟩, ⟨2, "up", .ofList [("job", "db")]⟩]⟩

/-- A parser that knows `up` and two selectors of its jobs. -/
def parseUp (q : String) : Except String (Expr Whole) :=
  if q = "up" then .ok (.vectorSelector ⟨some "up", []⟩)
  else if q = "up\x7bjob=~'api|web'\x7d" then
    .ok (.vectorSelector ⟨some "up", [⟨.re fun v => v == "api" || v == "web", "job", "api|web"⟩]⟩)
  else if q = "up\x7bjob='api'\x7d" then
    .ok (.vectorSelector ⟨some "up", [⟨.equal, "job", "api"⟩]⟩)
  else .error "unexpected character"

/-- Of two selectors one covers the other, and each job is listed once. -/
theorem series_perm_iff_two_jobs :
    ∃ data,
      series parseUp Sql.Engine.stable jobsTable ["up\x7bjob=~'api|web'\x7d", "up"] = .ok data ∧
      data.Perm (jobsTable.series.map seriesObj) := by
  have hasked : askedSeries jobsTable (selectorsOf parseUp ["up\x7bjob=~'api|web'\x7d", "up"]) =
      jobsTable.series := by decide +kernel
  rw [← hasked]
  exact (series_perm_iff (by decide +kernel) (by
    simp only [List.forall_mem_cons]
    exact ⟨⟨_, rfl⟩, ⟨_, rfl⟩, by simp⟩)).mpr
      ((forall_exactAt_iff (by decide +kernel)).mpr (by decide +kernel)) Sql.Engine.stable

/-- **`=` is not looked at**: `up{job="api"}` lists the other job as well. -/
theorem equality_matcher_ignored :
    ¬∃ data, series parseUp Sql.Engine.stable jobsTable ["up\x7bjob='api'\x7d"] = .ok data ∧
      data.Perm ((askedSeries jobsTable (selectorsOf parseUp ["up\x7bjob='api'\x7d"])).map
        seriesObj) := by
  rintro ⟨data, hdata, hperm⟩
  have hparse : ∀ q ∈ ["up\x7bjob='api'\x7d"], ∃ e, parseUp q = .ok e := by
    simp only [List.forall_mem_cons]
    exact ⟨⟨_, rfl⟩, by simp⟩
  have hlisted : (listedSeries Sql.Engine.stable jobsTable
      (selectorsOf parseUp ["up\x7bjob='api'\x7d"])).length = 2 ∧
        (askedSeries jobsTable (selectorsOf parseUp ["up\x7bjob='api'\x7d"])).length = 1 := by
    decide +kernel
  rw [series_eq_ok hparse] at hdata
  have hlen := hperm.length_eq
  rw [← Except.ok.inj hdata, List.length_map, List.length_map, hlisted.1, hlisted.2] at hlen
  cases hlen

end Instances

end Skaldberg.Prometheus
