import Skaldberg.Ingest.Validate
import Skaldberg.Prometheus.GroupKey

/-!
# The key of a series

The program tells series apart by a text, `metric{k=v,…}` (`Skaldberg.Prometheus.seriesKey`), in
which nothing is escaped. The names of a registered series have none of its delimiters
(`Registered`), so that its key tells the metric (`seriesKey_eq_iff_spelling`); but a label value
may have a comma in it, and `{a="1,b=2"}` and `{a="1", b="2"}` have one key. Series without a comma
in a label value never share theirs (`seriesKey_injective`).
-/

namespace Skaldberg.Prometheus

variable {F : Type} {xxh3 : List UInt8 → UInt64}

/-! ### Registered series -/

/-- A series as it is registered for a validated sample. -/
structure Registered (xxh3 : List UInt8 → UInt64) (s : Skaldberg.SeriesRow) : Prop where
  /-- The metric is a name. -/
  metricName : isValidName s.metricName = true
  /-- The labels have the names of labels. -/
  labelNames : ∀ e ∈ s.labels.entries, AcceptedName e.1
  /-- The identity is derived from both. -/
  seriesId : s.seriesId = deriveSeriesId xxh3 s.metricName s.labels

/-- **What is registered for a validated sample** is registered. -/
theorem registered_of_validate {V : Type} [F64 V] {raw : RawSample V} {nowMs : ℤ}
    {s : ValidatedSample V} (h : validate xxh3 raw nowMs = .ok s) :
    Registered xxh3 ⟨s.seriesId, s.metric, s.labels⟩ := by
  obtain ⟨hmetric, hlabels⟩ := SeriesIdentity.accepted_names h
  refine ⟨hmetric, hlabels, ?_⟩
  obtain ⟨-, -, -, rfl⟩ := validate_ok_iff.mp h
  rfl

/-- Tables of registered series, each with one row. -/
structure ValidatedTables (xxh3 : List UInt8 → UInt64) (t : Tables F) : Prop where
  /-- A series has one row. -/
  oneRow : OneRowPerSeries t
  /-- Every series is registered for a validated sample. -/
  registered : ∀ s ∈ t.series, Registered xxh3 s

/-- **A series is told by its metric and its labels.** -/
theorem ValidatedTables.series_eq {t : Tables F} (h : ValidatedTables xxh3 t)
    {s s' : Skaldberg.SeriesRow} (hs : s ∈ t.series) (hs' : s' ∈ t.series)
    (hname : s.metricName = s'.metricName) (hlabels : s.labels = s'.labels) : s = s' := by
  refine Prometheus.series_eq h.oneRow hs hs' ?_
  rw [(h.registered s hs).seriesId, (h.registered s' hs').seriesId, hname, hlabels]

/-! ### What a key tells -/

theorem seriesKey_eq_spelling (name : String) (labels : Labels) :
    seriesKey name labels = name ++ "\x7b" ++ spelling labels ++ "\x7d" := rfl

/-- A name has no brace. -/
theorem brace_not_mem_of_isValidName {name : String} (h : isValidName name = true) :
    '\x7b' ∉ name.toList := by
  rw [isValidName] at h
  rcases hl : name.toList with _ | ⟨c, cs⟩
  · simp
  · rw [hl] at h
    simp only [Bool.and_eq_true, Bool.or_eq_true, beq_iff_eq, List.all_eq_true] at h
    rw [List.mem_cons]
    rintro (rfl | hmem)
    · rcases h.1 with h | h <;> revert h <;> decide
    · rcases h.2 _ hmem with h | h <;> revert h <;> decide

/-- **A key tells a name without a brace**, and what the labels spell. -/
theorem seriesKey_eq_iff_of_brace {name name' : String} {labels labels' : Labels}
    (h : '\x7b' ∉ name.toList) (h' : '\x7b' ∉ name'.toList) :
    seriesKey name labels = seriesKey name' labels' ↔
      name = name' ∧ spelling labels = spelling labels' := by
  rw [seriesKey_eq_spelling, seriesKey_eq_spelling]
  constructor
  · intro heq
    have hlist : name.toList ++ '\x7b' :: ((spelling labels).toList ++ ['\x7d']) =
        name'.toList ++ '\x7b' :: ((spelling labels').toList ++ ['\x7d']) := by
      have htoList := congrArg String.toList heq
      simpa [String.toList_append] using htoList
    obtain ⟨hname, htail⟩ := Delimited.append_cons_inj h h' hlist
    exact ⟨String.toList_inj.mp hname, String.toList_inj.mp (List.append_cancel_right htail)⟩
  · rintro ⟨rfl, hspell⟩
    rw [hspell]

/-- **A key tells the metric**, and what the labels spell. -/
theorem seriesKey_eq_iff_spelling {name name' : String} {labels labels' : Labels}
    (h : isValidName name = true) (h' : isValidName name' = true) :
    seriesKey name labels = seriesKey name' labels' ↔
      name = name' ∧ spelling labels = spelling labels' :=
  seriesKey_eq_iff_of_brace (brace_not_mem_of_isValidName h) (brace_not_mem_of_isValidName h')

/-- No label value has a comma. -/
def CommaFree (labels : Labels) : Prop := ∀ e ∈ labels.entries, ',' ∉ e.2.toList

instance (labels : Labels) : Decidable (CommaFree labels) :=
  inferInstanceAs (Decidable (∀ e ∈ labels.entries, ',' ∉ e.2.toList))

/-- **What labels spell is a delimited text**, less the last comma. -/
theorem toList_spelling {labels : Labels} (h : labels.entries ≠ []) :
    (spelling labels).toList ++ [','] =
      Delimited.text '=' ',' (SeriesIdentity.fields labels) := by
  have hne : SeriesIdentity.fields labels ≠ [] := by simpa [SeriesIdentity.fields] using h
  rw [Delimited.text_eq_intercalate hne, spelling, String.toList_intercalate, SeriesIdentity.fields,
    List.map_map, List.map_map]
  refine congrArg (· ++ [',']) (congrArg _ (List.map_congr_left fun e _ => ?_))
  simp [String.toList_append]

/-- **Labels without a comma in a value are told by what they spell.** -/
theorem spelling_injective {labels labels' : Labels}
    (hnames : ∀ e ∈ labels.entries, AcceptedName e.1)
    (hnames' : ∀ e ∈ labels'.entries, AcceptedName e.1) (hfree : CommaFree labels)
    (hfree' : CommaFree labels') (h : spelling labels = spelling labels') : labels = labels' := by
  have hfields : ∀ labels : Labels, (∀ e ∈ labels.entries, AcceptedName e.1) → CommaFree labels →
      ∀ f ∈ SeriesIdentity.fields labels, '=' ∉ f.1 ∧ ',' ∉ f.2 := by
    intro labels hnames hfree f hf
    obtain ⟨e, he, rfl⟩ := List.mem_map.mp hf
    exact ⟨(SeriesIdentity.not_mem_of_isValidName (hnames e he).2).1, hfree e he⟩
  -- only no labels spell nothing
  have hempty : ∀ labels : Labels, labels.entries ≠ [] → spelling labels ≠ "" := by
    intro labels hne hspell
    obtain ⟨e, es, he⟩ := List.exists_cons_of_ne_nil hne
    have htext := toList_spelling hne
    rw [hspell, SeriesIdentity.fields, he, List.map_cons, Delimited.text_cons] at htext
    have hlen := congrArg List.length htext
    simp only [List.length_append, List.length_cons, List.length_nil, String.toList_empty] at hlen
    omega
  by_cases hne : labels.entries = []
  · by_cases hne' : labels'.entries = []
    · exact SortedMap.ext_entries (hne.trans hne'.symm)
    · refine absurd (h.symm.trans ?_) (hempty labels' hne')
      rw [spelling, hne]
      rfl
  · by_cases hne' : labels'.entries = []
    · refine absurd (h.trans ?_) (hempty labels hne)
      rw [spelling, hne']
      rfl
    · refine SeriesIdentity.fields_injective (Delimited.text_injective (hfields _ hnames hfree)
        (hfields _ hnames' hfree') ?_)
      rw [← toList_spelling hne, ← toList_spelling hne', h]

/-- **Registered series without a comma in a label value never share a key.** -/
theorem seriesKey_injective {t : Tables F} (h : ValidatedTables xxh3 t)
    {s s' : Skaldberg.SeriesRow} (hs : s ∈ t.series) (hs' : s' ∈ t.series)
    (hfree : CommaFree s.labels) (hfree' : CommaFree s'.labels)
    (hkey : seriesKey s.metricName s.labels = seriesKey s'.metricName s'.labels) : s = s' := by
  obtain ⟨hname, hspell⟩ := (seriesKey_eq_iff_spelling (h.registered s hs).metricName
    (h.registered s' hs').metricName).mp hkey
  exact h.series_eq hs hs' hname (spelling_injective (h.registered s hs).labelNames
    (h.registered s' hs').labelNames hfree hfree' hspell)

end Skaldberg.Prometheus
