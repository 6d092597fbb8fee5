import Mathlib.Tactic.Ring
import Skaldberg.Convert
import Skaldberg.Ingest.DayBatches

/-!
# Timestamps as they are printed

A timestamp is printed with its date and its time of day, to the microsecond. The text tells both
(`Stamp.text_injective`), and later instants have later dates or later times of day
(`DateTime.stamp_lt`), so that texts sort as instants do in the years of four digits
(`Stamp.text_lt`).

What is printed is the instant of the pair that a timestamp is split into. The quotient of the
pair rounds towards zero and its remainder rounds down, so the pair is the timestamp exactly if the
timestamp is not negative or whole in seconds (`TimeUnit.pair_exact_iff`); every other one is
printed a second late. Where it is exact, a text shows the timestamp, in its order and on the day
under which it is stored (`faithful_iff`).
-/

namespace Skaldberg

/-! ### Texts of dates and times -/

namespace Stamp

/-- A date of the calendar with a time of day. -/
structure Valid (s : Stamp) : Prop where
  /-- The date is one of the calendar. -/
  date : s.date.Valid
  /-- The hour is one of the day. -/
  hour : s.hour < 24
  /-- The minute is one of the hour. -/
  minute : s.minute < 60
  /-- The second is one of the minute. -/
  second : s.second < 60
  /-- The microseconds are less than a second. -/
  micros : s.micros < 1000000

/-- A date and a time of day in the order of time. -/
def key (s : Stamp) : (ℤ ×ₗ ℤ ×ₗ ℤ) ×ₗ ℕ ×ₗ ℕ ×ₗ ℕ ×ₗ ℕ :=
  toLex (s.date.key, toLex (s.hour, toLex (s.minute, toLex (s.second, s.micros))))

/-- The text after the year. -/
def tail (s : Stamp) : List Char :=
  '-' :: (Decimal.field 2 s.date.month.toNat ++ '-' :: (Decimal.field 2 s.date.day.toNat ++
    'T' :: (Decimal.field 2 s.hour ++ ':' :: (Decimal.field 2 s.minute ++
      ':' :: (Decimal.field 2 s.second ++ '.' :: (Decimal.field 6 s.micros ++ ['Z']))))))

theorem toList_text (s : Stamp) : s.text.toList = yearText s.date.year ++ s.tail := by
  simp [text, dateText, clockText, tail]

/-- The month and the day of a date fit their fields. -/
theorem Valid.fits {s : Stamp} (h : s.Valid) :
    s.date.month.toNat < 10 ^ 2 ∧ s.date.day.toNat < 10 ^ 2 := by
  have hday : s.date.day ≤ 31 := by
    refine le_trans h.date.day.2 ?_
    rw [Gregorian.daysInMonth]
    split_ifs <;> omega
  have hmonth := h.date.month.2
  omega

theorem Valid.length_tail {s : Stamp} (h : s.Valid) : s.tail.length = 23 := by
  obtain ⟨hmonth, hday⟩ := h.fits
  have hhour : s.hour < 10 ^ 2 := lt_trans h.hour (by decide)
  have hminute : s.minute < 10 ^ 2 := lt_trans h.minute (by decide)
  have hsecond : s.second < 10 ^ 2 := lt_trans h.second (by decide)
  have hmicros : s.micros < 10 ^ 6 := h.micros
  simp only [tail, List.length_cons, List.length_append, Decimal.length_field two_pos hmonth,
    Decimal.length_field two_pos hday, Decimal.length_field two_pos hhour,
    Decimal.length_field two_pos hminute, Decimal.length_field two_pos hsecond,
    Decimal.length_field (by decide : 0 < 6) hmicros, List.length_nil]
  rfl

end Stamp

theorem yearText_injective : Function.Injective yearText := by
  -- a year of four digits begins with a digit, and the others with a sign
  have hsign : ∀ (n : ℕ) (y : ℤ) (l : List Char),
      Decimal.field 4 n ≠ (if y < 0 then '-' else '+') :: l := by
    intro n y l h
    have hmem : (if y < 0 then '-' else '+') ∈ Decimal.field 4 n := h ▸ List.mem_cons_self ..
    have hdigit := Decimal.isDigit_of_mem_field hmem
    split_ifs at hdigit <;> exact absurd hdigit (by decide)
  intro y y' h
  by_cases hy : 0 ≤ y ∧ y ≤ 9999
  · by_cases hy' : 0 ≤ y' ∧ y' ≤ 9999
    · rw [yearText, if_pos hy, yearText, if_pos hy'] at h
      have := Decimal.field_injective 4 h
      omega
    · rw [yearText, if_pos hy, yearText, if_neg hy'] at h
      exact absurd h (hsign _ _ _)
  · by_cases hy' : 0 ≤ y' ∧ y' ≤ 9999
    · rw [yearText, if_neg hy, yearText, if_pos hy'] at h
      exact absurd h.symm (hsign _ _ _)
    · rw [yearText, if_neg hy, yearText, if_neg hy'] at h
      obtain ⟨hsame, habs⟩ := List.cons.inj h
      have := Decimal.field_injective 4 habs
      split_ifs at hsame with hneg hneg' hneg'
      · omega
      · exact absurd hsame (by decide)
      · exact absurd hsame (by decide)
      · omega

namespace Stamp

/-- **A text tells its date and its time of day.** -/
theorem text_injective {s s' : Stamp} (h : s.Valid) (h' : s'.Valid) (htext : s.text = s'.text) :
    s = s' := by
  have hlist : yearText s.date.year ++ s.tail = yearText s'.date.year ++ s'.tail := by
    rw [← toList_text, htext, toList_text]
  obtain ⟨hyear, htail⟩ := List.append_inj' hlist (h.length_tail.trans h'.length_tail.symm)
  have hmonth := h.date.month.1
  have hmonth' := h'.date.month.1
  have hday := h.date.day.1
  have hday' := h'.date.day.1
  obtain ⟨⟨year, month, day⟩, hour, minute, second, micros⟩ := s
  obtain ⟨⟨year', month', day'⟩, hour', minute', second', micros'⟩ := s'
  obtain rfl := yearText_injective hyear
  obtain ⟨h1, htail⟩ := Decimal.field_append_inj two_pos h.fits.1 h'.fits.1 (List.cons.inj htail).2
  obtain ⟨h2, htail⟩ := Decimal.field_append_inj two_pos h.fits.2 h'.fits.2 (List.cons.inj htail).2
  obtain ⟨rfl, htail⟩ := Decimal.field_append_inj two_pos (lt_trans h.hour (by decide))
    (lt_trans h'.hour (by decide)) (List.cons.inj htail).2
  obtain ⟨rfl, htail⟩ := Decimal.field_append_inj two_pos (lt_trans h.minute (by decide))
    (lt_trans h'.minute (by decide)) (List.cons.inj htail).2
  obtain ⟨rfl, htail⟩ := Decimal.field_append_inj two_pos (lt_trans h.second (by decide))
    (lt_trans h'.second (by decide)) (List.cons.inj htail).2
  obtain ⟨rfl, -⟩ := Decimal.field_append_inj (by decide) h.micros h'.micros (List.cons.inj htail).2
  obtain rfl : month = month' := by
    simp only at h1 hmonth hmonth'
    omega
  obtain rfl : day = day' := by
    simp only at h2 hday hday'
    omega
  rfl

/-- **Texts sort as times do**, in the years of four digits. -/
theorem text_lt {s s' : Stamp} (h : s.Valid) (h' : s'.Valid) (hkey : s.key < s'.key)
    (hyear : 0 ≤ s.date.year ∧ s.date.year ≤ 9999)
    (hyear' : 0 ≤ s'.date.year ∧ s'.date.year ≤ 9999) : s.text < s'.text := by
  have hmonth := h.date.month.1
  have hmonth' := h'.date.month.1
  have hday := h.date.day.1
  have hday' := h'.date.day.1
  -- a separator and a field, and what comes after them
  have hfield : ∀ {width m n : ℕ} {c : Char} {l l' : List Char}, 0 < width → m < 10 ^ width →
      n < 10 ^ width → (m < n ∨ m = n ∧ l < l') →
        c :: (Decimal.field width m ++ l) < c :: (Decimal.field width n ++ l') :=
    fun hwidth hm hn hlt =>
      List.cons_lt_cons_iff.mpr (.inr ⟨rfl, Decimal.field_append_lt hwidth hm hn hlt⟩)
  rw [String.lt_iff_toList_lt, toList_text, toList_text, yearText, if_pos hyear, yearText,
    if_pos hyear']
  refine Decimal.field_append_lt (by decide) (by omega) (by omega) ?_
  rcases Prod.Lex.toLex_lt_toLex.mp hkey with hdate | ⟨hdate, hclock⟩
  · rcases Prod.Lex.toLex_lt_toLex.mp hdate with hlt | ⟨hyear, hdate⟩
    · exact .inl (by simp only at hlt; omega)
    · refine .inr ⟨congrArg Int.toNat hyear, hfield two_pos h.fits.1 h'.fits.1 ?_⟩
      rcases Prod.Lex.toLex_lt_toLex.mp hdate with hlt | ⟨hmonth, hlt⟩
      · exact .inl (by simp only at hlt; omega)
      · refine .inr ⟨congrArg Int.toNat hmonth, hfield two_pos h.fits.2 h'.fits.2 (.inl ?_)⟩
        simp only at hlt
        omega
  · have hdate := Gregorian.Date.key_injective hdate
    refine .inr ⟨congrArg (fun date => date.year.toNat) hdate, ?_⟩
    refine hfield two_pos h.fits.1 h'.fits.1
      (.inr ⟨congrArg (fun date => date.month.toNat) hdate, ?_⟩)
    refine hfield two_pos h.fits.2 h'.fits.2
      (.inr ⟨congrArg (fun date => date.day.toNat) hdate, ?_⟩)
    refine hfield two_pos (lt_trans h.hour (by decide)) (lt_trans h'.hour (by decide)) ?_
    refine (Prod.Lex.toLex_lt_toLex.mp hclock).imp_right (And.imp_right fun hclock => ?_)
    refine hfield two_pos (lt_trans h.minute (by decide)) (lt_trans h'.minute (by decide)) ?_
    refine (Prod.Lex.toLex_lt_toLex.mp hclock).imp_right (And.imp_right fun hclock => ?_)
    refine hfield two_pos (lt_trans h.second (by decide)) (lt_trans h'.second (by decide)) ?_
    refine (Prod.Lex.toLex_lt_toLex.mp hclock).imp_right (And.imp_right fun hclock => ?_)
    exact hfield (by decide) h.micros h'.micros (.inl hclock)

end Stamp

/-! ### Instants as they are shown -/

namespace DateTime

theorem valid_stamp {dt : DateTime} (h : dt.nanos < 1000000000) : dt.stamp.Valid := by
  refine ⟨Gregorian.valid_ofDayNumber _, ?_, ?_, ?_, ?_⟩ <;> simp only [stamp] <;> omega

/-- **Later instants are shown later**, if a microsecond lies between them. -/
theorem stamp_lt {dt dt' : DateTime} (h : dt.nanos < 1000000000) (h' : dt'.nanos < 1000000000)
    (hlt : dt.micros < dt'.micros) : dt.stamp.key < dt'.stamp.key := by
  simp only [micros] at hlt
  have hday : dt.secs / 86400 < dt'.secs / 86400 ∨ dt.secs / 86400 = dt'.secs / 86400 ∧
      (dt.stamp.hour < dt'.stamp.hour ∨ dt.stamp.hour = dt'.stamp.hour ∧
        (dt.stamp.minute < dt'.stamp.minute ∨ dt.stamp.minute = dt'.stamp.minute ∧
          (dt.stamp.second < dt'.stamp.second ∨ dt.stamp.second = dt'.stamp.second ∧
            dt.stamp.micros < dt'.stamp.micros))) := by
    simp only [stamp]
    omega
  refine Prod.Lex.toLex_lt_toLex.mpr (hday.imp (fun hlt => Gregorian.strictMono_key hlt) ?_)
  rintro ⟨hsame, hclock⟩
  refine ⟨congrArg (fun n => (Gregorian.ofDayNumber n).key) hsame, ?_⟩
  refine Prod.Lex.toLex_lt_toLex.mpr (hclock.imp_right (And.imp_right fun hclock => ?_))
  refine Prod.Lex.toLex_lt_toLex.mpr (hclock.imp_right (And.imp_right fun hclock => ?_))
  exact Prod.Lex.toLex_lt_toLex.mpr hclock

end DateTime

/-! ### The pair of a timestamp -/

namespace TimeUnit

/-- The timestamps of a second. -/
def perSecond : TimeUnit → ℤ
  | second => 1
  | millisecond => 1000
  | microsecond => 1000000
  | nanosecond => 1000000000

/-- The nanoseconds from one timestamp to the next. -/
def nanos : TimeUnit → ℤ
  | second => 1000000000
  | millisecond => 1000000
  | microsecond => 1000
  | nanosecond => 1

/-- The instant of a timestamp has a calendar date. -/
def InRange (unit : TimeUnit) (v : ℤ) : Prop :=
  minSecs ≤ v / unit.perSecond ∧ v / unit.perSecond ≤ maxSecs

/-- The pair of a timestamp is its instant, in nanoseconds since the epoch. -/
def PairExact (unit : TimeUnit) (v : ℤ) : Prop :=
  (unit.pair v).1 * 1000000000 + (unit.pair v).2 = v * unit.nanos

/-- **The pair, in every unit**: the quotient towards zero and the remainder of a second. -/
theorem pair_eq (unit : TimeUnit) (v : ℤ) :
    (unit.pair v).1 = v.tdiv unit.perSecond ∧
      ((unit.pair v).2 : ℤ) = v % unit.perSecond * unit.nanos := by
  cases unit with
  | second => simp [pair, perSecond]
  | millisecond =>
    refine ⟨rfl, ?_⟩
    simp only [pair, perSecond, nanos]
    omega
  | microsecond =>
    refine ⟨rfl, ?_⟩
    simp only [pair, perSecond, nanos]
    omega
  | nanosecond =>
    refine ⟨rfl, ?_⟩
    simp only [pair, perSecond, nanos]
    omega

theorem perSecond_mul_nanos (unit : TimeUnit) : unit.perSecond * unit.nanos = 1000000000 := by
  cases unit <;> rfl

theorem perSecond_pos (unit : TimeUnit) : 0 < unit.perSecond := by
  cases unit <;> decide

/-- The nanoseconds of a pair are less than a second. -/
theorem pair_lt (unit : TimeUnit) (v : ℤ) : (unit.pair v).2 < 1000000000 := by
  cases unit <;> simp only [pair] <;> omega

/-- **When the pair is the timestamp**: if the timestamp is not negative, or whole in seconds. -/
theorem pair_exact_iff (unit : TimeUnit) (v : ℤ) :
    unit.PairExact v ↔ 0 ≤ v ∨ unit.perSecond ∣ v := by
  obtain ⟨hsecs, hnanos⟩ := unit.pair_eq v
  have hsign : unit.perSecond.sign = 1 := Int.sign_eq_one_of_pos unit.perSecond_pos
  have hsplit : v * unit.nanos =
      v / unit.perSecond * (unit.perSecond * unit.nanos) + v % unit.perSecond * unit.nanos := by
    calc
      v * unit.nanos =
          (unit.perSecond * (v / unit.perSecond) + v % unit.perSecond) * unit.nanos := by
        rw [Int.mul_ediv_add_emod]
      _ = _ := by ring
  rw [PairExact, hsecs, hnanos, hsplit, Int.tdiv_eq_ediv, hsign, unit.perSecond_mul_nanos]
  split_ifs with h
  · rw [Int.add_zero]
    exact iff_of_true rfl h
  · refine iff_of_false (fun hlate => ?_) h
    omega

/-- The instant of an exact pair. -/
theorem fromTimestamp_of_exact {unit : TimeUnit} {v : ℤ} (hrange : unit.InRange v)
    (h : unit.PairExact v) :
    ∃ dt, DateTime.fromTimestamp (unit.pair v).1 (unit.pair v).2 = some dt ∧
      dt.nanos < 1000000000 ∧ dt.secs = v / unit.perSecond ∧
        (dt.nanos : ℤ) = v % unit.perSecond * unit.nanos := by
  obtain ⟨hsecs, hnanos⟩ := unit.pair_eq v
  have hlt := unit.pair_lt v
  have hquot : (unit.pair v).1 = v / unit.perSecond := by
    rw [hsecs, Int.tdiv_eq_ediv, if_pos (unit.pair_exact_iff v |>.mp h), Int.add_zero]
  obtain ⟨hlo, hhi⟩ := hrange
  refine ⟨⟨(unit.pair v).1, (unit.pair v).2⟩, ?_, hlt, hquot, hnanos⟩
  rw [DateTime.fromTimestamp, if_pos ⟨hquot ▸ hlo, hquot ▸ hhi, .inl hlt⟩]

end TimeUnit

/-! ### Columns of timestamps -/

/-- A text shows a date and a time of day. -/
def Shows (text : String) (s : Stamp) : Prop := s.Valid ∧ text = s.text

/-- The timestamps of a column are shown as what they are. -/
structure TimeUnit.Faithful (unit : TimeUnit) (vs : List ℤ) : Prop where
  /-- The pairs are the timestamps. -/
  exact : ∀ v ∈ vs, unit.PairExact v
  /-- The texts are dates with times of day. -/
  shown : ∀ v ∈ vs, ∃ s, Shows (unit.text v) s
  /-- Distinct timestamps have distinct texts, in units of a microsecond or more. -/
  distinct : unit ≠ .nanosecond → ∀ v ∈ vs, ∀ w ∈ vs, v ≠ w → unit.text v ≠ unit.text w
  /-- Later timestamps are shown later. -/
  ordered : unit ≠ .nanosecond → ∀ v ∈ vs, ∀ w ∈ vs, v < w →
    ∀ s s', Shows (unit.text v) s → Shows (unit.text w) s' → s.key < s'.key
  /-- Their texts are in this order, in the years of four digits. -/
  sorted : unit ≠ .nanosecond → ∀ v ∈ vs, ∀ w ∈ vs, v < w →
    ∀ s s', Shows (unit.text v) s → Shows (unit.text w) s' →
      0 ≤ s.date.year ∧ s.date.year ≤ 9999 → 0 ≤ s'.date.year ∧ s'.date.year ≤ 9999 →
        unit.text v < unit.text w
  /-- The day is that of the samples under the timestamp. -/
  day : unit = .microsecond → ∀ v ∈ vs, ∀ s, Shows (unit.text v) s →
    s.date = Gregorian.ofDayNumber (dayOfUs v)

theorem Shows.unique {text : String} {s s' : Stamp} (h : Shows text s) (h' : Shows text s') :
    s = s' :=
  Stamp.text_injective h.1 h'.1 (h.2.symm.trans h'.2)

/-- An exact timestamp is shown as its instant. -/
theorem TimeUnit.shows_of_exact {unit : TimeUnit} {v : ℤ} (hrange : unit.InRange v)
    (h : unit.PairExact v) :
    ∃ dt : DateTime, Shows (unit.text v) dt.stamp ∧ dt.nanos < 1000000000 ∧
      dt.secs = v / unit.perSecond ∧ (dt.nanos : ℤ) = v % unit.perSecond * unit.nanos := by
  obtain ⟨dt, hdt, hlt, hsecs, hnanos⟩ := fromTimestamp_of_exact hrange h
  refine ⟨dt, ⟨dt.valid_stamp hlt, ?_⟩, hlt, hsecs, hnanos⟩
  rw [text, hdt]

/-- Later timestamps are shown later. -/
theorem TimeUnit.key_lt_of_exact {unit : TimeUnit} (hunit : unit ≠ .nanosecond) {v w : ℤ}
    (hv : unit.InRange v) (hw : unit.InRange w) (hexact : unit.PairExact v)
    (hexact' : unit.PairExact w) (hlt : v < w) {s s' : Stamp} (hs : Shows (unit.text v) s)
    (hs' : Shows (unit.text w) s') : s.key < s'.key := by
  obtain ⟨dt, hshows, hnanos, hsecs, hfrac⟩ := unit.shows_of_exact hv hexact
  obtain ⟨dt', hshows', hnanos', hsecs', hfrac'⟩ := unit.shows_of_exact hw hexact'
  rw [hs.unique hshows, hs'.unique hshows']
  refine DateTime.stamp_lt hnanos hnanos' ?_
  rw [DateTime.micros, DateTime.micros]
  cases unit with
  | nanosecond => exact absurd rfl hunit
  | second =>
    simp only [perSecond, nanos] at hsecs hsecs' hfrac hfrac'
    omega
  | millisecond =>
    simp only [perSecond, nanos] at hsecs hsecs' hfrac hfrac'
    omega
  | microsecond =>
    simp only [perSecond, nanos] at hsecs hsecs' hfrac hfrac'
    omega

/-- **Timestamps are shown as what they are** exactly if none of them is before the epoch with a
fraction of a second. -/
theorem faithful_iff (unit : TimeUnit) (vs : List ℤ) (hrange : ∀ v ∈ vs, unit.InRange v) :
    unit.Faithful vs ↔ ∀ v ∈ vs, 0 ≤ v ∨ unit.perSecond ∣ v := by
  refine ⟨fun h v hv => (unit.pair_exact_iff v).mp (h.exact v hv), fun h => ?_⟩
  have hexact : ∀ v ∈ vs, unit.PairExact v := fun v hv => (unit.pair_exact_iff v).mpr (h v hv)
  have hordered : unit ≠ .nanosecond → ∀ v ∈ vs, ∀ w ∈ vs, v < w →
      ∀ s s', Shows (unit.text v) s → Shows (unit.text w) s' → s.key < s'.key :=
    fun hunit v hv w hw hlt s s' => TimeUnit.key_lt_of_exact hunit (hrange v hv) (hrange w hw)
      (hexact v hv) (hexact w hw) hlt
  have hshown : ∀ v ∈ vs, ∃ s, Shows (unit.text v) s := by
    intro v hv
    obtain ⟨dt, hshows, -⟩ := unit.shows_of_exact (hrange v hv) (hexact v hv)
    exact ⟨_, hshows⟩
  refine ⟨hexact, hshown, ?_, hordered, ?_, ?_⟩
  · intro hunit v hv w hw hne htext
    obtain ⟨s, hs⟩ := hshown v hv
    have hs' : Shows (unit.text w) s := htext ▸ hs
    rcases lt_or_gt_of_ne hne with hlt | hlt
    · exact absurd (hordered hunit v hv w hw hlt s s hs hs') (lt_irrefl _)
    · exact absurd (hordered hunit w hw v hv hlt s s hs' hs) (lt_irrefl _)
  · intro hunit v hv w hw hlt s s' hs hs' hyear hyear'
    rw [hs.2, hs'.2]
    exact Stamp.text_lt hs.1 hs'.1 (hordered hunit v hv w hw hlt s s' hs hs') hyear hyear'
  · rintro rfl v hv s hs
    obtain ⟨dt, hshows, -, hsecs, -⟩ := TimeUnit.shows_of_exact (hrange v hv) (hexact v hv)
    have hbounds : minSecs ≤ v / 1000000 ∧ v / 1000000 ≤ maxSecs := hrange v hv
    have hmicros : InRangeMicros v := by
      simp only [InRangeMicros, minSecs, maxSecs] at hbounds ⊢
      omega
    have hday : dt.dateNaive = dayOfUs v := by
      have hquot : v / 1000000 / 86400 = v / 86400000000 := by omega
      rw [DateTime.dateNaive, hsecs, dayOfUs_eq hmicros]
      exact hquot
    rw [hs.unique hshows, ← hday]
    rfl

/-- Two instants of 2023 and the second before the epoch. -/
theorem faithful_iff_second_before_epoch :
    TimeUnit.Faithful .microsecond [1700000000000001, -1000000, 1700000000000000] ↔
      ∀ v ∈ [1700000000000001, -1000000, 1700000000000000],
        0 ≤ v ∨ TimeUnit.microsecond.perSecond ∣ v :=
  faithful_iff .microsecond [1700000000000001, -1000000, 1700000000000000] (by
    unfold TimeUnit.InRange
    decide)

/-- **The microsecond before the epoch** is printed as the last of the second after it, which is
the text of another timestamp, and on the day after that of its samples. -/
theorem not_faithful_microsecond_before_epoch :
    TimeUnit.microsecond.InRange (-1) ∧ ¬TimeUnit.microsecond.PairExact (-1) ∧
      TimeUnit.microsecond.text (-1) = "1970-01-01T00:00:00.999999Z" ∧
      TimeUnit.microsecond.text 999999 = "1970-01-01T00:00:00.999999Z" ∧
      Gregorian.ofDayNumber (dayOfUs (-1)) = ⟨1969, 12, 31⟩ ∧
      ¬TimeUnit.Faithful .microsecond [-1] := by
  have hpair : ¬TimeUnit.microsecond.PairExact (-1) := by
    unfold TimeUnit.PairExact
    decide
  refine ⟨by unfold TimeUnit.InRange; decide, hpair, by decide +kernel, by decide +kernel,
    by decide +kernel, fun h => hpair (h.exact _ (List.mem_singleton_self _))⟩

end Skaldberg
