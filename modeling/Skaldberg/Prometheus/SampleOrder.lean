import Skaldberg.Prometheus.Increase

/-!
# Samples at one timestamp

The query reads the samples of a window in the order of their timestamps, and those at one timestamp
in any order. Whether that makes a difference to the increase of the window is a matter of the
numbers at each timestamp (`indifferent_iff`): there is one, or there are zero and a negative number
that the counter reaches from outside the two and does not leave for a lesser one (`Dip`).

That it makes none is shown with one number for each timestamp (`increase_eq_of_reading`), that
nothing else will do with the rows around a timestamp (`Around`) and swaps of two rows at it.
-/

namespace Skaldberg.Prometheus

variable {τ : Type}

/-! ### The samples at a timestamp -/

/-- There are samples at two timestamps. -/
def HasSpan (rows : List (BaseRow τ Exact)) : Prop := ∃ b ∈ rows, ∃ b' ∈ rows, b.tsUs < b'.tsUs

/-- The samples at a timestamp have one value. -/
def OneValueAt (rows : List (BaseRow τ Exact)) (ts : ℤ) : Prop :=
  ∀ b ∈ rows, ∀ b' ∈ rows, b.tsUs = ts → b'.tsUs = ts → b.value = b'.value

/-- A sample at the last timestamp before one. -/
def JustBefore (rows : List (BaseRow τ Exact)) (ts : ℤ) (b : BaseRow τ Exact) : Prop :=
  b ∈ rows ∧ b.tsUs < ts ∧ ∀ b' ∈ rows, b'.tsUs < ts → b'.tsUs ≤ b.tsUs

/-- A sample at the first timestamp after one. -/
def JustAfter (rows : List (BaseRow τ Exact)) (ts : ℤ) (b : BaseRow τ Exact) : Prop :=
  b ∈ rows ∧ ts < b.tsUs ∧ ∀ b' ∈ rows, ts < b'.tsUs → b.tsUs ≤ b'.tsUs

/-- A timestamp inside the window whose samples are a negative number or zero, reached from outside
the numbers between the two and not left for a lesser number. An increase takes the two for one. -/
structure Dip (rows : List (BaseRow τ Exact)) (ts : ℤ) (a : ℚ) : Prop where
  /-- The number is negative. -/
  neg : a < 0
  /-- The samples are this number or zero. -/
  values : ∀ b ∈ rows, b.tsUs = ts → b.num = a ∨ b.num = 0
  /-- The timestamp is not the first one. -/
  before : ∃ b, JustBefore rows ts b
  /-- It is not reached from between the two numbers. -/
  above : ∀ b, JustBefore rows ts b → ¬(a < b.num ∧ b.num < 0)
  /-- The timestamp is not the last one. -/
  after : ∃ b, JustAfter rows ts b
  /-- It is not left for a lesser number. -/
  below : ∀ b, JustAfter rows ts b → a ≤ b.num

variable {rows : List (BaseRow τ Exact)}

/-! ### Rows in order -/

theorem tsAsc_iff {a b : BaseRow τ Exact} : tsAsc a b = true ↔ a.tsUs ≤ b.tsUs :=
  decide_eq_true_iff

theorem tsDesc_iff {a b : BaseRow τ Exact} : tsDesc a b = true ↔ b.tsUs ≤ a.tsUs :=
  decide_eq_true_iff

theorem sort_sorted (E : Sql.Engine) (rows : List (BaseRow τ Exact)) :
    (E.sort tsAsc rows).Pairwise fun a b => a.tsUs ≤ b.tsUs :=
  (E.sort_pairwise tsAsc rows (fun a b => by simpa only [tsAsc_iff] using le_total a.tsUs b.tsUs)
    fun a b c => by simpa only [tsAsc_iff] using le_trans).imp tsAsc_iff.mp

theorem HasSpan.ne_nil (h : HasSpan rows) : rows ≠ [] := by
  obtain ⟨b, hb, -⟩ := h
  exact List.ne_nil_of_mem hb

/-- There are samples at two timestamps when the first and the last one differ. -/
theorem hasSpan_iff : HasSpan rows ↔ 2 ≤ rows.length ∧ firstTs rows < lastTs rows := by
  constructor
  · rintro ⟨b, hb, b', hb', hlt⟩
    have hne := List.ne_nil_of_mem hb
    obtain ⟨first, hfirst, hmin⟩ := exists_first hne
    obtain ⟨last, hlast, hmax⟩ := exists_last hne
    rw [firstTs_eq hfirst hmin, lastTs_eq hlast hmax]
    refine ⟨?_, (hmin b hb).trans_lt (hlt.trans_le (hmax b' hb'))⟩
    by_contra hlen
    obtain ⟨c, rfl⟩ : ∃ c, rows = [c] := List.length_eq_one_iff.mp (by
      have := List.length_pos_of_mem hb
      omega)
    rw [List.mem_singleton.mp hb, List.mem_singleton.mp hb'] at hlt
    exact lt_irrefl _ hlt
  · rintro ⟨hlen, hlt⟩
    have hne : rows ≠ [] := by
      rintro rfl
      simp at hlen
    obtain ⟨first, hfirst, hmin⟩ := exists_first hne
    obtain ⟨last, hlast, hmax⟩ := exists_last hne
    rw [firstTs_eq hfirst hmin, lastTs_eq hlast hmax] at hlt
    exact ⟨first, hfirst, last, hlast, hlt⟩

theorem hasSpan_congr {rows' : List (BaseRow τ Exact)} (h : ∀ b, b ∈ rows' ↔ b ∈ rows) :
    HasSpan rows' ↔ HasSpan rows := by
  simp only [HasSpan, h]

/-- A row once more adds no other one. -/
theorem mem_iff_of_perm_cons {x : BaseRow τ Exact} (hx : x ∈ rows)
    {rows' : List (BaseRow τ Exact)} (h : rows'.Perm (x :: rows)) (b : BaseRow τ Exact) :
    b ∈ rows' ↔ b ∈ rows := by
  rw [h.mem_iff, List.mem_cons]
  exact or_iff_right_of_imp fun hb => hb ▸ hx

/-! ### Around a timestamp -/

/-- Some rows as those before a timestamp, at it and behind it, in the order of their timestamps. -/
structure Around (rows : List (BaseRow τ Exact)) (ts : ℤ) (L M R : List (BaseRow τ Exact)) :
    Prop where
  /-- These are the rows. -/
  perm : rows.Perm (L ++ (M ++ R))
  /-- The first ones are in order. -/
  sortedLeft : L.Pairwise fun a b => a.tsUs ≤ b.tsUs
  /-- They are before the timestamp. -/
  left : ∀ b ∈ L, b.tsUs < ts
  /-- The ones in the middle are at it. -/
  mid : ∀ b ∈ M, b.tsUs = ts
  /-- The last ones are in order. -/
  sortedRight : R.Pairwise fun a b => a.tsUs ≤ b.tsUs
  /-- They are behind the timestamp. -/
  right : ∀ b ∈ R, ts < b.tsUs

theorem exists_around (rows : List (BaseRow τ Exact)) (ts : ℤ) : ∃ L M R, Around rows ts L M R := by
  let E := Sql.Engine.stable
  refine ⟨E.sort tsAsc (rows.filter fun b => decide (b.tsUs < ts)),
    (rows.filter fun b => !decide (b.tsUs < ts)).filter fun b => decide (b.tsUs = ts),
    E.sort tsAsc ((rows.filter fun b => !decide (b.tsUs < ts)).filter fun b =>
      !decide (b.tsUs = ts)), ⟨?_, sort_sorted _ _, ?_, ?_, sort_sorted _ _, ?_⟩⟩
  · have hrest := (List.filter_append_perm (fun b : BaseRow τ Exact => decide (b.tsUs = ts))
      (rows.filter fun b => !decide (b.tsUs < ts))).symm
    have hall := (List.filter_append_perm (fun b : BaseRow τ Exact => decide (b.tsUs < ts))
      rows).symm
    exact hall.trans ((E.sort_perm tsAsc _).symm.append
      (hrest.trans ((E.sort_perm tsAsc _).symm.append_left _)))
  · intro b hb
    exact of_decide_eq_true (List.mem_filter.mp (E.mem_sort.mp hb)).2
  · intro b hb
    exact of_decide_eq_true (List.mem_filter.mp hb).2
  · intro b hb
    obtain ⟨hb, hne⟩ := List.mem_filter.mp (E.mem_sort.mp hb)
    have hlt := (List.mem_filter.mp hb).2
    simp only [Bool.not_eq_true', decide_eq_false_iff_not] at hne hlt
    omega

namespace Around

variable {ts : ℤ} {L M R : List (BaseRow τ Exact)}

/-- The rows at the timestamp may be listed in any order, and may be others. -/
theorem sorted (h : Around rows ts L M R) {M' : List (BaseRow τ Exact)}
    (hM' : ∀ b ∈ M', b.tsUs = ts) : (L ++ (M' ++ R)).Pairwise fun a b => a.tsUs ≤ b.tsUs := by
  have hmid : M'.Pairwise fun a b => a.tsUs ≤ b.tsUs :=
    List.pairwise_of_forall_mem_list fun a ha b hb => ((hM' a ha).trans (hM' b hb).symm).le
  refine List.pairwise_append.mpr ⟨h.sortedLeft, List.pairwise_append.mpr ⟨hmid, h.sortedRight,
    fun a ha b hb => (hM' a ha).trans_le (h.right b hb).le⟩, fun a ha b hb => ?_⟩
  rcases List.mem_append.mp hb with hb | hb
  · exact (h.left a ha).le.trans (hM' b hb).ge
  · exact ((h.left a ha).trans (h.right b hb)).le

/-- With a row once more at the timestamp. -/
theorem perm_cons (h : Around rows ts L M R) {M' : List (BaseRow τ Exact)} {x : BaseRow τ Exact}
    (hM' : M'.Perm (x :: M)) : (L ++ (M' ++ R)).Perm (x :: rows) :=
  ((hM'.append_right R).append_left L).trans
    (List.perm_middle.trans (h.perm.symm.cons x))

theorem mem (h : Around rows ts L M R) {b : BaseRow τ Exact} :
    b ∈ rows ↔ b ∈ L ∨ b ∈ M ∨ b ∈ R := by
  rw [h.perm.mem_iff, List.mem_append, List.mem_append]

theorem mem_mid (h : Around rows ts L M R) {b : BaseRow τ Exact} (hb : b ∈ rows)
    (hts : b.tsUs = ts) : b ∈ M := by
  rcases h.mem.mp hb with hb | hb | hb
  · exact absurd hts (h.left b hb).ne
  · exact hb
  · exact absurd hts (h.right b hb).ne'

theorem mem_left (h : Around rows ts L M R) {b : BaseRow τ Exact} (hb : b ∈ rows)
    (hts : b.tsUs < ts) : b ∈ L := by
  rcases h.mem.mp hb with hb | hb | hb
  · exact hb
  · exact absurd (h.mid b hb) hts.ne
  · exact absurd hts (h.right b hb).not_gt

theorem mem_right (h : Around rows ts L M R) {b : BaseRow τ Exact} (hb : b ∈ rows)
    (hts : ts < b.tsUs) : b ∈ R := by
  rcases h.mem.mp hb with hb | hb | hb
  · exact absurd hts (h.left b hb).not_gt
  · exact absurd (h.mid b hb) hts.ne'
  · exact hb

theorem justBefore (h : Around rows ts L M R) {p : BaseRow τ Exact} (hp : p ∈ L.getLast?) :
    JustBefore rows ts p := by
  obtain ⟨L', rfl⟩ := List.getLast?_eq_some_iff.mp hp
  have hmem : p ∈ L' ++ [p] := by simp
  refine ⟨h.mem.mpr (.inl hmem), h.left p hmem, fun b hb hlt => ?_⟩
  rcases List.mem_append.mp (h.mem_left hb hlt) with hb | hb
  · exact (List.pairwise_append.mp h.sortedLeft).2.2 b hb p (List.mem_singleton_self p)
  · rw [List.mem_singleton.mp hb]

theorem justAfter (h : Around rows ts L M R) {q : BaseRow τ Exact} (hq : q ∈ R.head?) :
    JustAfter rows ts q := by
  obtain ⟨R', rfl⟩ := List.head?_eq_some_iff.mp hq
  have hmem : q ∈ q :: R' := List.mem_cons_self ..
  refine ⟨h.mem.mpr (.inr (.inr hmem)), h.right q hmem, fun b hb hlt => ?_⟩
  rcases List.mem_cons.mp (h.mem_right hb hlt) with rfl | hb
  · exact le_rfl
  · exact (List.pairwise_cons.mp h.sortedRight).1 b hb

/-- Any row just before the timestamp may be the last one before it. -/
theorem left_last (h : Around rows ts L M R) {p : BaseRow τ Exact} (hp : JustBefore rows ts p) :
    ∃ L', Around rows ts (L' ++ [p]) M R := by
  obtain ⟨hp, hlt, hmax⟩ := hp
  obtain ⟨l₁, l₂, rfl⟩ := List.append_of_mem (h.mem_left hp hlt)
  have hperm : (l₁ ++ p :: l₂).Perm (l₁ ++ l₂ ++ [p]) :=
    List.perm_middle.trans (List.perm_append_singleton p _).symm
  refine ⟨l₁ ++ l₂, h.perm.trans (hperm.append_right _), ?_, fun b hb => h.left b
    (hperm.mem_iff.mpr hb), h.mid, h.sortedRight, h.right⟩
  refine List.pairwise_append.mpr ⟨h.sortedLeft.sublist (by simp), List.pairwise_singleton _ _,
    fun b hb c hc => ?_⟩
  rw [List.mem_singleton.mp hc]
  have hmem : b ∈ l₁ ++ p :: l₂ := hperm.mem_iff.mpr (List.mem_append_left _ hb)
  exact hmax b (h.mem.mpr (.inl hmem)) (h.left b hmem)

/-- Any row just after the timestamp may be the first one behind it. -/
theorem right_head (h : Around rows ts L M R) {q : BaseRow τ Exact} (hq : JustAfter rows ts q) :
    ∃ R', Around rows ts L M (q :: R') := by
  obtain ⟨hq, hlt, hmin⟩ := hq
  obtain ⟨l₁, l₂, rfl⟩ := List.append_of_mem (h.mem_right hq hlt)
  have hperm : (l₁ ++ q :: l₂).Perm (q :: (l₁ ++ l₂)) := List.perm_middle
  refine ⟨l₁ ++ l₂, h.perm.trans ((hperm.append_left M).append_left L), h.sortedLeft, h.left, h.mid,
    ?_, fun b hb => h.right b (hperm.mem_iff.mpr hb)⟩
  refine List.pairwise_cons.mpr ⟨fun b hb => ?_, h.sortedRight.sublist (by simp)⟩
  have hmem : b ∈ l₁ ++ q :: l₂ := hperm.mem_iff.mpr (List.mem_cons_of_mem _ hb)
  exact hmin b (h.mem.mpr (.inr (.inr hmem))) (h.right b hmem)

end Around

/-- Around the last timestamp there is nothing behind. -/
theorem exists_around_last (hne : rows ≠ []) :
    ∃ last L M, last ∈ rows ∧ (∀ b ∈ rows, b.tsUs ≤ last.tsUs) ∧
      Around rows last.tsUs L M [] := by
  obtain ⟨last, hlast, hmax⟩ := exists_last hne
  obtain ⟨L, M, R, haround⟩ := exists_around rows last.tsUs
  obtain rfl : R = [] := List.eq_nil_iff_forall_not_mem.mpr fun b hb =>
    absurd (haround.right b hb) (hmax b (haround.mem.mpr (.inr (.inr hb)))).not_gt
  exact ⟨last, L, M, hlast, hmax, haround⟩

/-! ### One reading for a timestamp -/

theorem le_getLastD_of_sorted {first : BaseRow τ Exact} {rest : List (BaseRow τ Exact)}
    (h : (first :: rest).Pairwise fun a b => a.tsUs ≤ b.tsUs) {b : BaseRow τ Exact}
    (hb : b ∈ first :: rest) : b.tsUs ≤ (rest.getLastD first).tsUs := by
  have hne := List.cons_ne_nil first rest
  rw [← List.dropLast_append_getLast hne, List.pairwise_append] at h
  rw [← List.dropLast_append_getLast hne, List.mem_append] at hb
  rw [← List.getLast_eq_getLastD hne]
  rcases hb with hb | hb
  · exact h.2.2 b hb _ (List.mem_singleton_self _)
  · rw [List.mem_singleton.mp hb]

/-- A number for each timestamp: its samples are this number, or zero in a dip. -/
theorem exists_reading (h : ∀ b ∈ rows, OneValueAt rows b.tsUs ∨ ∃ a, Dip rows b.tsUs a) (ts : ℤ) :
    ∃ a : ℚ, (∀ b ∈ rows, b.tsUs = ts → b.num = a ∨ b.num = 0 ∧ Dip rows ts a) ∧
      ((∃ b ∈ rows, b.tsUs = ts) → ∃ b ∈ rows, b.tsUs = ts ∧ b.num = a) := by
  by_cases hex : ∃ b ∈ rows, b.tsUs = ts
  · obtain ⟨b, hb, rfl⟩ := hex
    rcases h b hb with hone | ⟨a, hdip⟩
    · exact ⟨b.num, fun b' hb' hts => .inl (congrArg Exact.toRat (hone b' hb' b hb hts rfl)),
        fun _ => ⟨b, hb, rfl, rfl⟩⟩
    · by_cases hlow : ∃ b' ∈ rows, b'.tsUs = b.tsUs ∧ b'.num = a
      · refine ⟨a, fun b' hb' hts => ?_, fun _ => hlow⟩
        exact (hdip.values b' hb' hts).imp_right fun hzero => ⟨hzero, hdip⟩
      · -- only zeros are there
        have hzero : ∀ b' ∈ rows, b'.tsUs = b.tsUs → b'.num = 0 := fun b' hb' hts =>
          (hdip.values b' hb' hts).resolve_left fun ha => hlow ⟨b', hb', hts, ha⟩
        exact ⟨0, fun b' hb' hts => .inl (hzero b' hb' hts), fun _ => ⟨b, hb, rfl, hzero b hb rfl⟩⟩
  · exact ⟨0, fun b hb hts => absurd ⟨b, hb, hts⟩ hex, fun hex' => absurd hex' hex⟩

section

variable {m : ℤ → ℚ}
  (hm : ∀ ts, ∀ b ∈ rows, b.tsUs = ts → b.num = m ts ∨ b.num = 0 ∧ Dip rows ts (m ts))

include hm

/-- From a row to one that follows it, the step is that from timestamp to timestamp. -/
theorem step_eq_of_reading
    (hattained : ∀ ts, (∃ b ∈ rows, b.tsUs = ts) → ∃ b ∈ rows, b.tsUs = ts ∧ b.num = m ts)
    {x y : BaseRow τ Exact} (hx : x ∈ rows) (hy : y ∈ rows) (hle : x.tsUs ≤ y.tsUs)
    (hbetween : ∀ b ∈ rows, b.tsUs ≤ x.tsUs ∨ y.tsUs ≤ b.tsUs) :
    Counter.step x.num y.num = Counter.step (m x.tsUs) (m y.tsUs) +
      ((y.num - m y.tsUs) - (x.num - m x.tsUs)) := by
  refine Counter.step_dip ((hm _ x hx rfl).imp_right fun hdip => ⟨hdip.1, hdip.2.neg, ?_⟩)
    ((hm _ y hy rfl).imp_right fun hdip => ⟨hdip.1, hdip.2.neg, ?_⟩)
  · rcases hle.eq_or_lt with heq | hlt
    · rw [heq]
    · obtain ⟨b, hb, hts, hnum⟩ := hattained _ ⟨y, hy, rfl⟩
      rw [← hnum]
      exact hdip.2.below b ⟨hb, hlt.trans_eq hts.symm, fun b' hb' hlt' =>
        hts.trans_le ((hbetween b' hb').resolve_left (not_le.mpr hlt'))⟩
  · rcases hle.eq_or_lt with heq | hlt
    · rw [heq]
      exact fun h => lt_irrefl _ h.1
    · obtain ⟨b, hb, hts, hnum⟩ := hattained _ ⟨x, hx, rfl⟩
      rw [← hnum]
      exact hdip.2.above b ⟨hb, hts.trans_lt hlt, fun b' hb' hlt' =>
        ((hbetween b' hb').resolve_right (not_le.mpr hlt')).trans_eq hts.symm⟩

/-- The increase over rows in order is that over the numbers of their timestamps. -/
theorem increase_eq_of_reading
    (hattained : ∀ ts, (∃ b ∈ rows, b.tsUs = ts) → ∃ b ∈ rows, b.tsUs = ts ∧ b.num = m ts)
    {s : List (BaseRow τ Exact)} (hs : s.Pairwise fun a b => a.tsUs ≤ b.tsUs)
    (hmem : ∀ b, b ∈ s ↔ b ∈ rows) :
    Counter.increase (s.map BaseRow.num) = Counter.increase (s.map fun b => m b.tsUs) := by
  cases s with
  | nil => rfl
  | cons first rest =>
    have hsteps : (first :: rest).IsChain fun x y => Counter.step x.num y.num =
        Counter.step (m x.tsUs) (m y.tsUs) +
          ((y.num - m y.tsUs) - (x.num - m x.tsUs)) := by
      rw [List.isChain_iff_forall_rel_of_append_cons_cons]
      intro x y l₁ l₂ hsplit
      rw [hsplit] at hs hmem
      obtain ⟨-, htail, hleft⟩ := List.pairwise_append.mp hs
      obtain ⟨hxle, htail⟩ := List.pairwise_cons.mp htail
      refine step_eq_of_reading hm hattained ((hmem x).mp (by simp)) ((hmem y).mp (by simp))
        (hxle y (List.mem_cons_self ..)) fun b hb => ?_
      have hb := (hmem b).mpr hb
      simp only [List.mem_append, List.mem_cons] at hb
      rcases hb with hb | rfl | rfl | hb
      · exact .inl (hleft b hb x (List.mem_cons_self ..))
      · exact .inl le_rfl
      · exact .inr le_rfl
      · exact .inr ((List.pairwise_cons.mp htail).1 b hb)
    -- neither the first nor the last timestamp is a dip
    have hfirst : first.num = m first.tsUs := by
      refine (hm _ first ((hmem first).mp (List.mem_cons_self ..)) rfl).resolve_right fun hdip => ?_
      obtain ⟨b, hb, hlt, -⟩ := hdip.2.before
      rcases List.mem_cons.mp ((hmem b).mpr hb) with rfl | hb
      · exact lt_irrefl _ hlt
      · exact hlt.not_ge ((List.pairwise_cons.mp hs).1 b hb)
    have hlast : (rest.getLastD first).num = m (rest.getLastD first).tsUs := by
      refine (hm _ _ ((hmem _).mp List.getLastD_mem_cons) rfl).resolve_right fun hdip => ?_
      obtain ⟨b, hb, hlt, -⟩ := hdip.2.after
      exact hlt.not_ge (le_getLastD_of_sorted hs ((hmem b).mpr hb))
    rw [Counter.increase_map_eq first rest hsteps, hfirst, hlast]
    simp

end

/-- **The order of the samples at a timestamp makes no difference**, nor how often one is there. -/
theorem increase_eq_of_settled
    (h : ∀ b ∈ rows, OneValueAt rows b.tsUs ∨ ∃ a, Dip rows b.tsUs a)
    {s s' : List (BaseRow τ Exact)} (hs : s.Pairwise fun a b => a.tsUs ≤ b.tsUs)
    (hs' : s'.Pairwise fun a b => a.tsUs ≤ b.tsUs) (hmem : ∀ b, b ∈ s ↔ b ∈ rows)
    (hmem' : ∀ b, b ∈ s' ↔ b ∈ rows) :
    Counter.increase (s.map BaseRow.num) = Counter.increase (s'.map BaseRow.num) := by
  choose m hm hattained using exists_reading h
  rw [increase_eq_of_reading hm hattained hs hmem, increase_eq_of_reading hm hattained hs' hmem']
  have hts : ∀ s : List (BaseRow τ Exact), s.map (fun b => m b.tsUs) =
      (s.map BaseRow.tsUs).map m := fun s => by rw [List.map_map]; rfl
  rw [hts, hts]
  refine Counter.increase_map_congr m (List.pairwise_map.mpr hs) (List.pairwise_map.mpr hs')
    fun ts => ?_
  simp only [List.mem_map, hmem, hmem']

/-! ### The orders of a timestamp -/

/-- The increase is the same in all orders of rows with one timestamp, with one row once more. -/
def Indifferent (rows : List (BaseRow τ Exact)) : Prop :=
  ∀ x ∈ rows, ∀ s s' : List (BaseRow τ Exact), s.Perm (x :: rows) → s'.Perm (x :: rows) →
    (s.Pairwise fun a b => a.tsUs ≤ b.tsUs) → (s'.Pairwise fun a b => a.tsUs ≤ b.tsUs) →
      Counter.increase (s.map BaseRow.num) = Counter.increase (s'.map BaseRow.num)

section

variable {ts : ℤ} {L M R M₀ : List (BaseRow τ Exact)} {c c' : BaseRow τ Exact}

/-- Rows at one timestamp may be swapped. -/
theorem Indifferent.increase_eq (h : Indifferent rows) (haround : Around rows ts L M R)
    {x : BaseRow τ Exact} (hx : x ∈ M) (M₁ M₂ : List (BaseRow τ Exact))
    (h₁ : M₁.Perm (x :: M)) (h₂ : M₂.Perm (x :: M)) :
    Counter.increase ((L ++ (M₁ ++ R)).map BaseRow.num) =
      Counter.increase ((L ++ (M₂ ++ R)).map BaseRow.num) := by
  have hmid : ∀ b ∈ x :: M, b.tsUs = ts := fun b hb => by
    rcases List.mem_cons.mp hb with rfl | hb
    · exact haround.mid _ hx
    · exact haround.mid b hb
  exact h x (haround.mem.mpr (.inr (.inl hx))) _ _ (haround.perm_cons h₁) (haround.perm_cons h₂)
    (haround.sorted fun b hb => hmid b (h₁.mem_iff.mp hb))
    (haround.sorted fun b hb => hmid b (h₂.mem_iff.mp hb))

/-- Of two numbers at one timestamp the greater one is zero, and the next one is not below the
lesser one. -/
theorem Indifferent.after (h : Indifferent rows) (haround : Around rows ts L M R)
    (hM : M.Perm (c :: c' :: M₀)) (hlt : c.num < c'.num) :
    c'.num = 0 ∧ ∃ q ∈ R.head?, c.num ≤ q.num := by
  have hc : c ∈ M := hM.mem_iff.mpr (by simp)
  have hc' : c' ∈ M := hM.mem_iff.mpr (by simp)
  have hlow := h.increase_eq haround hc (M₀ ++ [c, c, c']) (M₀ ++ [c, c', c])
    (List.perm_append_comm.trans (hM.symm.cons c))
    (List.perm_append_comm.trans (((List.Perm.swap c c' M₀).cons c).trans (hM.symm.cons c)))
  have hhigh := h.increase_eq haround hc' (M₀ ++ [c', c, c']) (M₀ ++ [c', c', c])
    (List.perm_append_comm.trans (hM.symm.cons c'))
    (List.perm_append_comm.trans (((List.Perm.swap c c' M₀).cons c').trans (hM.symm.cons c')))
  simp only [List.map_append, List.map_cons, List.append_assoc, List.cons_append,
    List.nil_append] at hlow hhigh
  simp only [← List.append_assoc] at hlow hhigh
  obtain ⟨hzero, q, hq, hle⟩ := Counter.swap_after hlt hlow hhigh
  rw [List.head?_map] at hq
  obtain ⟨b, hb, rfl⟩ := Option.map_eq_some_iff.mp hq
  exact ⟨hzero, b, hb, hle⟩

/-- The one before is not between the two. -/
theorem Indifferent.before (h : Indifferent rows) (haround : Around rows ts L M R)
    (hM : M.Perm (c :: c' :: M₀)) (hneg : c.num < 0) (hzero : c'.num = 0) :
    ∃ p ∈ L.getLast?, ¬(c.num < p.num ∧ p.num < 0) := by
  have hc : c ∈ M := hM.mem_iff.mpr (by simp)
  have hswap := h.increase_eq haround hc (c :: c' :: c :: M₀) (c' :: c :: c :: M₀)
    (((List.Perm.swap c c' M₀).cons c).trans (hM.symm.cons c))
    ((List.Perm.swap c c' (c :: M₀)).trans
      (((List.Perm.swap c c' M₀).cons c).trans (hM.symm.cons c)))
  simp only [List.map_append, List.map_cons, List.cons_append, hzero] at hswap
  obtain ⟨p, hp, hnot⟩ := Counter.swap_before hneg hswap
  rw [List.getLast?_map] at hp
  obtain ⟨b, hb, rfl⟩ := Option.map_eq_some_iff.mp hp
  exact ⟨b, hb, hnot⟩

end

/-- **A timestamp with two numbers is a dip**, if the order of its rows makes no difference. -/
theorem Indifferent.dip (h : Indifferent rows) {b b' : BaseRow τ Exact} (hb : b ∈ rows)
    (hb' : b' ∈ rows) (hts : b'.tsUs = b.tsUs) (hlt : b.num < b'.num) : Dip rows b.tsUs b.num := by
  obtain ⟨L, M, R, haround⟩ := exists_around rows b.tsUs
  -- two rows with different numbers, and the others at the timestamp
  have hpair : ∀ c ∈ rows, c.tsUs = b.tsUs → ∀ c' ∈ rows, c'.tsUs = b.tsUs → c.num < c'.num →
      ∃ M₀, M.Perm (c :: c' :: M₀) := by
    intro c hc hcts c' hc' hcts' hlt
    obtain ⟨l₁, l₂, hsplit⟩ := List.append_of_mem (haround.mem_mid hc hcts)
    have hperm : M.Perm (c :: (l₁ ++ l₂)) := hsplit ▸ List.perm_middle
    have hmem : c' ∈ l₁ ++ l₂ := by
      refine (List.mem_cons.mp (hperm.mem_iff.mp (haround.mem_mid hc' hcts'))).resolve_left ?_
      rintro rfl
      exact lt_irrefl _ hlt
    obtain ⟨m₁, m₂, hsplit'⟩ := List.append_of_mem hmem
    exact ⟨m₁ ++ m₂, hperm.trans ((hsplit' ▸ List.perm_middle : (l₁ ++ l₂).Perm _).cons c)⟩
  have hzero : ∀ c ∈ rows, c.tsUs = b.tsUs → ∀ c' ∈ rows, c'.tsUs = b.tsUs → c.num < c'.num →
      c'.num = 0 := by
    intro c hc hcts c' hc' hcts' hlt
    obtain ⟨M₀, hM⟩ := hpair c hc hcts c' hc' hcts' hlt
    exact (h.after haround hM hlt).1
  have hzero' := hzero b hb rfl b' hb' hts hlt
  have hneg : b.num < 0 := hzero' ▸ hlt
  obtain ⟨M₀, hM⟩ := hpair b hb rfl b' hb' hts hlt
  obtain ⟨p, hp, -⟩ := h.before haround hM hneg hzero'
  obtain ⟨-, q, hq, -⟩ := h.after haround hM hlt
  refine ⟨hneg, fun c hc hcts => ?_, ⟨p, haround.justBefore hp⟩, fun p hp => ?_,
    ⟨q, haround.justAfter hq⟩, fun q hq => ?_⟩
  · rcases lt_trichotomy c.num b.num with hlow | heq | hhigh
    · exact absurd (hzero c hc hcts b hb rfl hlow) hneg.ne
    · exact .inl heq
    · exact .inr (hzero b hb rfl c hc hcts hhigh)
  · -- the rows before the timestamp, with this one the last of them
    obtain ⟨L', haround'⟩ := haround.left_last hp
    obtain ⟨p', hp', hnot⟩ := h.before haround' hM hneg hzero'
    rw [List.getLast?_concat] at hp'
    rwa [Option.some.inj hp']
  · obtain ⟨R', haround'⟩ := haround.right_head hq
    obtain ⟨-, q', hq', hle⟩ := h.after haround' hM hlt
    rwa [Option.some.inj hq']

/-- **When the order makes no difference**: each timestamp has one value, or is a dip. -/
theorem indifferent_iff (hnum : ∀ b ∈ rows, b.value.IsNum) :
    Indifferent rows ↔ ∀ b ∈ rows, OneValueAt rows b.tsUs ∨ ∃ a, Dip rows b.tsUs a := by
  constructor
  · intro h b hb
    refine or_iff_not_imp_left.mpr fun hne => ?_
    simp only [OneValueAt, not_forall] at hne
    obtain ⟨c, hc, c', hc', hcts, hcts', hne⟩ := hne
    have hne : c.num ≠ c'.num := fun heq =>
      hne (by rw [BaseRow.value_eq (hnum c hc), BaseRow.value_eq (hnum c' hc'), heq])
    rcases hne.lt_or_gt with hlt | hlt
    · exact ⟨c.num, hcts ▸ h.dip hc hc' (hcts'.trans hcts.symm) hlt⟩
    · exact ⟨c'.num, hcts' ▸ h.dip hc' hc (hcts.trans hcts'.symm) hlt⟩
  · intro h x hx s s' hs hs' hsorted hsorted'
    exact increase_eq_of_settled h hsorted hsorted' (mem_iff_of_perm_cons hx hs)
      (mem_iff_of_perm_cons hx hs')

end Skaldberg.Prometheus
