import Mathlib.Algebra.Order.Field.Basic
import Mathlib.Tactic.FieldSimp
import Mathlib.Tactic.Linarith
import Mathlib.Tactic.Ring

/-!
# Where a count falls in cumulative counts

Buckets are given by their upper bounds and the counts of everything below them, in order. The
place of a count is found by a walk to the first bucket that reaches it, and interpolated between
the bounds of that bucket (`Cumulative.walk`).

The place is between the bounds of its bucket (`Cumulative.le_walk`, `Cumulative.walk_le`), so that
a greater count has no lesser place, within a bucket and from one to the next
(`Cumulative.walk_mono`). A bound is reached when all of its bucket is
(`Cumulative.bound_le_walk_iff`).

Rates need not increase with the bounds as counts do. As long as some bucket reaches it, a greater
count has a greater place even then (`Cumulative.walk_lt_walk`), but for a lowest bucket that ends
at zero or below (`Cumulative.walk_eq_walk_iff`).
-/

namespace Cumulative

variable {K : Type} [Field K] [LinearOrder K]

/-- The place of a count between two bounds, each with its cumulative count. -/
def interpolate (p b : K × K) (t : K) : K := p.1 + (t - p.2) / (b.2 - p.2) * (b.1 - p.1)

/-- The place of a count among some buckets, from the bound and the count below them; above all
buckets it is the last bound. -/
def walk (t : K) : K × K → List (K × K) → K
  | p, [] => p.1
  | p, b :: bs => if t ≤ b.2 then interpolate p b t else walk t b bs

/-- The bounds and the counts do not decrease. -/
def Ascending (l : List (K × K)) : Prop := l.Pairwise fun a b => a.1 ≤ b.1 ∧ a.2 ≤ b.2

variable [IsStrictOrderedRing K] {p b : K × K} {bs : List (K × K)} {t t' : K}

/-! ### In one bucket -/

theorem interpolate_mono (hle : p.1 ≤ b.1) (hlt : p.2 < b.2) (h : t ≤ t') :
    interpolate p b t ≤ interpolate p b t' := by
  have hcount : 0 < b.2 - p.2 := sub_pos.mpr hlt
  have hfrac : (t - p.2) / (b.2 - p.2) ≤ (t' - p.2) / (b.2 - p.2) :=
    div_le_div_of_nonneg_right (sub_le_sub_right h _) hcount.le
  exact add_le_add_right (mul_le_mul_of_nonneg_right hfrac (sub_nonneg.mpr hle)) _

omit [LinearOrder K] [IsStrictOrderedRing K] in
theorem interpolate_lower (p b : K × K) : interpolate p b p.2 = p.1 := by
  rw [interpolate, sub_self, zero_div, zero_mul, add_zero]

theorem interpolate_upper (hlt : p.2 < b.2) : interpolate p b b.2 = b.1 := by
  rw [interpolate, div_self (sub_pos.mpr hlt).ne', one_mul, add_sub_cancel]

/-- The upper bound is reached when all of the bucket is, or the bucket has no width. -/
theorem bound_le_interpolate_iff (hle : p.1 ≤ b.1) (hlt : p.2 < b.2) (ht : t ≤ b.2) :
    b.1 ≤ interpolate p b t ↔ t = b.2 ∨ p.1 = b.1 := by
  have hcount : 0 < b.2 - p.2 := sub_pos.mpr hlt
  have hrest : b.1 - interpolate p b t = (b.2 - t) / (b.2 - p.2) * (b.1 - p.1) := by
    rw [interpolate]
    field_simp
    ring
  constructor
  · intro h
    have hnonpos : (b.2 - t) / (b.2 - p.2) * (b.1 - p.1) ≤ 0 := hrest ▸ sub_nonpos.mpr h
    by_contra hneither
    obtain ⟨hne, hwidth⟩ := not_or.mp hneither
    have hpos := mul_pos (div_pos (sub_pos.mpr (lt_of_le_of_ne ht hne)) hcount)
      (sub_pos.mpr (lt_of_le_of_ne hle hwidth))
    exact absurd hnonpos (not_le.mpr hpos)
  · rintro (rfl | hwidth)
    · rw [interpolate_upper hlt]
    · rw [hwidth, sub_self, mul_zero] at hrest
      exact (sub_eq_zero.mp hrest).le

/-- Between bounds in the other order, no place is below the upper one. -/
theorem bound_le_interpolate (hle : b.1 ≤ p.1) (hlt : p.2 < b.2) (ht : t ≤ b.2) :
    b.1 ≤ interpolate p b t := by
  have hcount : 0 < b.2 - p.2 := sub_pos.mpr hlt
  have hfrac : (t - p.2) / (b.2 - p.2) ≤ 1 :=
    (div_le_one hcount).mpr (sub_le_sub_right ht _)
  have hwidth : b.1 - p.1 ≤ (t - p.2) / (b.2 - p.2) * (b.1 - p.1) := by
    nlinarith only [hfrac, hle]
  rw [interpolate]
  linarith only [hwidth]

/-! ### Among buckets -/

omit [Field K] [IsStrictOrderedRing K] in
theorem Ascending.cons_iff : Ascending (p :: bs) ↔
    (∀ b ∈ bs, p.1 ≤ b.1 ∧ p.2 ≤ b.2) ∧ Ascending bs := List.pairwise_cons

omit [Field K] [IsStrictOrderedRing K] in
theorem Ascending.le_getLastD (h : Ascending bs) (hb : b ∈ bs) (d : K × K) :
    b.1 ≤ (bs.getLastD d).1 := by
  induction bs generalizing d with
  | nil => exact absurd hb List.not_mem_nil
  | cons b' bs ih =>
    obtain ⟨hfirst, hrest⟩ := Ascending.cons_iff.mp h
    rw [List.getLastD_cons]
    rcases List.mem_cons.mp hb with rfl | hb
    · rcases List.mem_cons.mp (List.getLastD_mem_cons (l := bs) (a := b)) with heq | hmem
      · rw [heq]
      · exact (hfirst _ hmem).1
    · exact ih hrest hb b'

/-- **The place is not below the lower bound.** -/
theorem le_walk (h : Ascending (p :: bs)) (ht : p.2 < t) : p.1 ≤ walk t p bs := by
  induction bs generalizing p with
  | nil => exact le_rfl
  | cons b bs ih =>
    obtain ⟨hfirst, hrest⟩ := Ascending.cons_iff.mp h
    have hle := (hfirst b (List.mem_cons_self ..)).1
    rw [walk]
    split_ifs with hb
    · rw [← interpolate_lower p b]
      exact interpolate_mono hle (ht.trans_le hb) ht.le
    · exact hle.trans (ih hrest (not_le.mp hb))

/-- **The place is not above the bound of its bucket.** -/
theorem walk_le (h : Ascending (p :: bs)) (ht : p.2 < t) {b : K × K}
    (hfind : bs.find? (fun b => decide (t ≤ b.2)) = some b) : walk t p bs ≤ b.1 := by
  induction bs generalizing p with
  | nil => cases hfind
  | cons b' bs ih =>
    obtain ⟨hfirst, hrest⟩ := Ascending.cons_iff.mp h
    have hle := (hfirst b' (List.mem_cons_self ..)).1
    rw [walk]
    split_ifs with hb
    · rw [List.find?_cons_of_pos (by exact decide_eq_true hb)] at hfind
      obtain rfl := Option.some.inj hfind
      have hlt := ht.trans_le hb
      rw [← interpolate_upper hlt]
      exact interpolate_mono hle hlt hb
    · rw [List.find?_cons_of_neg (by simpa using hb)] at hfind
      exact ih hrest (not_le.mp hb) hfind

/-- **The place is not above the last bound.** -/
theorem walk_le_last (h : Ascending (p :: bs)) (ht : p.2 < t) :
    walk t p bs ≤ (bs.getLastD p).1 := by
  induction bs generalizing p with
  | nil => exact le_rfl
  | cons b bs ih =>
    obtain ⟨hfirst, hrest⟩ := Ascending.cons_iff.mp h
    have hle := (hfirst b (List.mem_cons_self ..)).1
    rw [walk, List.getLastD_cons]
    split_ifs with hb
    · have hlt := ht.trans_le hb
      have hlast := hrest.le_getLastD (List.mem_cons_self ..) p
      rw [List.getLastD_cons] at hlast
      calc
        interpolate p b t ≤ interpolate p b b.2 := interpolate_mono hle hlt hb
        _ = b.1 := interpolate_upper hlt
        _ ≤ (bs.getLastD b).1 := hlast
    · exact ih hrest (not_le.mp hb)

/-- **A greater count has no lesser place.** -/
theorem walk_mono (h : Ascending (p :: bs)) (ht : p.2 < t) (htt' : t ≤ t') :
    walk t p bs ≤ walk t' p bs := by
  induction bs generalizing p with
  | nil => exact le_rfl
  | cons b bs ih =>
    obtain ⟨hfirst, hrest⟩ := Ascending.cons_iff.mp h
    have hle := (hfirst b (List.mem_cons_self ..)).1
    rw [walk, walk]
    split_ifs with hb hb' hb'
    · exact interpolate_mono hle (ht.trans_le hb) htt'
    · -- the bound lies between the two places
      have hlt := ht.trans_le hb
      calc
        interpolate p b t ≤ interpolate p b b.2 := interpolate_mono hle hlt hb
        _ = b.1 := interpolate_upper hlt
        _ ≤ walk t' b bs := le_walk hrest (not_le.mp hb')
    · exact absurd (htt'.trans hb') hb
    · exact ih hrest (not_le.mp hb)

omit [IsStrictOrderedRing K] in
/-- The walk passes what is below the count. -/
theorem walk_append {pre : List (K × K)} (hpre : ∀ b ∈ pre, b.2 < t) :
    walk t p (pre ++ bs) = walk t (pre.getLastD p) bs := by
  induction pre generalizing p with
  | nil => rfl
  | cons b pre ih =>
    rw [List.cons_append, walk, if_neg (not_le.mpr (hpre b (List.mem_cons_self ..))),
      ih fun b' hb' => hpre b' (List.mem_cons_of_mem _ hb'), List.getLastD_cons]

/-- **A bound is reached** when all of its bucket is, or the bucket has no width. -/
theorem bound_le_walk_iff (h : Ascending (p :: b :: bs)) (hlt : p.2 < b.2) :
    b.1 ≤ walk t p (b :: bs) ↔ b.2 ≤ t ∨ p.1 = b.1 := by
  obtain ⟨hfirst, hrest⟩ := Ascending.cons_iff.mp h
  have hle := (hfirst b (List.mem_cons_self ..)).1
  rw [walk]
  split_ifs with hb
  · rw [bound_le_interpolate_iff hle hlt hb]
    exact or_congr ⟨fun heq => heq.ge, fun hge => le_antisymm hb hge⟩ Iff.rfl
  · exact iff_of_true (le_walk hrest (not_le.mp hb)) (.inl (not_le.mp hb).le)

/-! ### From zero -/

/-- A bound is reached from zero when all of its bucket is, or it is not positive. -/
theorem bound_le_walk_from_zero_iff (h : Ascending (b :: bs)) (hpos : 0 < b.2) :
    b.1 ≤ walk t (0, 0) (b :: bs) ↔ b.2 ≤ t ∨ b.1 ≤ 0 := by
  rcases le_total 0 b.1 with hb | hb
  · have hfrom : Ascending ((0, 0) :: b :: bs) := by
      refine Ascending.cons_iff.mpr ⟨fun a ha => ?_, h⟩
      rcases List.mem_cons.mp ha with rfl | ha
      · exact ⟨hb, hpos.le⟩
      · have hle := (Ascending.cons_iff.mp h).1 a ha
        exact ⟨hb.trans hle.1, hpos.le.trans hle.2⟩
    rw [bound_le_walk_iff hfrom hpos]
    exact or_congr_right ⟨fun heq => heq.ge, fun hle => le_antisymm hb hle⟩
  · refine iff_of_true ?_ (.inr hb)
    rw [walk]
    split_ifs with ht
    · exact bound_le_interpolate hb hpos ht
    · exact le_walk h (not_le.mp ht)

omit [IsStrictOrderedRing K] in
/-- **A walk from zero** is one from a bound below all others, for the counts above one that does
not fall in a lowest bucket with a negative bound. -/
theorem exists_start (h : Ascending bs) (hnonneg : ∀ b ∈ bs, 0 ≤ b.2) (ht : 0 < t)
    (hstart : ∀ b ∈ bs.head?, t ≤ b.2 → 0 ≤ b.1) :
    ∃ p bs', Ascending (p :: bs') ∧ p.2 < t ∧ bs'.getLastD p = bs.getLastD (0, 0) ∧
      (∀ t', t ≤ t' → walk t' (0, 0) bs = walk t' p bs') ∧
        ∀ t', t ≤ t' → bs.find? (fun b => decide (t' ≤ b.2)) =
          bs'.find? fun b => decide (t' ≤ b.2) := by
  cases bs with
  | nil => exact ⟨(0, 0), [], List.pairwise_singleton _ _, ht, rfl, fun _ _ => rfl, fun _ _ => rfl⟩
  | cons b bs =>
    by_cases hb : t ≤ b.2
    · have hbound := hstart b rfl hb
      refine ⟨(0, 0), b :: bs, Ascending.cons_iff.mpr ⟨fun a ha => ⟨?_, hnonneg a ha⟩, h⟩, ht, rfl,
        fun _ _ => rfl, fun _ _ => rfl⟩
      rcases List.mem_cons.mp ha with rfl | ha
      · exact hbound
      · exact hbound.trans ((Ascending.cons_iff.mp h).1 a ha).1
    · -- the lowest bucket is passed
      refine ⟨b, bs, h, not_le.mp hb, (List.getLastD_cons ..).symm, fun t' ht' => ?_,
        fun t' ht' => ?_⟩
      · rw [walk, if_neg fun hle => hb (ht'.trans hle)]
      · rw [List.find?_cons_of_neg (by simpa using (not_le.mp hb).trans_le ht')]

/-! ### Where counts may decrease -/

theorem lt_interpolate (hwidth : p.1 < b.1) (hlt : p.2 < b.2) (ht : p.2 < t) :
    p.1 < interpolate p b t :=
  lt_add_of_pos_right _ (mul_pos (div_pos (sub_pos.mpr ht) (sub_pos.mpr hlt))
    (sub_pos.mpr hwidth))

theorem interpolate_lt_interpolate (hwidth : p.1 < b.1) (hlt : p.2 < b.2) (h : t < t') :
    interpolate p b t < interpolate p b t' := by
  have hcount : 0 < b.2 - p.2 := sub_pos.mpr hlt
  have hfrac : (t - p.2) / (b.2 - p.2) < (t' - p.2) / (b.2 - p.2) :=
    div_lt_div_of_pos_right (sub_lt_sub_right h _) hcount
  rw [interpolate, interpolate]
  exact add_lt_add_right (mul_lt_mul_of_pos_right hfrac (sub_pos.mpr hwidth)) _

/-- The place of a count that is reached is above the lower bound, whatever the counts. -/
theorem lt_walk (h : (p :: bs).Pairwise fun a b => a.1 < b.1) (ht : p.2 < t)
    (hreach : ∃ b ∈ bs, t ≤ b.2) : p.1 < walk t p bs := by
  induction bs generalizing p with
  | nil => exact absurd hreach (by simp)
  | cons b bs ih =>
    obtain ⟨hfirst, hrest⟩ := List.pairwise_cons.mp h
    have hwidth := hfirst b (List.mem_cons_self ..)
    rw [walk]
    split_ifs with hb
    · exact lt_interpolate hwidth (ht.trans_le hb) ht
    · obtain ⟨a, ha, hta⟩ := hreach
      rcases List.mem_cons.mp ha with rfl | ha
      · exact absurd hta hb
      · exact hwidth.trans (ih hrest (not_le.mp hb) ⟨a, ha, hta⟩)

/-- **A greater count that is reached has a greater place**, whatever the counts. -/
theorem walk_lt_walk (h : (p :: bs).Pairwise fun a b => a.1 < b.1) (ht : p.2 < t) (htt' : t < t')
    (hreach : ∃ b ∈ bs, t' ≤ b.2) : walk t p bs < walk t' p bs := by
  induction bs generalizing p with
  | nil => exact absurd hreach (by simp)
  | cons b bs ih =>
    obtain ⟨hfirst, hrest⟩ := List.pairwise_cons.mp h
    have hwidth := hfirst b (List.mem_cons_self ..)
    have hlater : ¬t' ≤ b.2 → ∃ a ∈ bs, t' ≤ a.2 := by
      rintro hb
      obtain ⟨a, ha, hta⟩ := hreach
      rcases List.mem_cons.mp ha with rfl | ha
      · exact absurd hta hb
      · exact ⟨a, ha, hta⟩
    rw [walk, walk]
    split_ifs with hb hb' hb'
    · exact interpolate_lt_interpolate hwidth (ht.trans_le hb) htt'
    · -- the bound lies between the two places
      have hlt := ht.trans_le hb
      calc
        interpolate p b t ≤ interpolate p b b.2 := interpolate_mono hwidth.le hlt hb
        _ = b.1 := interpolate_upper hlt
        _ < walk t' b bs := lt_walk hrest (not_le.mp hb') (hlater hb')
    · exact absurd (htt'.le.trans hb') hb
    · exact ih hrest (not_le.mp hb) (hlater hb')

omit [LinearOrder K] [IsStrictOrderedRing K] in
theorem interpolate_zero (b : K × K) (t : K) : interpolate (0, 0) b t = t / b.2 * b.1 := by
  rw [interpolate, zero_add, sub_zero, sub_zero, sub_zero]

/-- **When two counts have one place**, walking from zero: the lowest bucket holds both and ends at
zero, or it ends below zero and holds the lesser one only, at the place of the greater. -/
theorem walk_eq_walk_iff (h : (b :: bs).Pairwise fun a b => a.1 < b.1) (ht : 0 < t) (htt' : t < t')
    (hreach : ∃ a ∈ b :: bs, t' ≤ a.2) :
    walk t (0, 0) (b :: bs) = walk t' (0, 0) (b :: bs) ↔
      b.1 = 0 ∧ t' ≤ b.2 ∨ b.1 < 0 ∧ t ≤ b.2 ∧ b.2 < t' ∧ walk t' b bs = t / b.2 * b.1 := by
  have hlater : ¬t' ≤ b.2 → ∃ a ∈ bs, t' ≤ a.2 := by
    rintro hb
    obtain ⟨a, ha, hta⟩ := hreach
    rcases List.mem_cons.mp ha with rfl | ha
    · exact absurd hta hb
    · exact ⟨a, ha, hta⟩
  rw [walk, walk]
  split_ifs with hb hb' hb'
  · -- one bucket holds both
    have hne : t / b.2 ≠ t' / b.2 := (div_lt_div_of_pos_right htt' (ht.trans_le hb)).ne
    rw [interpolate_zero, interpolate_zero, mul_eq_mul_right_iff]
    simp [hne, hb', not_lt.mpr hb']
  · rw [interpolate_zero]
    have hpos := ht.trans_le hb
    have habove := lt_walk h (not_le.mp hb') (hlater hb')
    rcases lt_or_ge b.1 0 with hneg | hnonneg
    · simp [hb, not_le.mp hb', hneg, hneg.ne, eq_comm]
    · -- the place of the lesser count is not above the bound
      have hle : t / b.2 * b.1 ≤ b.1 :=
        mul_le_of_le_one_left hnonneg ((div_le_one hpos).mpr hb)
      exact iff_of_false (hle.trans_lt habove).ne (by simp [hb', not_lt.mpr hnonneg])
  · exact absurd (htt'.le.trans hb') hb
  · have hlt := walk_lt_walk h (not_le.mp hb) htt' (hlater hb')
    exact iff_of_false hlt.ne (by simp [hb, hb'])

end Cumulative
