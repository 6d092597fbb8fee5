import Mathlib.Algebra.GroupWithZero.Nat

/-!
# Decimal numbers in fields

A number printed in a field of some width has zeros before its digits (`Decimal.field`). Its text
tells the number (`Decimal.field_injective`). Numbers that fit the width have texts of one length
(`Decimal.length_field`), which sort as the numbers do (`Decimal.field_lt_field`), and so do texts
of several fields, one after the other (`Decimal.append_lt_append`).
-/

namespace Decimal

/-- The digits of a number, after the zeros that fill a field. -/
def field (width n : ℕ) : List Char := (Nat.toDigits 10 n).leftpad width '0'

theorem isDigit_of_mem_field {width n : ℕ} {c : Char} (h : c ∈ field width n) : c.isDigit := by
  rcases List.mem_append.mp h with h | h
  · rw [List.eq_of_mem_replicate h]
    rfl
  · exact Nat.isDigit_of_mem_toDigits (by decide) (by decide) h

theorem ofDigitChars_field (width n : ℕ) : Nat.ofDigitChars 10 (field width n) 0 = n := by
  rw [field, List.leftpad, Nat.ofDigitChars_append, Nat.ofDigitChars_replicate_zero, Nat.mul_zero,
    Nat.ofDigitChars_ten_toDigits]

/-- **A field tells its number.** -/
theorem field_injective (width : ℕ) : Function.Injective (field width) := by
  intro m n h
  rw [← ofDigitChars_field width m, h, ofDigitChars_field]

/-- **A field has its width** if the number fits. -/
theorem length_field {width n : ℕ} (hwidth : 0 < width) (h : n < 10 ^ width) :
    (field width n).length = width := by
  have hlen := (Nat.length_toDigits_le_iff (b := 10) (by decide) hwidth).mpr h
  rw [field, List.length_leftpad]
  omega

/-! ### The order of texts -/

theorem toNat_of_isDigit {c : Char} (h : c.isDigit) : 48 ≤ c.toNat ∧ c.toNat ≤ 57 := by
  simp only [Char.isDigit, Bool.and_eq_true, decide_eq_true_eq, UInt32.le_iff_toNat_le] at h
  exact h

theorem ofDigitChars_cons (c : Char) (l : List Char) :
    Nat.ofDigitChars 10 (c :: l) 0 = 10 ^ l.length * (c.toNat - 48) + Nat.ofDigitChars 10 l 0 := by
  rw [Nat.ofDigitChars_cons, Nat.ofDigitChars_eq_ofDigitChars_zero, Nat.mul_zero, Nat.zero_add]
  rfl

theorem ofDigitChars_lt {l : List Char} (h : ∀ c ∈ l, c.isDigit) :
    Nat.ofDigitChars 10 l 0 < 10 ^ l.length := by
  induction l with
  | nil => exact Nat.one_pos
  | cons c l ih =>
    have hl := ih fun c' hc' => h c' (List.mem_cons_of_mem _ hc')
    have hc := toNat_of_isDigit (h c (List.mem_cons_self ..))
    have hmul : 10 ^ l.length * (c.toNat - 48) ≤ 10 ^ l.length * 9 :=
      Nat.mul_le_mul_left _ (by omega)
    rw [ofDigitChars_cons, List.length_cons, Nat.pow_succ]
    omega

/-- Of two texts of digits of one length, the one with the lesser number sorts first. -/
theorem lt_of_ofDigitChars_lt {l l' : List Char} (hl : ∀ c ∈ l, c.isDigit)
    (hl' : ∀ c ∈ l', c.isDigit) (hlen : l.length = l'.length)
    (h : Nat.ofDigitChars 10 l 0 < Nat.ofDigitChars 10 l' 0) : l < l' := by
  induction l generalizing l' with
  | nil =>
    rw [List.eq_nil_of_length_eq_zero hlen.symm] at h
    exact absurd h (Nat.lt_irrefl _)
  | cons c l ih =>
    cases l' with
    | nil => exact absurd hlen (by simp)
    | cons c' l' =>
      have hlen : l.length = l'.length := by simpa using hlen
      have hd := toNat_of_isDigit (hl c (List.mem_cons_self ..))
      have hd' := toNat_of_isDigit (hl' c' (List.mem_cons_self ..))
      have htail := fun c hc => hl c (List.mem_cons_of_mem _ hc)
      have htail' := fun c hc => hl' c (List.mem_cons_of_mem _ hc)
      rw [ofDigitChars_cons, ofDigitChars_cons, hlen] at h
      rw [List.cons_lt_cons_iff]
      -- a greater leading digit outweighs all the digits after it
      rcases Nat.lt_trichotomy c.toNat c'.toNat with hc | hc | hc
      · exact .inl hc
      · rw [hc] at h
        exact .inr ⟨Char.toNat_inj.mp hc, ih htail htail' hlen (Nat.add_lt_add_iff_left.mp h)⟩
      · have hlt := ofDigitChars_lt htail'
        have hmul : 10 ^ l'.length * (c'.toNat - 48 + 1) ≤ 10 ^ l'.length * (c.toNat - 48) :=
          Nat.mul_le_mul_left _ (by omega)
        rw [Nat.mul_succ] at hmul
        omega

/-- **Fields sort as their numbers.** -/
theorem field_lt_field {width m n : ℕ} (hwidth : 0 < width) (hn : n < 10 ^ width) (h : m < n) :
    field width m < field width n := by
  refine lt_of_ofDigitChars_lt (fun c => isDigit_of_mem_field) (fun c => isDigit_of_mem_field) ?_ ?_
  · rw [length_field hwidth hn, length_field hwidth (Nat.lt_trans h hn)]
  · rwa [ofDigitChars_field, ofDigitChars_field]

theorem append_lt_append {a a' b b' : List Char} (hlen : a.length = a'.length)
    (h : a < a' ∨ a = a' ∧ b < b') : a ++ b < a' ++ b' := by
  induction a generalizing a' with
  | nil =>
    rw [List.eq_nil_of_length_eq_zero hlen.symm] at h ⊢
    rcases h with h | ⟨-, h⟩
    · exact absurd h (List.not_lt_nil _)
    · exact h
  | cons c a ih =>
    cases a' with
    | nil => exact absurd hlen (by simp)
    | cons c' a' =>
      have hlen : a.length = a'.length := by simpa using hlen
      rw [List.cons_append, List.cons_append, List.cons_lt_cons_iff]
      rcases h with h | ⟨h, hb⟩
      · rcases List.cons_lt_cons_iff.mp h with hc | ⟨hc, ha⟩
        · exact .inl hc
        · exact .inr ⟨hc, ih hlen (.inl ha)⟩
      · obtain ⟨hc, ha⟩ := List.cons.inj h
        exact .inr ⟨hc, ih hlen (.inr ⟨ha, hb⟩)⟩

/-! ### Fields in a text -/

/-- **A field at the front of a text** is read back. -/
theorem field_append_inj {width m n : ℕ} {l l' : List Char} (hwidth : 0 < width)
    (hm : m < 10 ^ width) (hn : n < 10 ^ width) (h : field width m ++ l = field width n ++ l') :
    m = n ∧ l = l' := by
  have hlen : (field width m).length = (field width n).length := by
    rw [length_field hwidth hm, length_field hwidth hn]
  obtain ⟨hfield, htail⟩ := List.append_inj h hlen
  exact ⟨field_injective width hfield, htail⟩

/-- Texts sort by the field at their front, and then by what comes after it. -/
theorem field_append_lt {width m n : ℕ} {l l' : List Char} (hwidth : 0 < width)
    (hm : m < 10 ^ width) (hn : n < 10 ^ width) (h : m < n ∨ m = n ∧ l < l') :
    field width m ++ l < field width n ++ l' := by
  refine append_lt_append ?_ (h.imp (field_lt_field hwidth hn) ?_)
  · rw [length_field hwidth hm, length_field hwidth hn]
  · rintro ⟨rfl, hl⟩
    exact ⟨rfl, hl⟩

end Decimal
