import Mathlib.Algebra.BigOperators.Group.List.Basic
import Mathlib.Data.Rat.Floor
import Mathlib.Tactic.Positivity
import Skaldberg.Prometheus.Float

/-!
# Exact values

The doubles as the numbers they stand for, with the infinities and the value that is no number:
arithmetic is that of the rational numbers, without rounding, and the order is theirs. This is the
arithmetic in which two computations of the same quantity in different orders agree, so that the
query and the program can be compared (`Skaldberg.Exact.sum_perm`,
`Skaldberg.Exact.fmin_right_comm`).

Addition is a commutative monoid on all values. Minima and maxima are taken on numbers only, where
the order of the program and that of the query engine are one.
-/

namespace Skaldberg

/-- Rational numbers and the values that are no numbers. -/
inductive Exact
  /-- A number. -/
  | num (q : ℚ)
  /-- Positive infinity. -/
  | inf
  /-- Negative infinity. -/
  | negInf
  /-- Not a number. -/
  | nan
  deriving DecidableEq

namespace Exact

/-- Where a value stands among the infinities: below, among or above the numbers. -/
def rank : Exact → ℤ
  | negInf => 0
  | num _ => 1
  | inf => 2
  | nan => 3

/-- The number of a value that is one. -/
def toRat : Exact → ℚ
  | num q => q
  | _ => 0

/-- The total order: negative infinity, the numbers, infinity, and what is no number. -/
def totalLe (x y : Exact) : Bool :=
  decide (x.rank < y.rank) || decide (x.rank = y.rank ∧ x.toRat ≤ y.toRat)

/-- The negation of a value. -/
def neg : Exact → Exact
  | num q => num (-q)
  | inf => negInf
  | negInf => inf
  | nan => nan

/-- Addition. -/
def add : Exact → Exact → Exact
  | num p, num q => num (p + q)
  | nan, _ => nan
  | _, nan => nan
  | inf, negInf => nan
  | negInf, inf => nan
  | inf, _ => inf
  | negInf, _ => negInf
  | _, y => y

/-- The infinity with the sign of a number, and no number for zero. -/
def infOf (q : ℚ) : Exact := if 0 < q then inf else if q < 0 then negInf else nan

/-- Multiplication. -/
def mul : Exact → Exact → Exact
  | num p, num q => num (p * q)
  | nan, _ => nan
  | _, nan => nan
  | inf, num q => infOf q
  | num q, inf => infOf q
  | negInf, num q => infOf (-q)
  | num q, negInf => infOf (-q)
  | inf, inf => inf
  | negInf, negInf => inf
  | _, _ => negInf

/-- Division. -/
def div : Exact → Exact → Exact
  | num p, num q => if q = 0 then infOf p else num (p / q)
  | num _, inf => num 0
  | num _, negInf => num 0
  | inf, num q => if q < 0 then negInf else inf
  | negInf, num q => if q < 0 then inf else negInf
  | _, _ => nan

/-- A quotient rounded towards zero. -/
def truncate (q : ℚ) : ℤ := if 0 ≤ q then ⌊q⌋ else ⌈q⌉

/-- The remainder, with the sign of the dividend. -/
def rem : Exact → Exact → Exact
  | num p, num q => if q = 0 then nan else num (p - truncate (p / q) * q)
  | num p, inf => num p
  | num p, negInf => num p
  | _, _ => nan

/-- The power with an integer exponent; the other powers are not kept. -/
def powf : Exact → Exact → Exact
  | num p, num q =>
    if q.den = 1 then if p = 0 ∧ q < 0 then inf else num (p ^ q.num) else nan
  | _, _ => nan

/-- The number a run of decimal digits spells. -/
def digits (cs : List Char) : Option ℚ :=
  if cs.isEmpty then none
  else
    cs.foldlM (fun (n : ℚ) c =>
      if c.isDigit then some (10 * n + (c.toNat - '0'.toNat : ℕ)) else none) 0

/-- The number that digits spell, with possibly a point among them. -/
def mantissa (cs : List Char) : Option ℚ :=
  match cs.splitOn '.' with
  | [whole] => digits whole
  | [whole, fraction] =>
    (digits (whole ++ fraction)).map fun n => n / (10 : ℚ) ^ fraction.length
  | _ => none

/-- A text with the sign in front of it, if any. -/
def signed (cs : List Char) : Bool × List Char :=
  match cs with
  | '-' :: cs => (true, cs)
  | '+' :: cs => (false, cs)
  | cs => (false, cs)

/-- The power of ten of an exponent. -/
def exponent (cs : List Char) : Option ℚ :=
  let (negative, cs) := signed cs
  (digits cs).map fun n => (10 : ℚ) ^ (if negative then -n.num else n.num)

/-- The number a text in lower case spells: a mantissa, and possibly an exponent. -/
def decimal (cs : List Char) : Option ℚ :=
  match cs.splitOn 'e' with
  | [m] => mantissa m
  | [m, e] => Option.map₂ (· * ·) (mantissa m) (exponent e)
  | _ => none

/-- The value a text spells. -/
def parse (s : String) : Option Exact :=
  let (negative, cs) := signed (s.toLower.toList)
  let value :=
    if cs = "inf".toList ∨ cs = "infinity".toList then some inf
    else if cs = "nan".toList then some nan
    else (decimal cs).map num
  if negative then value.map neg else value

/-- A comparison that fails as soon as one side is no number. -/
def ieee (p : Exact → Exact → Bool) (x y : Exact) : Bool := x != nan && y != nan && p x y

instance : F64 Exact where
  ofInt n := num n
  inf := inf
  negInf := negInf
  add := add
  sub x y := add x y.neg
  mul := mul
  div := div
  rem := rem
  powf := powf
  fmin x y := if x = nan then y else if y = nan then x else if totalLe x y then x else y
  fmax x y := if x = nan then y else if y = nan then x else if totalLe x y then y else x
  eq := ieee fun x y => x == y
  lt := ieee fun x y => !totalLe y x
  le := ieee totalLe
  totalLe := totalLe
  isFinite x := decide (x.rank = 1)
  isNan x := decide (x = nan)
  parse := parse
  tryCast := parse
  toUsize x := (truncate x.toRat).toNat

/-! ### Order -/

theorem totalLe_total (x y : Exact) : totalLe x y = true ∨ totalLe y x = true := by
  simp only [totalLe, Bool.or_eq_true, decide_eq_true_eq]
  rcases lt_trichotomy x.rank y.rank with h | h | h
  · exact Or.inl (Or.inl h)
  · rcases le_total x.toRat y.toRat with hq | hq
    · exact Or.inl (Or.inr ⟨h, hq⟩)
    · exact Or.inr (Or.inr ⟨h.symm, hq⟩)
  · exact Or.inr (Or.inl h)

theorem totalLe_trans {x y z : Exact} (hxy : totalLe x y = true) (hyz : totalLe y z = true) :
    totalLe x z = true := by
  simp only [totalLe, Bool.or_eq_true, decide_eq_true_eq] at hxy hyz ⊢
  rcases hxy with hxy | ⟨hxy, hxy'⟩ <;> rcases hyz with hyz | ⟨hyz, hyz'⟩
  · exact Or.inl (hxy.trans hyz)
  · exact Or.inl (hxy.trans_eq hyz)
  · exact Or.inl (hxy.trans_lt hyz)
  · exact Or.inr ⟨hxy.trans hyz, hxy'.trans hyz'⟩

theorem totalLe_antisymm {x y : Exact} (hxy : totalLe x y = true) (hyx : totalLe y x = true) :
    x = y := by
  simp only [totalLe, Bool.or_eq_true, decide_eq_true_eq] at hxy hyx
  have hrank : x.rank = y.rank := by omega
  have hrat : x.toRat = y.toRat := by
    refine le_antisymm ?_ ?_
    · exact (hxy.resolve_left (by omega)).2
    · exact (hyx.resolve_left (by omega)).2
  cases x <;> cases y <;> simp_all [rank, toRat]

/-! ### Sums -/

theorem add_comm (x y : Exact) : add x y = add y x := by
  cases x <;> cases y <;> simp [add, AddCommMagma.add_comm]

theorem add_assoc (x y z : Exact) : add (add x y) z = add x (add y z) := by
  cases x <;> cases y <;> cases z <;> simp [add, AddSemigroup.add_assoc]

/-- **A sum does not depend on the order of its terms.** -/
theorem sum_perm {xs ys : List Exact} (h : xs.Perm ys) : F64.sum xs = F64.sum ys := by
  have : RightCommutative (F64.add (F := Exact)) := ⟨fun x y z => by
    change add (add x y) z = add (add x z) y
    rw [add_assoc, add_comm y z, add_assoc]⟩
  exact h.foldl_eq _

/-! ### Numbers -/

/-- A value is a number. -/
def IsNum (x : Exact) : Prop := ∃ q, x = num q

theorem isFinite_iff {x : Exact} : F64.isFinite x = true ↔ x.IsNum := by
  change decide (x.rank = 1) = true ↔ _
  cases x <;> simp [rank, IsNum]

instance (x : Exact) : Decidable x.IsNum := decidable_of_iff _ isFinite_iff

@[simp] theorem totalLe_num (p q : ℚ) : totalLe (num p) (num q) = decide (p ≤ q) := by
  simp [totalLe, rank, toRat]

@[simp] theorem lt_num (p q : ℚ) : F64.lt (num p) (num q) = decide (p < q) := by
  change ieee (fun x y => !totalLe y x) (num p) (num q) = _
  simp [ieee, ← not_le]

@[simp] theorem le_num (p q : ℚ) : F64.le (num p) (num q) = decide (p ≤ q) := by
  change ieee totalLe (num p) (num q) = _
  simp [ieee]

theorem fmin_num (p q : ℚ) : F64.fmin (num p) (num q) = num (min p q) := by
  change (if num p = nan then _ else if num q = nan then _ else _) = _
  rw [if_neg (by simp), if_neg (by simp), totalLe_num, min_def]
  simp only [decide_eq_true_eq]
  split_ifs <;> rfl

theorem fmax_num (p q : ℚ) : F64.fmax (num p) (num q) = num (max p q) := by
  change (if num p = nan then _ else if num q = nan then _ else _) = _
  rw [if_neg (by simp), if_neg (by simp), totalLe_num, max_def]
  simp only [decide_eq_true_eq]
  split_ifs <;> rfl

@[simp] theorem add_num (p q : ℚ) : F64.add (num p) (num q) = num (p + q) := rfl

@[simp] theorem sub_num (p q : ℚ) : F64.sub (num p) (num q) = num (p - q) :=
  congrArg num (sub_eq_add_neg p q).symm

@[simp] theorem mul_num (p q : ℚ) : F64.mul (num p) (num q) = num (p * q) := rfl

theorem div_num (p : ℚ) {q : ℚ} (hq : q ≠ 0) : F64.div (num p) (num q) = num (p / q) :=
  if_neg hq

@[simp] theorem ofInt_eq (n : ℤ) : (F64.ofInt n : Exact) = num n := rfl

/-- A list of numbers is the list of some rational numbers. -/
theorem exists_map_num {xs : List Exact} (h : ∀ x ∈ xs, x.IsNum) :
    ∃ qs : List ℚ, xs = qs.map num := by
  induction xs with
  | nil => exact ⟨[], rfl⟩
  | cons x xs ih =>
    obtain ⟨q, rfl⟩ := h x (List.mem_cons_self ..)
    obtain ⟨qs, rfl⟩ := ih fun y hy => h y (List.mem_cons_of_mem _ hy)
    exact ⟨q :: qs, rfl⟩

theorem foldl_fmin_num (p : ℚ) (qs : List ℚ) :
    (qs.map num).foldl F64.fmin (num p) = num (qs.foldl min p) := by
  induction qs generalizing p with
  | nil => rfl
  | cons q qs ih => rw [List.map_cons, List.foldl_cons, fmin_num, ih, List.foldl_cons]

theorem foldl_fmax_num (p : ℚ) (qs : List ℚ) :
    (qs.map num).foldl F64.fmax (num p) = num (qs.foldl max p) := by
  induction qs generalizing p with
  | nil => rfl
  | cons q qs ih => rw [List.map_cons, List.foldl_cons, fmax_num, ih, List.foldl_cons]

theorem fmin_inf_num (q : ℚ) : F64.fmin inf (num q) = num q := by
  change (if inf = nan then _ else if num q = nan then _ else _) = _
  simp [totalLe, rank]

theorem fmax_negInf_num (q : ℚ) : F64.fmax negInf (num q) = num q := by
  change (if negInf = nan then _ else if num q = nan then _ else _) = _
  simp [totalLe, rank]

/-- **A minimum does not depend on the order of its numbers**, wherever it starts. -/
theorem fmin_right_comm (z : Exact) (p q : ℚ) :
    F64.fmin (F64.fmin z (num p)) (num q) = F64.fmin (F64.fmin z (num q)) (num p) := by
  cases z with
  | num r => rw [fmin_num, fmin_num, fmin_num, fmin_num, min_right_comm]
  | inf => rw [fmin_inf_num, fmin_inf_num, fmin_num, fmin_num, min_comm]
  | negInf => rfl
  | nan =>
    change F64.fmin (num p) (num q) = F64.fmin (num q) (num p)
    rw [fmin_num, fmin_num, min_comm]

theorem fmax_right_comm (z : Exact) (p q : ℚ) :
    F64.fmax (F64.fmax z (num p)) (num q) = F64.fmax (F64.fmax z (num q)) (num p) := by
  cases z with
  | num r => rw [fmax_num, fmax_num, fmax_num, fmax_num, max_right_comm]
  | inf => rfl
  | negInf => rw [fmax_negInf_num, fmax_negInf_num, fmax_num, fmax_num, max_comm]
  | nan =>
    change F64.fmax (num p) (num q) = F64.fmax (num q) (num p)
    rw [fmax_num, fmax_num, max_comm]

theorem isNum_sum {xs : List Exact} (h : ∀ x ∈ xs, x.IsNum) : (F64.sum xs).IsNum := by
  obtain ⟨qs, rfl⟩ := exists_map_num h
  have hfold : ∀ (qs : List ℚ) (p : ℚ),
      ((qs.map num).foldl F64.add (num p)).IsNum := by
    intro qs
    induction qs with
    | nil => exact fun p => ⟨p, rfl⟩
    | cons q qs ih => exact fun p => ih (p + q)
  exact hfold qs _

end Exact

end Skaldberg
