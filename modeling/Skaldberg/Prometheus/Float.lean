import Mathlib.Data.Int.Basic

/-!
# Double-precision values

The queries compute on double-precision floats, whose rounding this development says nothing
about: a type of values is anything with the operations the program uses (`Skaldberg.F64`),
and the results that do not depend on arithmetic hold for all of them.

The operations come in pairs where the program reaches a value by two roads. A comparison in
Rust is the IEEE one, in which a not-a-number is neither above, below nor equal; a
comparison or a sort in the query engine is the total order, in which it has a place. And a
text is read as a number by the standard library on one road and by a `TRY_CAST` on the other.

`Skaldberg.Whole` is an instance that computes: the doubles that are whole numbers, on which
double arithmetic is exact, with the infinities.
-/

namespace Skaldberg

/-- The operations on doubles that the program uses. -/
class F64 (F : Type) where
  /-- The double of an integer that one represents, as in `n as f64`. -/
  ofInt : ℤ → F
  /-- Positive infinity. -/
  inf : F
  /-- Negative infinity. -/
  negInf : F
  /-- Addition. -/
  add : F → F → F
  /-- Subtraction. -/
  sub : F → F → F
  /-- Multiplication. -/
  mul : F → F → F
  /-- Division. -/
  div : F → F → F
  /-- The remainder, with the sign of the dividend. -/
  rem : F → F → F
  /-- The power. -/
  powf : F → F → F
  /-- The lesser of two values, the other one when one is not a number. -/
  fmin : F → F → F
  /-- The greater of two values, the other one when one is not a number. -/
  fmax : F → F → F
  /-- `==` in Rust. -/
  eq : F → F → Bool
  /-- `<` in Rust. -/
  lt : F → F → Bool
  /-- `<=` in Rust. -/
  le : F → F → Bool
  /-- The total order in which the query engine sorts and compares. -/
  totalLe : F → F → Bool
  /-- Neither infinite nor not a number. -/
  isFinite : F → Bool
  /-- Not a number. -/
  isNan : F → Bool
  /-- `str::parse::<f64>`. -/
  parse : String → Option F
  /-- `TRY_CAST(… AS DOUBLE)`. -/
  tryCast : String → Option F
  /-- `as usize`: rounded towards zero, and saturating. -/
  toUsize : F → ℕ

namespace F64

variable {F : Type} [F64 F]

/-- Infinite, with either sign. -/
def isInfinite (x : F) : Bool := !isFinite x && !isNan x

/-- The sum of a list of values, from the left. -/
def sum (xs : List F) : F := xs.foldl add (ofInt 0)

/-- `=` in the query engine. -/
def sqlEq (x y : F) : Bool := totalLe x y && totalLe y x

/-- `<` in the query engine. -/
def sqlLt (x y : F) : Bool := !totalLe y x

end F64

/-! ### Whole doubles -/

/-- The doubles that are whole numbers, and the values that are no numbers. -/
inductive Whole
  /-- A whole number. -/
  | num (n : ℤ)
  /-- Positive infinity. -/
  | inf
  /-- Negative infinity. -/
  | negInf
  /-- Not a number. -/
  | nan
  deriving DecidableEq

namespace Whole

/-- Where a value stands among the infinities: below, among or above the numbers. -/
def rank : Whole → ℤ
  | negInf => 0
  | num _ => 1
  | inf => 2
  | nan => 3

/-- The whole number of a value that is one. -/
def toInt : Whole → ℤ
  | num n => n
  | _ => 0

/-- The total order: negative infinity, the numbers, infinity, and what is no number. -/
def totalLe (x y : Whole) : Bool :=
  decide (x.rank < y.rank) || decide (x.rank = y.rank ∧ x.toInt ≤ y.toInt)

/-- The negation of a value. -/
def neg : Whole → Whole
  | num n => num (-n)
  | inf => negInf
  | negInf => inf
  | nan => nan

/-- Addition. -/
def add : Whole → Whole → Whole
  | num m, num n => num (m + n)
  | nan, _ => nan
  | _, nan => nan
  | inf, negInf => nan
  | negInf, inf => nan
  | inf, _ => inf
  | negInf, _ => negInf
  | _, y => y

/-- The infinity with the sign of a whole number, and no number for zero. -/
def infOf (n : ℤ) : Whole := if 0 < n then inf else if n < 0 then negInf else nan

/-- Multiplication. -/
def mul : Whole → Whole → Whole
  | num m, num n => num (m * n)
  | nan, _ => nan
  | _, nan => nan
  | inf, num n => infOf n
  | num n, inf => infOf n
  | negInf, num n => infOf (-n)
  | num n, negInf => infOf (-n)
  | inf, inf => inf
  | negInf, negInf => inf
  | _, _ => negInf

/-- Division, where the quotient is a whole number; the other quotients are not kept. -/
def div : Whole → Whole → Whole
  | num m, num n => if n = 0 then infOf m else if m % n = 0 then num (m / n) else nan
  | num _, inf => num 0
  | num _, negInf => num 0
  | inf, num n => if n < 0 then negInf else inf
  | negInf, num n => if n < 0 then inf else negInf
  | _, _ => nan

/-- The remainder, with the sign of the dividend. -/
def rem : Whole → Whole → Whole
  | num m, num n => if n = 0 then nan else num (m.tmod n)
  | num m, inf => num m
  | num m, negInf => num m
  | _, _ => nan

/-- The power of a whole number with a natural exponent; the other powers are not kept. -/
def powf : Whole → Whole → Whole
  | num m, num n => if 0 ≤ n then num (m.pow n.toNat) else nan
  | _, _ => nan

/-- The whole number a run of decimal digits spells. -/
def digits (cs : List Char) : Option ℤ :=
  if cs.isEmpty then none
  else
    cs.foldlM (fun n c =>
      if c.isDigit then some (10 * n + (c.toNat - '0'.toNat : ℕ)) else none) 0

/-- The value a text spells, where it is a whole number or an infinity. -/
def parse (s : String) : Option Whole :=
  match s.toList with
  | '-' :: cs => (digits cs).map fun n => num (-n)
  | '+' :: 'I' :: 'n' :: 'f' :: [] => some inf
  | '+' :: 'i' :: 'n' :: 'f' :: [] => some inf
  | 'I' :: 'n' :: 'f' :: 'i' :: 'n' :: 'i' :: 't' :: 'y' :: [] => some inf
  | cs => (digits cs).map num

/-- A comparison that fails as soon as one side is no number. -/
def ieee (p : Whole → Whole → Bool) (x y : Whole) : Bool := x != nan && y != nan && p x y

instance : F64 Whole where
  ofInt := num
  inf := inf
  negInf := negInf
  add := add
  sub x y := add x y.neg
  mul := mul
  div := div
  rem := rem
  powf := powf
  fmin x y := if x = nan then y else if y = nan then x else if totalLe x y then x else y
  fmax x y := if x = nan then y else if y = nan then x else if totalLe x y then y else x
  eq := ieee fun x y => x == y
  lt := ieee fun x y => !totalLe y x
  le := ieee totalLe
  totalLe := totalLe
  isFinite x := decide (x.rank = 1)
  isNan x := decide (x = nan)
  parse := parse
  tryCast := parse
  toUsize x := x.toInt.toNat

end Whole

end Skaldberg
