import Mathlib.Data.Nat.Basic
import Mathlib.Tactic.Ring

/-!
# Little-endian integers

An integer written on `w` bytes, least significant byte first, and read back. Writing keeps
the value modulo `256 ^ w` (`fromLe_toLe`), which is the value itself for the integers that
fit (`fromLe_toLe_of_lt`).
-/

/-- The `w` low bytes of `n`, least significant first. -/
def toLe : ℕ → ℕ → List UInt8
  | 0, _ => []
  | w + 1, n => UInt8.ofNat (n % 256) :: toLe w (n / 256)

/-- The integer a list of bytes spells, least significant byte first. -/
def fromLe : List UInt8 → ℕ
  | [] => 0
  | b :: bs => b.toNat + 256 * fromLe bs

@[simp] theorem length_toLe (w n : ℕ) : (toLe w n).length = w := by
  induction w generalizing n with
  | zero => rfl
  | succ w ih => simp [toLe, ih]

theorem fromLe_toLe (w n : ℕ) : fromLe (toLe w n) = n % 256 ^ w := by
  induction w generalizing n with
  | zero => simp [toLe, fromLe, Nat.mod_one]
  | succ w ih =>
    have hb : (UInt8.ofNat (n % 256)).toNat = n % 256 := by
      simp
    rw [toLe, fromLe, ih, hb, pow_succ, Nat.mul_comm, Nat.mul_comm (256 ^ w) 256]
    rw [Nat.mod_mul, Nat.mul_comm]

theorem fromLe_toLe_of_lt {w n : ℕ} (h : n < 256 ^ w) : fromLe (toLe w n) = n := by
  rw [fromLe_toLe, Nat.mod_eq_of_lt h]

theorem fromLe_append (a b : List UInt8) :
    fromLe (a ++ b) = fromLe a + 256 ^ a.length * fromLe b := by
  induction a with
  | nil => simp [fromLe]
  | cons x a ih =>
    rw [List.cons_append, fromLe, fromLe, ih, List.length_cons, pow_succ]
    ring
