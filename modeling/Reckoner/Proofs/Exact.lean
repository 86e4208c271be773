import Mathlib.Algebra.BigOperators.Group.List.Basic
import Mathlib.Algebra.Order.Field.Rat
import Mathlib.Algebra.Field.Defs
import Mathlib.Algebra.GroupWithZero.Basic
import Mathlib.Algebra.Ring.Parity
import Reckoner.Arithmetic.Power
import Reckoner.Scalar

/-! Arithmetic without rounding: the rational numbers as numbers that a numeric method is written
over, and what sums, signs and powers are where the order of the operations makes no difference. -/
namespace Reckoner

instance : Scalar ℚ where
  ofNat n := n

@[simp] theorem ofNat_eq_cast (n : ℕ) : (Scalar.ofNat n : ℚ) = n := rfl

section

variable {R : Type} [Ring R]

theorem totalFrom_zero (xs : List R) : totalFrom 0 xs = xs.sum := by
  simp [totalFrom, List.sum_eq_foldl]

theorem total_eq_sum (xs : List R) : total xs = xs.sum := by
  simp [total, totalFrom_zero]

theorem ite_even_eq (k : ℕ) (x : R) : (if k % 2 = 0 then x else -x) = (-1) ^ k * x := by
  split
  · rename_i even
    simp [(Nat.even_iff.mpr even).neg_one_pow]
  · rename_i odd
    simp [(Nat.not_even_iff_odd.mp (mt Nat.even_iff.mp odd)).neg_one_pow]

end

/-- Repeated squaring gives the power. An odd exponent has one factor more than twice its half. -/
theorem Arithmetic.powFrom_eq_mul_pow {M : Type} [Monoid M] (r x : M) (n : ℕ) :
    powFrom r x n = r * x ^ n := by
  induction r, x, n using powFrom.induct with
  | case1 r x n last =>
    rw [powFrom, if_pos last]
    obtain rfl | rfl : n = 0 ∨ n = 1 := by omega
    · rw [if_neg (by decide), pow_zero, mul_one]
    · rw [if_pos rfl, pow_one]
  | case2 r x n r' more ih =>
    have factor : r' = r * x ^ (n % 2) := by
      rcases Nat.mod_two_eq_zero_or_one n with even | odd
      · simp [r', even]
      · simp [r', odd]
    calc powFrom r x n = powFrom r' (x * x) (n / 2) := by rw [powFrom, if_neg more]; rfl
      _ = r * x ^ (n % 2) * (x * x) ^ (n / 2) := by rw [ih, factor]
      _ = r * x ^ n := by rw [← sq, ← pow_mul, mul_assoc, ← pow_add, Nat.mod_add_div]

theorem Arithmetic.integerPower_eq_zpow {K : Type} [DivisionRing K] (x : K) (n : ℤ) :
    integerPower x n = x ^ n := by
  unfold integerPower
  dsimp only
  rw [powFrom_eq_mul_pow, one_mul]
  split
  · rename_i negative
    rw [one_div, ← zpow_natCast, ← zpow_neg, Int.ofNat_natAbs_of_nonpos negative.le, neg_neg]
  · rename_i nonneg
    rw [← zpow_natCast, Int.natAbs_of_nonneg (not_lt.mp nonneg)]

theorem Arithmetic.shortExponent_def (n : ℕ) : shortExponent n = (n : ℤ).bmod (2 ^ 32) := rfl

theorem Arithmetic.shortExponent_eq {n : ℕ} (few : n < 2 ^ 31) : shortExponent n = n := by
  rw [shortExponent_def]
  exact Int.bmod_eq_of_le (by omega) (by omega)

theorem Arithmetic.lt_of_eq_shortExponent {n : ℕ} (same : (n : ℤ) = shortExponent n) :
    n < 2 ^ 31 := by
  have bound : (n : ℤ).bmod (2 ^ 32) < (2 ^ 32 + 1) / 2 := Int.bmod_lt (by decide)
  rw [← shortExponent_def, ← same] at bound
  omega

end Reckoner
