import Reckoner.Proofs.Arithmetic.Counting
import Reckoner.Proofs.Arithmetic.Divisor
import Reckoner.Proofs.Binary.Product

/-! Least common multiples. The product is formed before it is divided by the common divisor, so it is
rounded where it has more bits than a double keeps, however small the multiple is. -/
namespace Reckoner.Arithmetic

open Binary

section

variable {a b : Float} {m n : ℤ}

theorem isMultiple_gcd_of_integers (ha : a.isFinite = true) (hb : b.isFinite = true)
    (first : value a = m) (second : value b = n) : IsMultiple 1 (Int.gcd m n) (gcd a b) := by
  have size (k : ℤ) : |(k : ℚ)| = k.natAbs * 1 := by simp
  exact isMultiple_gcd one_pos ha hb (first ▸ size m) (second ▸ size n)

theorem lcm_mul_gcd (m n : ℤ) : (Int.lcm m n : ℚ) * Int.gcd m n = |(m : ℚ) * n| := by
  have product : Int.lcm m n * Int.gcd m n = (m * n).natAbs := by
    rw [Nat.mul_comm, Int.gcd_mul_lcm, Int.natAbs_mul]
  rw [← Int.cast_mul, ← Int.cast_abs, Int.abs_eq_natAbs, ← product]
  push_cast
  rfl

theorem gcd_le_lcm (left : m ≠ 0) (right : n ≠ 0) : Int.gcd m n ≤ Int.lcm m n := by
  refine Nat.le_of_dvd (Nat.pos_of_ne_zero (Int.lcm_ne_zero left right)) ?_
  exact (Nat.gcd_dvd_left _ _).trans (Nat.dvd_lcm_left _ _)

theorem abs_mul_le (small : Int.lcm m n < 2 ^ 53) : |(m : ℚ) * n| ≤ 2 ^ (106 : ℤ) := by
  by_cases zero : m = 0 ∨ n = 0
  · have none : (m : ℚ) * n = 0 := by
      rcases zero with rfl | rfl <;> simp
    rw [none, abs_zero]
    positivity
  · obtain ⟨left, right⟩ := not_or.mp zero
    have divisor := gcd_le_lcm left right
    have product : Int.lcm m n * Int.gcd m n ≤ 2 ^ 53 * 2 ^ 53 :=
      Nat.mul_le_mul small.le (divisor.trans small.le)
    rw [← lcm_mul_gcd]
    calc (Int.lcm m n : ℚ) * Int.gcd m n ≤ 2 ^ 53 * 2 ^ 53 := by exact_mod_cast product
      _ = 2 ^ (106 : ℤ) := by norm_num

/-- The product is rounded, and so is its quotient by the common divisor. -/
theorem isRounding_lcm (ha : a.isFinite = true) (hb : b.isFinite = true) (first : value a = m)
    (second : value b = n) (small : Int.lcm m n < 2 ^ 53) (notZero : Int.gcd m n ≠ 0) :
    IsRounding (rounded (Int.lcm m n * Int.gcd m n) / Int.gcd m n) (lcm a b) := by
  have divisor := isMultiple_gcd_of_integers ha hb first second
  have product := isRounding_mul ha hb
  rw [first, second] at product
  have range : |rounded ((m : ℚ) * n)| < 2 ^ 1024 := by
    refine (abs_rounded_le (isDouble_two_zpow (by norm_num)) (abs_mul_le small)).trans_lt ?_
    exact (zpow_lt_zpow_right₀ (by norm_num) (by norm_num)).trans_eq (zpow_natCast 2 1024)
  obtain ⟨finite, magnitude⟩ := value_abs (product.isFinite range)
  rw [product.value (product.isFinite range), abs_rounded, ← lcm_mul_gcd] at magnitude
  have count : value (gcd a b) = Int.gcd m n := divisor.value_eq.trans (mul_one _)
  have quotient := isRounding_div finite divisor.finite
    (by rw [count]; exact_mod_cast notZero)
  rw [magnitude, count] at quotient
  have nonzero : ¬(gcd a b == 0) = true := mt (divisor.beq_zero_iff one_pos).mp notZero
  rwa [lcm, if_neg nonzero]

theorem isWhole_lcm_of_zero (ha : a.isFinite = true) (hb : b.isFinite = true)
    (first : value a = m) (second : value b = n) (zero : m = 0 ∨ n = 0) :
    IsWhole (lcm a b) 0 := by
  have none : Int.lcm m n = 0 := Int.lcm_eq_zero_iff.mpr zero
  by_cases both : Int.gcd m n = 0
  · have result : lcm a b = 0 :=
      if_pos (((isMultiple_gcd_of_integers ha hb first second).beq_zero_iff one_pos).mpr both)
    rw [result]
    exact isWhole_ofNat (by norm_num)
  · have rounding := isRounding_lcm ha hb first second (none ▸ by norm_num) both
    rw [none, Nat.cast_zero, zero_mul, rounded_zero, zero_div] at rounding
    refine isWhole_of_isRounding (m := 0) ?_ ?_ (by norm_num)
    · rwa [Nat.cast_zero]
    · exact isDouble_natCast (Nat.zero_le _)

theorem one_le_abs_natCast {k : ℕ} (notZero : k ≠ 0) : (1 : ℚ) ≤ |(k : ℚ)| := by
  rw [Nat.abs_cast]
  exact_mod_cast Nat.one_le_iff_ne_zero.mpr notZero

/-- Two roundings take the multiple off by one part in `2 ^ 52` at most, and by nothing at all if the
product is a double or does not carry. -/
theorem lcm_of_nonzero (ha : a.isFinite = true) (hb : b.isFinite = true) (first : value a = m)
    (second : value b = n) (small : Int.lcm m n < 2 ^ 53) (left : m ≠ 0) (right : n ≠ 0) :
    (IsDouble (m * n : ℤ) ∨ NoCarry (Int.lcm m n) (Int.gcd m n) →
      IsWhole (lcm a b) (Int.lcm m n)) ∧
    (lcm a b).isFinite = true ∧
      |value (lcm a b) - Int.lcm m n| ≤ (Int.lcm m n : ℚ) / 2 ^ 52 := by
  have notZero : Int.gcd m n ≠ 0 := fun zero => left (Int.gcd_eq_zero_iff.mp zero).1
  have rounding := isRounding_lcm ha hb first second small notZero
  have double : IsDouble (Int.lcm m n) := isDouble_natCast small.le
  have oneL := one_le_abs_natCast (Int.lcm_ne_zero left right)
  have oneG := one_le_abs_natCast notZero
  have near := abs_rounded_mul_div_sub_le double oneL oneG
  rw [Nat.abs_cast] at near
  have size : (Int.lcm m n : ℚ) ≤ 2 ^ 53 := by exact_mod_cast small.le
  have finite : (lcm a b).isFinite = true := by
    refine rounding.isFinite ?_
    have remains := abs_sub_abs_le_abs_sub
      (rounded (rounded (Int.lcm m n * Int.gcd m n) / Int.gcd m n)) (Int.lcm m n)
    rw [Nat.abs_cast] at remains
    refine lt_of_le_of_lt ?_ (pow_lt_pow_right₀ one_lt_two (by norm_num : 54 < 1024))
    linarith
  have result := rounding.value finite
  refine ⟨fun kept => ⟨finite, ?_⟩, finite, result ▸ near⟩
  rw [result]
  have divisor : IsDouble (Int.gcd m n) :=
    isDouble_natCast ((gcd_le_lcm left right).trans small.le)
  refine rounded_mul_div double divisor oneL oneG (kept.imp_left fun product => ?_)
  rw [lcm_mul_gcd, ← Int.cast_mul]
  exact product.abs

end

/-- The least common multiple of integers is exact if their product is a double, as it is up to
`2 ^ 53`, or has as many bits as the multiple and the divisor have without a carry. It is never off
by more than one part in `2 ^ 52`. -/
theorem lcm_of_integers (a b : Float) (m n : ℤ) (ha : a.isFinite = true) (hb : b.isFinite = true)
    (first : value a = m) (second : value b = n) (small : Int.lcm m n < 2 ^ 53) :
    (m = 0 ∨ n = 0 → IsWhole (lcm a b) 0) ∧
    (IsDouble (m * n : ℤ) ∨ NoCarry (Int.lcm m n) (Int.gcd m n) →
      IsWhole (lcm a b) (Int.lcm m n)) ∧
    (lcm a b).isFinite = true ∧
      |value (lcm a b) - Int.lcm m n| ≤ (Int.lcm m n : ℚ) / 2 ^ 52 := by
  refine ⟨isWhole_lcm_of_zero ha hb first second, ?_⟩
  by_cases zero : m = 0 ∨ n = 0
  · have whole := isWhole_lcm_of_zero ha hb first second zero
    have none : Int.lcm m n = 0 := Int.lcm_eq_zero_iff.mpr zero
    rw [none]
    refine ⟨fun _ => whole, whole.1, ?_⟩
    rw [whole.2]
    norm_num
  · obtain ⟨left, right⟩ := not_or.mp zero
    exact lcm_of_nonzero ha hb first second small left right

/-- The square of this number has 55 bits, but no carry. -/
theorem lcm_of_integers_itself :
    (134217729 : Float).isFinite = true ∧ value 134217729 = (134217729 : ℤ) ∧
      Int.lcm 134217729 134217729 < 2 ^ 53 ∧
      NoCarry (Int.lcm 134217729 134217729) (Int.gcd 134217729 134217729) ∧
      IsWhole (lcm 134217729 134217729) 134217729 := by
  obtain ⟨finite, whole⟩ : IsWhole 134217729 134217729 := isWhole_ofNat (by norm_num)
  have small : Int.lcm 134217729 134217729 < 2 ^ 53 := by decide
  have noCarry : NoCarry (Int.lcm 134217729 134217729) (Int.gcd 134217729 134217729) := by
    rw [noCarry_natCast_iff]
    decide
  exact ⟨finite, whole, small, noCarry,
    (lcm_of_integers 134217729 134217729 134217729 134217729 finite finite whole whole small).2.1
      (.inr noCarry)⟩

/-- The square of this number is rounded down, and the quotient is no integer. -/
theorem lcm_itself_rounds :
    (94906267 : Float).isFinite = true ∧ value 94906267 = (94906267 : ℤ) ∧
      Int.lcm 94906267 94906267 = 94906267 ∧
      value (lcm 94906267 94906267) < 94906267 := by
  refine ⟨?_, ?_, ?_, ?_⟩ <;> decide +kernel

end Reckoner.Arithmetic
