import Reckoner.Proofs.Binary.Factor

/-! Multiplication by a factor, and division by it again. The product is rounded, and the quotient may
come out one unit beside the number. It does not if the product is a double, nor if the leading bits
of the two factors give the leading bit of the product without a carry. -/
namespace Reckoner.Binary

/-- Whether the leading bit of a product is where the leading bits of its factors put it. -/
def NoCarry (p q : ℚ) : Prop := Int.log 2 |p * q| = Int.log 2 |p| + Int.log 2 |q|

theorem noCarry_natCast_iff {k l : ℕ} :
    NoCarry k l ↔ Nat.log 2 (k * l) = Nat.log 2 k + Nat.log 2 l := by
  rw [NoCarry, ← Nat.cast_mul, Nat.abs_cast, Nat.abs_cast, Nat.abs_cast, Int.log_natCast,
    Int.log_natCast, Int.log_natCast]
  norm_cast

section

variable {p q : ℚ}

theorem two_zpow_log_le (notZero : p ≠ 0) : (2 : ℚ) ^ Int.log 2 |p| ≤ |p| := by
  exact_mod_cast Int.zpow_log_le_self Nat.one_lt_two (abs_pos.mpr notZero)

theorem log_nonneg (one : 1 ≤ |p|) : 0 ≤ Int.log 2 |p| :=
  (Int.zpow_le_iff_le_log Nat.one_lt_two (one_pos.trans_le one)).mp (by simpa using one)

theorem quantum_of_one_le (one : 1 ≤ |p|) : quantum p = Int.log 2 |p| - 52 := by
  have nonneg := log_nonneg one
  unfold quantum
  omega

theorem one_le_abs_mul (hp : 1 ≤ |p|) (hq : 1 ≤ |q|) : 1 ≤ |p * q| := by
  rw [abs_mul]
  exact one_le_mul_of_one_le_of_one_le hp hq

/-- The factor times a power of two is a double. -/
theorem IsDouble.mul_of_power {j : ℤ} (double : IsDouble q) (one : 1 ≤ |q|) (least : 0 ≤ j)
    (power : |p| = 2 ^ j) : IsDouble (p * q) := by
  have product := double.two_zpow_mul one (by omega : -1021 ≤ j)
  rw [← power] at product
  rcases abs_choice p with same | opposite
  · rwa [same] at product
  · rw [opposite, neg_mul] at product
    exact neg_neg (p * q) ▸ product.neg

theorem rounded_mul_div_of_isDouble (hp : IsDouble p) (notZero : q ≠ 0) (double : IsDouble (p * q)) :
    rounded (rounded (p * q) / q) = p := by
  rw [rounded_of_isDouble double, mul_div_cancel_right₀ _ notZero, rounded_of_isDouble hp]

/-- Without a carry the product is off by half a unit of the first factor at most, and by less unless
nothing had to be rounded. -/
theorem rounded_mul_div_of_noCarry (hp : IsDouble p) (hq : IsDouble q) (oneP : 1 ≤ |p|)
    (oneQ : 1 ≤ |q|) (noCarry : NoCarry p q) : rounded (rounded (p * q) / q) = p := by
  have notZero : q ≠ 0 := abs_pos.mp (one_pos.trans_le oneQ)
  have unitP := quantum_of_one_le oneP
  have nonneg := log_nonneg oneP
  have scale := two_zpow_pos (quantum p)
  obtain ⟨k, same⟩ : ∃ k : ℤ, p = k * 2 ^ quantum p := ⟨_, (rounded_of_isDouble hp).symm⟩
  have size : |p| = |(k : ℚ)| * 2 ^ quantum p := by
    conv_lhs => rw [same]
    rw [abs_mul, abs_of_pos scale]
  have high : |k| < 2 ^ 53 := by
    have short := abs_lt_two_zpow_quantum p
    rw [size] at short
    exact_mod_cast lt_of_mul_lt_mul_right short scale.le
  have low : 2 ^ 52 ≤ |k| := by
    have start := two_zpow_quantum_le (abs_pos.mp (one_pos.trans_le oneP)) (by omega)
    rw [size] at start
    exact_mod_cast le_of_mul_le_mul_right start scale
  rcases low.eq_or_lt with bottom | low'
  · refine rounded_mul_div_of_isDouble hp notZero
      (hq.mul_of_power oneQ (j := 52 + quantum p) (by omega) ?_)
    have leading : |(k : ℚ)| = 2 ^ 52 := by exact_mod_cast bottom.symm
    rw [size, leading, two_pow_mul_zpow]
    norm_num
  have leadingQ := two_zpow_log_le notZero
  rcases leadingQ.eq_or_lt with power | more
  · refine rounded_mul_div_of_isDouble hp notZero ?_
    rw [mul_comm]
    exact hp.mul_of_power oneP (log_nonneg oneQ) power.symm
  have unit : quantum (p * q) = quantum p + Int.log 2 |q| := by
    rw [quantum_of_one_le (one_le_abs_mul oneP oneQ), noCarry, unitP]
    ring
  have error := abs_rounded_sub_le_quantum (p * q)
  rw [unit, two_zpow_add] at error
  have near : |rounded (p * q) / q / 2 ^ quantum p - k| < 1 / 2 := by
    have distance : |rounded (p * q) / q - p| = |rounded (p * q) - p * q| / |q| := by
      rw [← abs_div, sub_div, mul_div_cancel_right₀ _ notZero]
    have bound : |rounded (p * q) / q - p| < 2 ^ quantum p / 2 := by
      rw [distance, div_lt_iff₀ (one_pos.trans_le oneQ)]
      have strict := mul_lt_mul_of_pos_left more scale
      linarith
    have counted := abs_sub_mul scale (rounded (p * q) / q) k
    rw [← same] at counted
    rw [counted] at bound
    exact lt_of_mul_lt_mul_right (by linarith) scale.le
  rw [rounded_of_isNearest ⟨near.le, fun tie => absurd tie near.ne⟩ (le_max_right _ _) low' high]
  exact same.symm

theorem rounded_mul_div (hp : IsDouble p) (hq : IsDouble q) (oneP : 1 ≤ |p|) (oneQ : 1 ≤ |q|)
    (kept : IsDouble (p * q) ∨ NoCarry p q) : rounded (rounded (p * q) / q) = p := by
  rcases kept with double | noCarry
  · exact rounded_mul_div_of_isDouble hp (abs_pos.mp (one_pos.trans_le oneQ)) double
  · exact rounded_mul_div_of_noCarry hp hq oneP oneQ noCarry

/-- The two roundings take the number off by one part in `2 ^ 52` at most. -/
theorem abs_rounded_mul_div_sub_le (hp : IsDouble p) (oneP : 1 ≤ |p|) (oneQ : 1 ≤ |q|) :
    |rounded (rounded (p * q) / q) - p| ≤ |p| / 2 ^ 52 := by
  have posQ := one_pos.trans_le oneQ
  have large : 2 ^ (-1022 : ℤ) ≤ |p * q| :=
    (zpow_le_one_of_nonpos₀ one_le_two (by norm_num)).trans (one_le_abs_mul oneP oneQ)
  have quotient : |rounded (p * q) / q - p| ≤ |p| / 2 ^ 53 :=
    calc |rounded (p * q) / q - p| = |rounded (p * q) - p * q| / |q| := by
          rw [← abs_div, sub_div, mul_div_cancel_right₀ _ (abs_pos.mp posQ)]
      _ ≤ |p * q| / 2 ^ 53 / |q| := div_le_div_of_nonneg_right (abs_rounded_sub_le_mul large) posQ.le
      _ = |p| / 2 ^ 53 := by
          rw [abs_mul, div_right_comm, mul_div_cancel_right₀ _ posQ.ne']
  -- The quotient is rounded to something no further away than the number itself.
  have closer := abs_rounded_sub_le (rounded (p * q) / q) hp
  rw [abs_sub_comm p] at closer
  have triangle := abs_sub_le (rounded (rounded (p * q) / q)) (rounded (p * q) / q) p
  linarith

end

end Reckoner.Binary
