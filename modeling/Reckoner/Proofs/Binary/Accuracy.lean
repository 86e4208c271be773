import Mathlib.Algebra.Order.Ring.Pow
import Reckoner.Proofs.Binary.Rounding

/-! Relative errors, counted in roundings: each takes a number of normal size off by at most one
part in `2 ^ 53`, and the counts add up under products, quotients and further roundings. -/
namespace Reckoner.Binary

/-- What a rounding leaves of a number at least. -/
def kept : ℚ := 1 - 1 / 2 ^ 53

/-- Whether two positive numbers are apart by the error of so many roundings at most. -/
structure IsClose (k : ℕ) (p q : ℚ) : Prop where
  low : p * kept ^ k ≤ q
  high : q * kept ^ k ≤ p

section

variable {i j k : ℕ} {p q r s : ℚ}

theorem abs_rounded_sub_le_mul (large : 2 ^ (-1022 : ℤ) ≤ |q|) :
    |rounded q - q| ≤ |q| / 2 ^ 53 := by
  have start : 2 ^ 52 * 2 ^ quantum q ≤ |q| := by
    by_cases normal : -1074 < quantum q
    · refine two_zpow_quantum_le ?_ normal
      exact abs_pos.mp ((two_zpow_pos _).trans_le large)
    · have least : quantum q = -1074 := le_antisymm (not_lt.mp normal) (le_max_right _ _)
      rw [least, two_pow_mul_zpow]
      exact large
  refine (abs_rounded_sub_le_quantum q).trans ?_
  rw [le_div_iff₀ (by norm_num)]
  linarith

theorem kept_pos : 0 < kept := by norm_num [kept]

theorem kept_pow_pos (k : ℕ) : 0 < kept ^ k := pow_pos kept_pos k

/-- A few roundings leave nearly all. -/
theorem le_kept_pow (k : ℕ) : 1 - (k : ℚ) / 2 ^ 53 ≤ kept ^ k := by
  have bernoulli := one_add_mul_le_pow (by norm_num : (-2 : ℚ) ≤ -(1 / 2 ^ 53)) k
  calc 1 - (k : ℚ) / 2 ^ 53 = 1 + k * -(1 / 2 ^ 53) := by ring
    _ ≤ kept ^ k := by
      rw [kept, sub_eq_add_neg]
      exact bernoulli

namespace IsClose

theorem refl (q : ℚ) : IsClose 0 q q := by
  constructor <;> simp

theorem mono (h : IsClose i p q) (more : i ≤ k) (hp : 0 < p) : IsClose k p q := by
  have fewer : kept ^ k ≤ kept ^ i :=
    pow_le_pow_of_le_one kept_pos.le (by norm_num [kept]) more
  have hq : 0 < q := (mul_pos hp (kept_pow_pos i)).trans_le h.low
  exact ⟨(mul_le_mul_of_nonneg_left fewer hp.le).trans h.low,
    (mul_le_mul_of_nonneg_left fewer hq.le).trans h.high⟩

theorem trans (hp : IsClose i p q) (hq : IsClose j q r) : IsClose (i + j) p r := by
  have posI := kept_pow_pos i
  have posJ := kept_pow_pos j
  constructor
  · rw [pow_add, ← mul_assoc]
    exact (mul_le_mul_of_nonneg_right hp.low posJ.le).trans hq.low
  · rw [pow_add, mul_comm (kept ^ i), ← mul_assoc]
    exact (mul_le_mul_of_nonneg_right hq.high posI.le).trans hp.high

theorem pos (h : IsClose k p q) (hp : 0 < p) : 0 < q :=
  (mul_pos hp (kept_pow_pos k)).trans_le h.low

theorem mul (hpq : IsClose i p q) (hrs : IsClose j r s) (hp : 0 < p) (hr : 0 < r) :
    IsClose (i + j) (p * r) (q * s) := by
  have hq := hpq.pos hp
  have hs := hrs.pos hr
  constructor
  · rw [pow_add, mul_mul_mul_comm]
    exact mul_le_mul hpq.low hrs.low (mul_pos hr (kept_pow_pos j)).le hq.le
  · rw [pow_add, mul_mul_mul_comm]
    exact mul_le_mul hpq.high hrs.high (mul_pos hs (kept_pow_pos j)).le hp.le

theorem inv (h : IsClose k p q) (hp : 0 < p) : IsClose k p⁻¹ q⁻¹ := by
  have hq := h.pos hp
  constructor
  · rw [inv_mul_le_iff₀ hp, ← div_eq_mul_inv, le_div_iff₀ hq, mul_comm]
    exact h.high
  · rw [inv_mul_le_iff₀ hq, ← div_eq_mul_inv, le_div_iff₀ hp, mul_comm]
    exact h.low

theorem div (hpq : IsClose i p q) (hrs : IsClose j r s) (hp : 0 < p) (hr : 0 < r) :
    IsClose (i + j) (p / r) (q / s) := by
  rw [div_eq_mul_inv, div_eq_mul_inv]
  exact hpq.mul (hrs.inv hr) hp (inv_pos.mpr hr)

theorem rounded (large : 2 ^ (-1022 : ℤ) ≤ q) : IsClose 1 q (rounded q) := by
  have positive := (two_zpow_pos (-1022)).trans_le large
  have error := abs_rounded_sub_le_mul (large.trans (le_abs_self q))
  rw [abs_of_pos positive, abs_le] at error
  obtain ⟨low, high⟩ := error
  constructor
  · rw [pow_one, kept]
    linarith
  · have above : Binary.rounded q ≤ q * (1 + 1 / 2 ^ 53) := by linarith
    calc Binary.rounded q * kept ^ 1 ≤ q * (1 + 1 / 2 ^ 53) * kept ^ 1 :=
          mul_le_mul_of_nonneg_right above (kept_pow_pos 1).le
      _ = q * ((1 + 1 / 2 ^ 53) * kept) := by ring
      _ ≤ q := mul_le_of_le_one_right positive.le (by norm_num [kept])

end IsClose

end

end Reckoner.Binary
