import Reckoner.Proofs.Binary.Accuracy
import Reckoner.Proofs.Binary.Whole

/-! Division by a factor, and multiplication by it again. The product can be another double than the
one that was divided, but it gives the same quotient, and below `2 ^ 51` a whole number is the
nearest to the product. -/
namespace Reckoner.Binary

section

variable {p q n f : ℚ}

/-- A number that is nearest to a point of a grid is rounded to that point, unless it is a power of two,
where the grid changes. -/
theorem rounded_of_isNearest {k t : ℤ} (nearest : IsNearest (p / 2 ^ t) k) (least : -1074 ≤ t)
    (low : 2 ^ 52 < |k|) (high : |k| < 2 ^ 53) : rounded p = k * 2 ^ t := by
  have scale := two_zpow_pos t
  have low' : (2 : ℚ) ^ 52 + 1 ≤ |(k : ℚ)| := by exact_mod_cast low
  have high' : |(k : ℚ)| + 1 ≤ 2 ^ 53 := by exact_mod_cast high
  have size : |p| = |p / 2 ^ t| * 2 ^ t := by
    rw [abs_div, abs_of_pos scale, div_mul_cancel₀ _ scale.ne']
  have close := nearest.close
  have above := abs_sub_abs_le_abs_sub (p / 2 ^ t) k
  have below := abs_sub_abs_le_abs_sub (k : ℚ) (p / 2 ^ t)
  rw [abs_sub_comm] at below
  have grid : quantum p = t := by
    refine quantum_eq least ?_ (.inr ?_) ?_
    · rw [size]
      exact mul_lt_mul_of_pos_right (by linarith) scale
    · rw [size]
      exact mul_le_mul_of_nonneg_right (by linarith) scale.le
    · rw [← abs_pos, size]
      exact mul_pos (by linarith) scale
  rw [rounded, grid, nearest.eq]

/-- A number that is no further from a double than one that is rounded to it is rounded to it too,
if the double is no power of two. -/
theorem rounded_of_closer (closer : |p - rounded q| ≤ |q - rounded q|)
    (low : 2 ^ 52 * 2 ^ quantum q < |rounded q|) (high : |rounded q| < 2 ^ 53 * 2 ^ quantum q) :
    rounded p = rounded q := by
  have scale := two_zpow_pos (quantum q)
  have nearest := isNearest_nearestEven (q / 2 ^ quantum q)
  unfold rounded at closer low high
  rw [rounded.eq_def q]
  have least : -1074 ≤ quantum q := le_max_right _ _
  generalize nearestEven (q / 2 ^ quantum q) = k at *
  generalize quantum q = t at *
  rw [abs_mul, abs_of_pos scale] at low high
  rw [abs_sub_mul scale, abs_sub_mul scale] at closer
  refine rounded_of_isNearest (nearest.of_closer (le_of_mul_le_mul_right closer scale)) least ?_ ?_
  · exact_mod_cast lt_of_mul_lt_mul_right low scale.le
  · exact_mod_cast lt_of_mul_lt_mul_right high scale.le

theorem IsDouble.two_zpow_mul {j : ℤ} (double : IsDouble f) (one : 1 ≤ |f|) (least : -1021 ≤ j) :
    IsDouble (2 ^ j * f) := by
  obtain ⟨k, e, small, _, rfl⟩ := double
  have exponent : -53 < e := by
    have mantissa : |(k : ℚ)| < 2 ^ 53 := by exact_mod_cast small
    have unit := two_zpow_pos e
    rw [abs_mul, abs_of_pos unit] at one
    have inverse : (2 : ℚ) ^ (-53 : ℤ) < 2 ^ e := by
      have bound := one.trans_lt (mul_lt_mul_of_pos_right mantissa unit)
      norm_num at bound ⊢
      linarith
    exact (zpow_lt_zpow_iff_right₀ (by norm_num)).mp inverse
  refine ⟨k, j + e, small, by omega, ?_⟩
  rw [two_zpow_add]
  ring

/-- A quotient that is multiplied by its divisor and divided by it again stays as it is. -/
theorem rounded_div_mul_div (hn : IsDouble n) (hf : IsDouble f) (one : 1 ≤ f)
    (large : 2 ^ (-1021 : ℤ) ≤ |n / f|) :
    rounded (rounded (rounded (n / f) * f) / f) = rounded (n / f) := by
  have posF : 0 < f := one_pos.trans_le one
  have notZero : n / f ≠ 0 := abs_pos.mp ((two_zpow_pos _).trans_le large)
  have normal : -1074 < quantum (n / f) := by
    by_contra least
    have upper := abs_lt_two_zpow_quantum (n / f)
    have power : (2 : ℚ) ^ 53 * 2 ^ quantum (n / f) ≤ 2 ^ (-1021 : ℤ) := by
      rw [two_pow_mul_zpow]
      exact zpow_le_zpow_right₀ (by norm_num) (by push_cast; omega)
    linarith
  have low : 2 ^ 52 * 2 ^ quantum (n / f) ≤ |rounded (n / f)| := by
    have start := two_zpow_quantum_le notZero normal
    rw [two_pow_mul_zpow] at start ⊢
    exact le_abs_rounded (isDouble_two_zpow (by push_cast; omega)) start
  have high : |rounded (n / f)| ≤ 2 ^ 53 * 2 ^ quantum (n / f) := by
    have next := (abs_lt_two_zpow_quantum (n / f)).le
    rw [two_pow_mul_zpow] at next ⊢
    exact abs_rounded_le (isDouble_two_zpow (by push_cast; omega)) next
  -- A power of two is multiplied without rounding.
  have of_power {k : ℕ} (leading : 52 ≤ k) (power : |rounded (n / f)| = 2 ^ k * 2 ^ quantum (n / f)) :
      rounded (rounded (rounded (n / f) * f) / f) = rounded (n / f) := by
    have product : IsDouble (rounded (n / f) * f) := by
      have magnitude := hf.two_zpow_mul (one.trans (le_abs_self f))
        (by omega : -1021 ≤ (k : ℤ) + quantum (n / f))
      rw [← two_pow_mul_zpow, ← power] at magnitude
      rcases abs_choice (rounded (n / f)) with same | opposite
      · rwa [same] at magnitude
      · rw [opposite, neg_mul] at magnitude
        exact neg_neg (rounded (n / f) * f) ▸ magnitude.neg
    rw [rounded_of_isDouble product, mul_div_cancel_right₀ _ posF.ne',
      rounded_of_isDouble (isDouble_rounded _)]
  rcases low.eq_or_lt with bottom | low'
  · exact of_power le_rfl bottom.symm
  rcases high.eq_or_lt with top | high'
  · exact of_power (by norm_num) top
  refine rounded_of_closer ?_ low' high'
  have closer := abs_rounded_sub_le (rounded (n / f) * f) hn
  have scale (r : ℚ) : |r / f - rounded (n / f)| = |r - rounded (n / f) * f| / f := by
    rw [← abs_of_pos posF, ← abs_div, abs_of_pos posF, sub_div, mul_div_cancel_right₀ _ posF.ne']
  rw [scale, scale]
  exact div_le_div_of_nonneg_right closer posF.le

/-- The quotient of a whole number of up to 51 bits leads back to the number. -/
theorem floor_rounded_div_mul {k : ℤ} (small : |k| < 2 ^ 51) (one : 1 ≤ f)
    (top : f ≤ 2 ^ (1022 : ℤ)) : ⌊rounded (rounded (rounded (k / f) * f) + 1 / 2)⌋ = k := by
  have posF : 0 < f := one_pos.trans_le one
  obtain ⟨below, above⟩ := abs_lt.mp small
  have quarter (i : ℤ) (least : -1 ≤ i) (most : i ≤ 3) : IsDouble (k + i / 4) := by
    refine ⟨4 * k + i, -2, by rw [abs_lt]; constructor <;> omega, by norm_num, ?_⟩
    norm_num
    ring
  have size : |(k : ℚ)| ≤ 2 ^ 51 := by exact_mod_cast small.le
  have near : |rounded (k / f) * f - k| ≤ 1 / 4 := by
    have error : |rounded (k / f) - k / f| ≤ |k / f| / 2 ^ 53 := by
      by_cases zero : k = 0
      · simp [zero, rounded_zero]
      · refine abs_rounded_sub_le_mul ?_
        have least : (1 : ℚ) ≤ |(k : ℚ)| := by exact_mod_cast Int.one_le_abs zero
        rw [abs_div, abs_of_pos posF, le_div_iff₀ posF]
        refine le_trans ?_ least
        calc (2 : ℚ) ^ (-1022 : ℤ) * f ≤ 2 ^ (-1022 : ℤ) * 2 ^ (1022 : ℤ) :=
              mul_le_mul_of_nonneg_left top (two_zpow_pos _).le
          _ = 1 := by rw [← two_zpow_add]; norm_num
    have scale : rounded (k / f) * f - k = (rounded (k / f) - k / f) * f := by
      rw [sub_mul, div_mul_cancel₀ _ posF.ne']
    calc |rounded (k / f) * f - k| = |rounded (k / f) - k / f| * f := by
          rw [scale, abs_mul, abs_of_pos posF]
      _ ≤ |k / f| / 2 ^ 53 * f := mul_le_mul_of_nonneg_right error posF.le
      _ = |(k : ℚ)| / 2 ^ 53 := by
          rw [abs_div, abs_of_pos posF]
          field_simp
      _ ≤ 1 / 4 := by
          rw [div_le_iff₀ (by norm_num)]
          linarith
  have product : |rounded (rounded (k / f) * f) - k| ≤ 1 / 4 := by
    obtain ⟨low, high⟩ := abs_le.mp near
    have left := quarter (-1) (by norm_num) (by norm_num)
    have right := quarter 1 (by norm_num) (by norm_num)
    push_cast at left right
    have down := rounded_mono (by linarith : (k : ℚ) + -1 / 4 ≤ rounded (k / f) * f)
    have up := rounded_mono (by linarith : rounded (k / f) * f ≤ (k : ℚ) + 1 / 4)
    rw [rounded_of_isDouble left] at down
    rw [rounded_of_isDouble right] at up
    rw [abs_le]
    constructor <;> linarith
  obtain ⟨low, high⟩ := abs_le.mp product
  have left := quarter 1 (by norm_num) (by norm_num)
  have right := quarter 3 (by norm_num) (by norm_num)
  push_cast at left right
  have down := rounded_mono
    (by linarith : (k : ℚ) + 1 / 4 ≤ rounded (rounded (k / f) * f) + 1 / 2)
  have up := rounded_mono
    (by linarith : rounded (rounded (k / f) * f) + 1 / 2 ≤ (k : ℚ) + 3 / 4)
  rw [rounded_of_isDouble left] at down
  rw [rounded_of_isDouble right] at up
  rw [Int.floor_eq_iff]
  constructor <;> linarith

theorem IsDouble.even_above (double : IsDouble n) (large : 2 ^ 53 < |n|) : 2 ^ 53 + 2 ≤ |n| := by
  obtain ⟨k, e, small, _, rfl⟩ := double
  have coarse : 0 ≤ e - 1 := by
    refine IsDouble.exponent_nonneg small ?_
    have half : (2 : ℚ) ^ e = 2 * 2 ^ (e - 1) := by
      rw [← zpow_one_add₀ (by norm_num)]
      congr 1
      ring
    rw [half, mul_left_comm, abs_mul, abs_of_pos (by norm_num : (0 : ℚ) < 2)] at large
    linarith
  have even : (k : ℚ) * 2 ^ e = (2 * (k * 2 ^ (e - 1).toNat) : ℤ) := by
    push_cast
    rw [mul_left_comm, ← zpow_natCast, ← zpow_one_add₀ (by norm_num)]
    congr 2
    omega
  rw [even] at large ⊢
  have wide : 2 ^ 53 < |2 * (k * 2 ^ (e - 1).toNat)| := by exact_mod_cast large
  rw [abs_mul] at wide
  have next : 2 ^ 53 + 2 ≤ |2 * (k * 2 ^ (e - 1).toNat)| := by
    rw [abs_mul]
    change 2 ^ 53 < 2 * _ at wide
    change 2 ^ 53 + 2 ≤ 2 * _
    omega
  exact_mod_cast next

/-- Rounding half up after the multiplication leads back to the same quotient, except for the whole
numbers of 52 or 53 bits, for which a half is lost or gained. -/
theorem rounded_floor_div_mul {k : ℤ} (double : IsDouble k) (hf : IsDouble f) (one : 1 ≤ f)
    (top : f ≤ 2 ^ (1021 : ℤ)) (settled : |k| < 2 ^ 51 ∨ 2 ^ 53 < |k|) :
    rounded (⌊rounded (rounded (rounded (k / f) * f) + 1 / 2)⌋ / f) = rounded (k / f) := by
  rcases settled with small | large
  · rw [floor_rounded_div_mul small one]
    exact top.trans (zpow_le_zpow_right₀ (by norm_num) (by norm_num))
  have posF : 0 < f := one_pos.trans_le one
  have large' : 2 ^ 53 + 2 ≤ |(k : ℚ)| := double.even_above (by exact_mod_cast large)
  have size : 2 ^ (-1021 : ℤ) ≤ |k / f| := by
    rw [abs_div, abs_of_pos posF, le_div_iff₀ posF]
    calc (2 : ℚ) ^ (-1021 : ℤ) * f ≤ 2 ^ (-1021 : ℤ) * 2 ^ (1021 : ℤ) :=
          mul_le_mul_of_nonneg_left top (two_zpow_pos _).le
      _ = 1 := by rw [← two_zpow_add]; norm_num
      _ ≤ |(k : ℚ)| := by linarith
  have product : 2 ^ 53 ≤ |rounded (rounded (k / f) * f)| := by
    have power : IsDouble (2 ^ 53) := by
      simpa using isDouble_two_zpow (by norm_num : -1074 ≤ (53 : ℤ))
    refine le_abs_rounded power ?_
    have error := abs_rounded_sub_le_mul (q := k / f)
      ((zpow_le_zpow_right₀ (by norm_num) (by norm_num)).trans size)
    have remains := abs_sub_abs_le_abs_sub (k / f) (rounded (k / f))
    rw [abs_sub_comm] at remains
    have scaled : (|k / f| - |k / f| / 2 ^ 53) * f ≤ |rounded (k / f)| * f :=
      mul_le_mul_of_nonneg_right (by linarith) posF.le
    have magnitude : |k / f| * f = |(k : ℚ)| := by
      rw [abs_div, abs_of_pos posF, div_mul_cancel₀ _ posF.ne']
    rw [sub_mul, div_mul_eq_mul_div, magnitude] at scaled
    rw [abs_mul, abs_of_pos posF]
    linarith
  rw [rounded_add_half (isDouble_rounded _) product,
    (isDouble_rounded _).floor_eq (le_trans (by norm_num) product)]
  exact rounded_div_mul_div double hf one size

end

end Reckoner.Binary
