import Reckoner.Proofs.Binary.Canonical

/-! Whole numbers among the doubles: the floor, and the rounding of halves upward. -/
namespace Reckoner.Binary

section

variable {y : ℚ} {x : Float} {v : Exact}

theorem IsDouble.exponent_nonneg {n e : ℤ} (small : |n| < 2 ^ 53)
    (large : 2 ^ 52 ≤ |(n : ℚ) * 2 ^ e|) : 0 ≤ e := by
  have mantissa : |(n : ℚ)| < 2 ^ 53 := by exact_mod_cast small
  have unit := two_zpow_pos e
  rw [abs_mul, abs_of_pos unit] at large
  have half : (2 : ℚ) ^ (-1 : ℤ) < 2 ^ e := by
    have bound := large.trans_lt (mul_lt_mul_of_pos_right mantissa unit)
    norm_num at bound ⊢
    linarith
  have := (zpow_lt_zpow_iff_right₀ (by norm_num : (1 : ℚ) < 2)).mp half
  omega

/-- Only a double below `2 ^ 52` can have a fraction. -/
theorem IsDouble.floor_eq (double : IsDouble y) (large : 2 ^ 52 ≤ |y|) : (⌊y⌋ : ℚ) = y := by
  obtain ⟨n, e, small, _, rfl⟩ := double
  have whole := IsDouble.exponent_nonneg small large
  have power : (n : ℚ) * 2 ^ e = (n * 2 ^ e.toNat : ℤ) := by
    push_cast
    rw [← zpow_natCast]
    congr 2
    omega
  rw [power, Int.floor_intCast]

theorem IsDouble.floor_cases (double : IsDouble y) : (⌊y⌋ : ℚ) = y ∨ |⌊y⌋| ≤ 2 ^ 53 := by
  by_cases large : 2 ^ 52 ≤ |y|
  · exact .inl (double.floor_eq large)
  · right
    obtain ⟨low, high⟩ := abs_lt.mp (not_le.mp large)
    rw [abs_le]
    constructor
    · rw [Int.le_floor]
      push_cast
      linarith
    · have below := Int.floor_le y
      have bound : (⌊y⌋ : ℚ) ≤ 2 ^ 53 := by linarith
      exact_mod_cast bound

theorem IsDouble.floor (double : IsDouble y) : IsDouble ⌊y⌋ := by
  rcases double.floor_cases with whole | small
  · rwa [whole]
  · exact isDouble_intCast small

theorem Exact.floor_eq (v : Exact) : v.floor = ⌊v.value⌋ := by
  have value : v.value = v.signed * 2 ^ v.exponent := by
    unfold Exact.value Exact.magnitude Exact.signed
    split <;> push_cast <;> ring
  unfold Exact.floor
  rw [value]
  split
  · rename_i whole
    have power : (v.signed : ℚ) * 2 ^ v.exponent = (v.signed * 2 ^ v.exponent.toNat : ℤ) := by
      push_cast
      rw [← zpow_natCast]
      congr 2
      omega
    rw [power, Int.floor_intCast]
    rfl
  · have power : (v.signed : ℚ) * 2 ^ v.exponent = v.signed / (2 ^ (-v.exponent).toNat : ℕ) := by
      push_cast
      rw [div_eq_mul_inv, ← zpow_natCast, ← zpow_neg]
      congr 2
      omega
    rw [power, Rat.floor_intCast_div_natCast]
    exact Int.fdiv_eq_ediv_of_nonneg _ (Int.natCast_nonneg (2 ^ (-v.exponent).toNat))

theorem Exact.value_whole (n : ℤ) (negative : Bool) :
    Exact.value ⟨if n = 0 then negative else decide (n < 0), n.natAbs, 0⟩ = n := by
  have magnitude : ((n.natAbs : ℕ) : ℚ) = |(n : ℚ)| := by
    rw [Nat.cast_natAbs, Int.cast_abs]
  simp only [Exact.value, Exact.magnitude, zpow_zero, mul_one, magnitude]
  by_cases zero : n = 0
  · simp [zero]
  rw [if_neg zero]
  by_cases below : n < 0
  · have belowQ : (n : ℚ) < 0 := by exact_mod_cast below
    rw [if_pos (decide_eq_true below), abs_of_neg belowQ, neg_neg]
  · have above : (0 : ℚ) ≤ n := by exact_mod_cast not_lt.mp below
    rw [if_neg (by simpa using below), abs_of_nonneg above]

theorem value_floor (finite : x.isFinite = true) :
    (floor x).isFinite = true ∧ value (floor x) = ⌊value x⌋ := by
  obtain ⟨v, decoded⟩ := decode_of_isFinite finite
  have double := isDouble_value x
  have rounding : IsRounding ⌊value x⌋ (floor x) := by
    have result := isRounding_nearest
      ⟨if v.floor = 0 then v.negative else decide (v.floor < 0), v.floor.natAbs, 0⟩
    rw [Exact.value_whole] at result
    rw [value_of_decode decoded, ← Exact.floor_eq]
    simp only [floor, toWhole, decoded]
    exact result
  have kept := rounded_of_isDouble double.floor
  have range : |rounded ⌊value x⌋| < 2 ^ 1024 := by
    rw [kept]
    rcases double.floor_cases with whole | small
    · rw [whole]
      exact abs_value_lt x
    · calc |(⌊value x⌋ : ℚ)| ≤ 2 ^ 53 := by exact_mod_cast small
        _ < 2 ^ 1024 := pow_lt_pow_right₀ (by norm_num) (by norm_num)
  have finite' := rounding.isFinite range
  exact ⟨finite', (rounding.value finite').trans kept⟩

/-- From `2 ^ 53` on a half more changes nothing: the doubles are even there. -/
theorem rounded_add_half (double : IsDouble y) (large : 2 ^ 53 ≤ |y|) :
    rounded (y + 1 / 2) = y := by
  obtain ⟨n, e, small, _, rfl⟩ := double
  have unit := two_zpow_pos e
  have size : |(n : ℚ) * 2 ^ e| ≤ (2 ^ 53 - 1) * 2 ^ e := by
    have mantissa : |(n : ℚ)| ≤ 2 ^ 53 - 1 := by
      have bound : |n| ≤ 2 ^ 53 - 1 := by omega
      exact_mod_cast bound
    rw [abs_mul, abs_of_pos unit]
    exact mul_le_mul_of_nonneg_right mantissa unit.le
  have coarse : 1 ≤ e := by
    by_contra fine
    have : (2 : ℚ) ^ e ≤ 1 := zpow_le_one_of_nonpos₀ (by norm_num) (by omega)
    linarith
  have two : (2 : ℚ) ^ (1 : ℤ) ≤ 2 ^ e := zpow_le_zpow_right₀ (by norm_num) coarse
  rw [zpow_one] at two
  have above : |(n : ℚ) * 2 ^ e + 1 / 2| ≤ |(n : ℚ) * 2 ^ e| + 1 / 2 := by
    simpa using abs_add_le ((n : ℚ) * 2 ^ e) (1 / 2)
  have below : |(n : ℚ) * 2 ^ e| - 1 / 2 ≤ |(n : ℚ) * 2 ^ e + 1 / 2| := by
    have reverse := abs_sub_abs_le_abs_sub ((n : ℚ) * 2 ^ e) (-(1 / 2))
    rwa [abs_neg, abs_of_pos (by norm_num : (0 : ℚ) < 1 / 2), sub_neg_eq_add] at reverse
  -- The sum is on a grid that is no coarser than that of the double.
  have least : 0 ≤ quantum (n * 2 ^ e + 1 / 2) := by
    have short := abs_lt_two_zpow_quantum (n * 2 ^ e + 1 / 2)
    have half : (2 : ℚ) ^ (-1 : ℤ) < 2 ^ quantum (n * 2 ^ e + 1 / 2) := by
      norm_num
      linarith
    have := (zpow_lt_zpow_iff_right₀ (by norm_num : (1 : ℚ) < 2)).mp half
    omega
  have most : quantum (n * 2 ^ e + 1 / 2) ≤ e := by
    have notZero : (n : ℚ) * 2 ^ e + 1 / 2 ≠ 0 := by
      rw [← abs_pos]
      linarith
    have start := two_zpow_quantum_le notZero (by omega)
    have next : (2 : ℚ) ^ quantum (n * 2 ^ e + 1 / 2) < 2 ^ (e + 1) := by
      rw [two_zpow_add, zpow_one]
      linarith
    have := (zpow_lt_zpow_iff_right₀ (by norm_num : (1 : ℚ) < 2)).mp next
    omega
  unfold rounded
  generalize quantum (n * 2 ^ e + 1 / 2) = t at least most
  have scale := two_zpow_pos t
  have multiple : (n : ℚ) * 2 ^ e = (n * 2 ^ (e - t).toNat : ℤ) * 2 ^ t := by
    push_cast
    rw [mul_assoc, two_pow_mul_zpow]
    congr 2
    omega
  have rest : ((n : ℚ) * 2 ^ e + 1 / 2) / 2 ^ t - (n * 2 ^ (e - t).toNat : ℤ) = 1 / 2 / 2 ^ t := by
    rw [multiple, add_div, mul_div_cancel_right₀ _ scale.ne', add_sub_cancel_left]
  have one : (1 : ℚ) ≤ 2 ^ t := one_le_zpow₀ (by norm_num) least
  have nearest : IsNearest (((n : ℚ) * 2 ^ e + 1 / 2) / 2 ^ t) (n * 2 ^ (e - t).toNat) := by
    have distance : |1 / 2 / (2 : ℚ) ^ t| = 1 / 2 / 2 ^ t := abs_of_pos (by positivity)
    constructor
    · rw [rest, distance]
      exact div_le_self (by norm_num) one
    · intro tie
      rw [rest, distance, div_eq_iff scale.ne', left_eq_mul₀ (by norm_num)] at tie
      have bottom : t = 0 := (zpow_eq_one_iff_right₀ (by norm_num) (by norm_num)).mp tie
      exact (even_two.pow_of_ne_zero (by omega)).mul_left n
  rw [nearest.eq, ← multiple]

/-- From `2 ^ 52` to `2 ^ 53` the doubles are the integers, so a half more is rounded to one of the two
next to it. -/
theorem rounded_integer_add_half {n k : ℤ} (short : |n| < 2 ^ 53) (outside : n < -2 ^ 52 ∨ 2 ^ 52 ≤ n)
    (nearest : IsNearest (n + 1 / 2) k) : rounded (n + 1 / 2) = k := by
  obtain ⟨low, high⟩ := abs_lt.mp short
  have lowQ : -(2 : ℚ) ^ 53 + 1 ≤ n := by exact_mod_cast low
  have highQ : (n : ℚ) + 1 ≤ 2 ^ 53 := by exact_mod_cast high
  have size : (2 : ℚ) ^ 52 ≤ |(n : ℚ) + 1 / 2| ∧ |(n : ℚ) + 1 / 2| < 2 ^ 53 := by
    rcases outside with below | above
    · have belowQ : (n : ℚ) + 1 ≤ -2 ^ 52 := by exact_mod_cast below
      rw [abs_of_neg (by linarith)]
      constructor <;> linarith
    · have aboveQ : (2 : ℚ) ^ 52 ≤ n := by exact_mod_cast above
      rw [abs_of_pos (by linarith)]
      constructor <;> linarith
  have grid : quantum (n + 1 / 2) = 0 := by
    refine quantum_eq (by norm_num) ?_ (.inr ?_) (abs_pos.mp (by linarith)) <;>
      rw [zpow_zero, mul_one]
    · exact size.2
    · exact size.1
  rw [rounded, grid, zpow_zero, div_one, mul_one, nearest.eq]

/-- Rounding half up moves the odd integers of 53 bits to the next one. -/
theorem floor_rounded_add_half {n : ℤ} (short : |n| < 2 ^ 53) :
    ⌊rounded (n + 1 / 2)⌋ = if Even n ∨ |n| ≤ 2 ^ 52 then n else n + 1 := by
  have half : |(n : ℚ) + 1 / 2 - n| = 1 / 2 := by norm_num
  by_cases inside : -2 ^ 52 ≤ n ∧ n < 2 ^ 52
  · have double : IsDouble ((n : ℚ) + 1 / 2) := by
      refine ⟨2 * n + 1, -1, by rw [abs_lt]; constructor <;> omega, by norm_num, ?_⟩
      push_cast
      ring
    rw [rounded_of_isDouble double, if_pos (.inr (abs_le.mpr ⟨inside.1, inside.2.le⟩)),
      Int.floor_eq_iff]
    constructor <;> linarith
  have outside : n < -2 ^ 52 ∨ 2 ^ 52 ≤ n := by omega
  by_cases even : Even n
  · have nearest : IsNearest (n + 1 / 2) n := ⟨half.le, fun _ => even⟩
    rw [rounded_integer_add_half short outside nearest, Int.floor_intCast, if_pos (.inl even)]
  · have nearest : IsNearest (n + 1 / 2) (n + 1) := by
      refine ⟨?_, fun _ => (Int.not_even_iff_odd.mp even).add_one⟩
      rw [abs_le]
      push_cast
      constructor <;> linarith
    have large : ¬|n| ≤ 2 ^ 52 := by
      rw [abs_le]
      rintro ⟨low, high⟩
      have top : n = 2 ^ 52 := by omega
      exact even (top ▸ even_two.pow_of_ne_zero (by norm_num))
    rw [rounded_integer_add_half short outside nearest, Int.floor_intCast,
      if_neg (not_or.mpr ⟨even, large⟩)]

theorem value_half : (0.5 : Float).isFinite = true ∧ value 0.5 = 1 / 2 := by
  have decoded : decode 0.5 = some ⟨false, 2 ^ 52, -53⟩ := by decide
  refine ⟨isFinite_of_decode decoded, ?_⟩
  rw [value_of_decode decoded]
  norm_num [Exact.value, Exact.magnitude]

theorem value_roundHalfUp (finite : x.isFinite = true) :
    (roundHalfUp x).isFinite = true ∧
      value (roundHalfUp x) = ⌊rounded (value x + 1 / 2)⌋ := by
  have rounding := isRounding_add finite value_half.1
  rw [value_half.2] at rounding
  have range : |rounded (value x + 1 / 2)| < 2 ^ 1024 := by
    by_cases large : 2 ^ 53 ≤ |value x|
    · rw [rounded_add_half (isDouble_value x) large]
      exact abs_value_lt x
    · have bound : |value x + 1 / 2| ≤ 2 ^ (54 : ℤ) := by
        refine (abs_add_le _ _).trans ?_
        norm_num
        linarith
      refine (abs_rounded_le (isDouble_two_zpow (by norm_num)) bound).trans_lt ?_
      exact (zpow_lt_zpow_right₀ (by norm_num) (by norm_num)).trans_eq (zpow_natCast 2 1024)
  have sum := rounding.isFinite range
  obtain ⟨whole, same⟩ := value_floor sum
  rw [rounding.value sum] at same
  exact ⟨whole, same⟩

end

end Reckoner.Binary
