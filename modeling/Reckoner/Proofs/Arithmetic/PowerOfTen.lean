import Reckoner.Arithmetic.Power
import Reckoner.Proofs.Binary.Accuracy
import Reckoner.Proofs.Binary.Canonical

/-! How far a power of ten is off that is multiplied up in doubles. Repeated squaring takes no more
roundings than the exponent counts. -/
namespace Reckoner.Arithmetic

open Binary

/-- Whether a double is a positive number up to the error of so many roundings. -/
structure Approximates (k : ℕ) (q : ℚ) (x : Float) : Prop where
  finite : x.isFinite = true
  close : IsClose k q (value x)

section

variable {i j k : ℕ} {p q : ℚ} {x y : Float}

theorem ten_pow_lt : (10 : ℚ) ^ 308 < 2 ^ 1024 * (9 / 10) := by
  have powers : 10 ^ 308 * 10 < 2 ^ 1024 * 9 := by decide +kernel
  rw [← mul_div_assoc, lt_div_iff₀ (by norm_num)]
  exact_mod_cast powers

theorem two_zpow_le : (2 : ℚ) ^ (-1022 : ℤ) ≤ 1 / 10 ^ 307 * (9 / 10) := by
  have powers : 10 ^ 307 * 10 ≤ 9 * 2 ^ 1022 := by decide +kernel
  have power : (2 : ℚ) ^ (-1022 : ℤ) = 1 / 2 ^ 1022 := by
    rw [zpow_neg, one_div]
    exact congrArg _ (zpow_natCast 2 1022)
  rw [power, div_mul_div_comm, one_mul, div_le_div_iff₀ (by positivity) (by positivity), one_mul]
  exact_mod_cast powers

theorem one_div_le_zpow {n : ℤ} (h : -307 ≤ n) : (1 / 10 ^ 307 : ℚ) ≤ 10 ^ n :=
  calc (1 / 10 ^ 307 : ℚ) = 10 ^ (-307 : ℤ) := by
        rw [zpow_neg, one_div]
        exact congrArg _ (zpow_natCast 10 307).symm
    _ ≤ 10 ^ n := zpow_le_zpow_right₀ (by norm_num) h

/-- A rounded number of moderate size is a double. -/
theorem isClose_of_isRounding (rounding : IsRounding p x) (close : IsClose k q |p|)
    (few : k < 1000) (low : 1 / 10 ^ 307 ≤ q) (high : q ≤ 10 ^ 308) :
    x.isFinite = true ∧ IsClose (k + 1) q |value x| := by
  have most : (9 / 10 : ℚ) ≤ kept ^ (k + 1) := by
    have count : ((k + 1 : ℕ) : ℚ) ≤ 1000 := by exact_mod_cast few
    refine le_trans ?_ (le_kept_pow (k + 1))
    rw [le_sub_comm, div_le_iff₀ (by norm_num)]
    linarith
  have fewer : kept ^ (k + 1) ≤ kept ^ k :=
    pow_le_pow_of_le_one kept_pos.le (by norm_num [kept]) k.le_succ
  have posQ : 0 < q := lt_of_lt_of_le (by norm_num) low
  have large : 2 ^ (-1022 : ℤ) ≤ |p| :=
    calc (2 : ℚ) ^ (-1022 : ℤ) ≤ 1 / 10 ^ 307 * (9 / 10) := two_zpow_le
      _ ≤ q * kept ^ k := mul_le_mul low (most.trans fewer) (by norm_num) posQ.le
      _ ≤ |p| := close.low
  have result := close.trans (.rounded large)
  rw [← abs_rounded] at result
  have range : |rounded p| < 2 ^ 1024 := by
    rw [← mul_lt_mul_iff_left₀ (by norm_num : (0 : ℚ) < 9 / 10)]
    calc |rounded p| * (9 / 10) ≤ |rounded p| * kept ^ (k + 1) :=
          mul_le_mul_of_nonneg_left most (result.pos posQ).le
      _ ≤ q := result.high
      _ ≤ 10 ^ 308 := high
      _ < 2 ^ 1024 * (9 / 10) := ten_pow_lt
  have finite := rounding.isFinite range
  rw [rounding.value finite]
  exact ⟨finite, result⟩

theorem approximates_of_isRounding (rounding : IsRounding p x) (close : IsClose k q p)
    (few : k < 1000) (low : 1 / 10 ^ 307 ≤ q) (high : q ≤ 10 ^ 308) :
    Approximates (k + 1) q x := by
  have posQ : 0 < q := lt_of_lt_of_le (by norm_num) low
  have posP := close.pos posQ
  rw [← abs_of_pos posP] at close
  obtain ⟨finite, result⟩ := isClose_of_isRounding rounding close few low high
  rw [rounding.value finite, abs_of_nonneg (rounded_nonneg posP.le)] at result
  exact ⟨finite, (rounding.value finite).symm ▸ result⟩

theorem Approximates.mul (hx : Approximates i p x) (hy : Approximates j q y) (few : i + j < 1000)
    (hp : 1 ≤ p) (hq : 1 ≤ q) (top : p * q ≤ 10 ^ 308) :
    Approximates (i + j + 1) (p * q) (x * y) := by
  have posP := one_pos.trans_le hp
  have posQ := one_pos.trans_le hq
  refine approximates_of_isRounding (isRounding_mul hx.finite hy.finite)
    (hx.close.mul hy.close posP posQ) few ?_ top
  calc (1 / 10 ^ 307 : ℚ) ≤ 10 ^ (0 : ℤ) := one_div_le_zpow (by norm_num)
    _ ≤ p * q := one_le_mul_of_one_le_of_one_le hp hq

end

/-- Repeated squaring: the exponent counts the roundings of a product of so many factors, however it
is grouped. -/
theorem approximates_powFrom (n : ℕ) :
    ∀ {r x : Float} {i j : ℕ} {p q : ℚ}, Approximates i p r → Approximates j q x → 1 ≤ p → 1 ≤ q →
      p * q ^ n ≤ 10 ^ 308 → i + n * (j + 1) < 1000 →
        Approximates (i + n * (j + 1)) (p * q ^ n) (powFrom r x n) := by
  induction n using Nat.strong_induction_on with
  | _ n ih =>
    intro r x i j p q hr hx hp hq top few
    have halves := Nat.mod_add_div n 2
    have roundings : i + n % 2 * (j + 1) + n / 2 * (j + j + 1 + 1) = i + n * (j + 1) := by
      nth_rewrite 3 [← halves]
      ring
    have powers : p * q ^ (n % 2) * (q * q) ^ (n / 2) = p * q ^ n := by
      rw [← sq, ← pow_mul, mul_assoc, ← pow_add, halves]
    have atMost {k : ℕ} (h : k ≤ n) : p * q ^ k ≤ 10 ^ 308 :=
      (mul_le_mul_of_nonneg_left (pow_le_pow_right₀ hq h) (by linarith)).trans top
    have factor : Approximates (i + n % 2 * (j + 1)) (p * q ^ (n % 2))
        (if n % 2 = 1 then r * x else r) := by
      rcases Nat.mod_two_eq_zero_or_one n with even | odd
      · rw [even, if_neg (by norm_num), Nat.zero_mul, pow_zero, mul_one]
        exact hr
      · have least := atMost (k := 1) (by omega)
        have once := Nat.le_mul_of_pos_left (j + 1) (by omega : 0 < n)
        rw [pow_one] at least
        rw [odd, if_pos rfl, Nat.one_mul, pow_one]
        exact hr.mul hx (by omega) hp hq least
    rw [powFrom]
    split
    · rename_i last
      rw [last, Nat.zero_mul, add_zero] at roundings
      rw [last, pow_zero, mul_one] at powers
      rwa [roundings, powers] at factor
    · rename_i more
      have square : q * q ≤ 10 ^ 308 := by
        rw [← sq]
        exact (le_mul_of_one_le_left (sq_nonneg q) hp).trans (atMost (by omega))
      have twice : 2 * (j + 1) ≤ n * (j + 1) := Nat.mul_le_mul_right _ (by omega)
      have hxx := hx.mul hx (by omega) hq hq square
      have result := ih (n / 2) (by omega) factor hxx
        (one_le_mul_of_one_le_of_one_le hp (one_le_pow₀ hq)) (one_le_mul_of_one_le_of_one_le hq hq)
        (powers.le.trans top) (by rwa [roundings])
      rwa [powers, roundings] at result

theorem approximates_of_decode {v : Exact} {q : ℚ} {x : Float} (h : decode x = some v)
    (same : v.value = q) : Approximates 0 q x := by
  refine ⟨isFinite_of_decode h, ?_⟩
  rw [value_of_decode h, same]
  exact .refl q

theorem approximates_one : Approximates 0 1 1 :=
  approximates_of_decode (v := ⟨false, 2 ^ 52, -52⟩) (by decide)
    (by norm_num [Exact.value, Exact.magnitude])

theorem approximates_ten : Approximates 0 10 10 :=
  approximates_of_decode (v := ⟨false, 10 * 2 ^ 49, -49⟩) (by decide)
    (by norm_num [Exact.value, Exact.magnitude])

/-- A power of ten is off by one rounding for each factor, and by one more for the reciprocal. -/
theorem approximates_tenTo {n : ℤ} (low : -307 ≤ n) (high : n ≤ 308) :
    Approximates (n.natAbs + if n < 0 then 1 else 0) (10 ^ n) (tenTo n) := by
  have few : n.natAbs ≤ 308 := by omega
  have top : (1 : ℚ) * 10 ^ n.natAbs ≤ 10 ^ 308 := by
    rw [one_mul]
    exact pow_le_pow_right₀ (by norm_num) few
  have power := approximates_powFrom n.natAbs approximates_one approximates_ten le_rfl (by norm_num)
    top (by omega)
  rw [zero_add, zero_add, mul_one, one_mul] at power
  unfold tenTo integerPower
  dsimp only
  by_cases negative : n < 0
  · rw [if_pos negative, if_pos negative]
    have positive : (0 : ℚ) < 10 ^ n.natAbs := by positivity
    have notZero := (power.close.pos positive).ne'
    have quotient := approximates_one.close.div power.close one_pos positive
    rw [zero_add] at quotient
    have inverse : 1 / (10 : ℚ) ^ n.natAbs = 10 ^ n := by
      rw [one_div, ← zpow_natCast, ← zpow_neg]
      congr 1
      omega
    rw [inverse] at quotient
    refine approximates_of_isRounding (isRounding_div approximates_one.finite power.finite notZero)
      quotient (by omega) ?_ ?_
    · exact one_div_le_zpow low
    · calc (10 : ℚ) ^ n ≤ 1 := zpow_le_one_of_nonpos₀ (by norm_num) negative.le
        _ ≤ 10 ^ 308 := one_le_pow₀ (by norm_num)
  · rw [if_neg negative, if_neg negative, add_zero]
    have same : (10 : ℚ) ^ n.natAbs = 10 ^ n := by
      rw [← zpow_natCast]
      congr 1
      omega
    rwa [same] at power

end Reckoner.Arithmetic
