import Reckoner.Decimal.Literal
import Reckoner.Decimal.Shortest
import Reckoner.Proofs.Binary.Operations

/-! Reading a decimal number is rounding it: digits with a power of ten give the nearest double. -/
namespace Reckoner.Decimal

open Binary
open Float.Model (UnpackedFloat Format)
open Float.Model.UnpackedFloat

def Scientific.toRat (d : Scientific) : ℚ := d.digits * 10 ^ d.exponent

theorem Scientific.toRat_nonneg (d : Scientific) : 0 ≤ d.toRat := by
  unfold Scientific.toRat
  positivity

theorem isRounding_toFloat {m : ℕ} (small : m < 2 ^ 53) : IsRounding m m.toUInt64.toFloat := by
  have result := isRounding_normalize m 0 .positive
  have word : m.toUInt64.toNat = m := by
    change m % 2 ^ 64 = m
    omega
  rw [zpow_zero, mul_one] at result
  change IsRounding _ (.ofModel (.pack (UnpackedFloat.normalize Format.binary64
    (m.toUInt64.toNat : ℤ) 0 .positive)))
  rw [word]
  exact_mod_cast result

/-- The powers of ten that are kept in a table are exact. -/
theorem decode_powersOfTen (i : ℕ) (h : i < 23) :
    ∃ v, decode (getElem Float.exactlyRepresentablePowersOfTen i h) = some v ∧ v.negative = false ∧
      v.mantissa * 2 ^ v.exponent.toNat = 10 ^ i * 2 ^ (-v.exponent).toNat := by
  have table : ∀ i (h : i < 23), (decode (getElem Float.exactlyRepresentablePowersOfTen i h)).any
      (fun v => !v.negative &&
        v.mantissa * 2 ^ v.exponent.toNat == 10 ^ i * 2 ^ (-v.exponent).toNat) = true := by
    decide +kernel
  simpa [Option.any_eq_true] using table i h

theorem two_pow_toNat (e : ℤ) : (2 : ℚ) ^ e.toNat = 2 ^ e * 2 ^ (-e).toNat := by
  rw [mul_comm, two_pow_mul_zpow, ← zpow_natCast]
  congr 1
  omega

theorem value_powersOfTen (i : ℕ) (h : i < 23) :
    (getElem Float.exactlyRepresentablePowersOfTen i h).isFinite = true ∧
      value (getElem Float.exactlyRepresentablePowersOfTen i h) = 10 ^ i := by
  obtain ⟨v, decoded, unsigned, same⟩ := decode_powersOfTen i h
  refine ⟨isFinite_of_decode decoded, ?_⟩
  have scale : (0 : ℚ) < 2 ^ (-v.exponent).toNat := by positivity
  have magnitude : v.magnitude * 2 ^ (-v.exponent).toNat = 10 ^ i * 2 ^ (-v.exponent).toNat := by
    rw [Exact.magnitude, mul_assoc, ← two_pow_toNat]
    exact_mod_cast same
  rw [value, decoded]
  simp only [Exact.value, unsigned, Bool.false_eq_true, if_false]
  exact mul_right_cancel₀ scale.ne' magnitude

/-- A power of ten is above that of two, so it is too large when the other is. -/
theorem two_zpow_le_mul {m : ℕ} {e : ℤ} (pos : 0 < m) (nonneg : 0 ≤ e) :
    (2 : ℚ) ^ e ≤ m * 10 ^ e := by
  have least : (1 : ℚ) ≤ m := by exact_mod_cast pos
  calc (2 : ℚ) ^ e ≤ 10 ^ e := zpow_le_zpow_left₀ nonneg (by norm_num) (by norm_num)
    _ ≤ m * 10 ^ e := le_mul_of_one_le_left (by positivity) least

/-- A reciprocal power of ten is below that of two, so it is too small when the other is. -/
theorem mul_lt_two_zpow (m : ℕ) {e : ℤ} (nonpos : e ≤ 0) :
    (m : ℚ) * 10 ^ e < 2 ^ ((m.log2 + 1 : ℕ) + e) := by
  have upper : (m : ℚ) < 2 ^ (m.log2 + 1 : ℕ) := by exact_mod_cast Nat.lt_log2_self
  have power : (10 : ℚ) ^ e ≤ 2 ^ e := by
    have opposite : (2 : ℚ) ^ (-e) ≤ 10 ^ (-e) :=
      zpow_le_zpow_left₀ (by omega) (by norm_num) (by norm_num)
    have inverse := inv_anti₀ (by positivity) opposite
    rwa [← zpow_neg, ← zpow_neg, neg_neg] at inverse
  rw [← two_pow_mul_zpow]
  exact mul_lt_mul upper power (by positivity) (by positivity)

theorem isRounding_ofScientific (m : ℕ) (e : ℤ) :
    IsRounding (m * 10 ^ e)
      (.ofModel (.pack (UnpackedFloat.ofScientific Format.binary64 m e))) := by
  have range : (2 : ℤ) ^ Format.binary64.exponentBits = 2048 := rfl
  unfold UnpackedFloat.ofScientific
  rw [range]
  split
  · rename_i zero
    rw [zero, Nat.cast_zero, zero_mul]
    exact isRounding_zero .positive
  rename_i notZero
  have pos : 0 < m := Nat.pos_of_ne_zero notZero
  split
  · rename_i huge
    have infinite : decode (.ofModel (.pack (.infinity .positive))) = none := rfl
    have bound : (2 : ℚ) ^ (1024 : ℤ) ≤ m * 10 ^ e :=
      (zpow_le_zpow_right₀ (by norm_num) (by omega)).trans (two_zpow_le_mul pos (by omega))
    rw [IsRounding, infinite]
    rw [← abs_of_pos (by positivity : (0 : ℚ) < m * 10 ^ e)] at bound
    have result := le_abs_rounded (isDouble_two_zpow (by norm_num)) bound
    rw [← zpow_natCast]
    exact result
  split
  · rename_i tiny
    have bound : |(m : ℚ) * 10 ^ e| < 2 ^ (-1075 : ℤ) := by
      rw [abs_of_pos (by positivity)]
      exact (mul_lt_two_zpow m (by omega)).trans_le (zpow_le_zpow_right₀ (by norm_num) (by omega))
    rw [IsRounding, decode_pack_zero, rounded_eq_zero bound]
    simp [Exact.value, Exact.magnitude]
  split
  · rename_i whole
    have fits : 2 ^ 52 ≤ (m <<< 53) * 10 ^ e.toNat ∨ (-53 : ℤ) + 0 ≤ -1074 := by
      refine .inl ?_
      rw [Nat.shiftLeft_eq]
      have power := Nat.one_le_pow e.toNat 10 (by norm_num)
      have product := Nat.mul_le_mul (Nat.mul_le_mul pos (le_refl (2 ^ 53))) power
      omega
    have positive : (0 : ℚ) < ((m <<< 53) * 10 ^ e.toNat : ℕ) := by
      rw [Nat.shiftLeft_eq]
      positivity
    have result := isRounding_roundWithAccuracy (represents_exact ((m <<< 53) * 10 ^ e.toNat))
      positive fits (.positive * .positive)
    have product : (((m <<< 53) * 10 ^ e.toNat : ℕ) : ℚ) * 2 ^ (-53 + 0 : ℤ) = m * 10 ^ e := by
      have power : (10 : ℚ) ^ e = 10 ^ e.toNat := by
        rw [← zpow_natCast]
        congr 1
        omega
      rw [Nat.shiftLeft_eq, power]
      push_cast
      norm_num
      ring
    rw [product] at result
    exact result
  · rename_i fraction
    have result := isRounding_quotient (e := 0) (k := 0) (.positive / .positive) pos
      (Nat.pow_pos (by norm_num) : 0 < 10 ^ (-e).toNat)
    have quotient : (m : ℚ) * 2 ^ (0 : ℤ) / ((10 ^ (-e).toNat : ℕ) * 2 ^ (0 : ℤ)) = m * 10 ^ e := by
      have power : (10 : ℚ) ^ e = (10 ^ (-e).toNat)⁻¹ := by
        rw [← zpow_natCast, ← zpow_neg]
        congr 1
        omega
      rw [power]
      rw [zpow_zero, mul_one, mul_one, div_eq_mul_inv]
      push_cast
      rfl
    rw [quotient] at result
    exact result

theorem value_toFloat {m : ℕ} (small : m < 2 ^ 53) :
    m.toUInt64.toFloat.isFinite = true ∧ value m.toUInt64.toFloat = m := by
  have kept : rounded m = m := by
    have whole : |(m : ℤ)| ≤ 2 ^ 53 := by
      rw [abs_of_nonneg (by positivity)]
      exact_mod_cast small.le
    exact_mod_cast rounded_of_isDouble (isDouble_intCast whole)
  have result := isRounding_toFloat small
  have finite : m.toUInt64.toFloat.isFinite = true := by
    refine result.isFinite ?_
    rw [kept, abs_of_nonneg (by positivity)]
    calc (m : ℚ) < 2 ^ 53 := by exact_mod_cast small
      _ ≤ 2 ^ 1024 := pow_le_pow_right₀ (by norm_num) (by norm_num)
  exact ⟨finite, (result.value finite).trans kept⟩

theorem isRounding_nearest (digits : ℕ) (exponent : ℤ) :
    IsRounding (digits * 10 ^ exponent) (nearest digits exponent) := by
  unfold nearest Float.ofScientific
  split
  · rename_i small
    obtain ⟨digitsFinite, digitsValue⟩ := value_toFloat small.1
    obtain ⟨powerFinite, powerValue⟩ := value_powersOfTen exponent.natAbs (by omega)
    by_cases negative : exponent < 0
    · have power : (10 : ℚ) ^ exponent = (10 ^ exponent.natAbs)⁻¹ := by
        rw [← zpow_natCast, ← zpow_neg]
        congr 1
        omega
      have notZero : (10 : ℚ) ^ exponent.natAbs ≠ 0 := by positivity
      have result := isRounding_div digitsFinite powerFinite (powerValue ▸ notZero)
      rw [digitsValue, powerValue, div_eq_mul_inv, ← power] at result
      dsimp only
      rw [if_pos (decide_eq_true negative)]
      exact result
    · have power : (10 : ℚ) ^ exponent = 10 ^ exponent.natAbs := by
        rw [← zpow_natCast]
        congr 1
        omega
      have result := isRounding_mul digitsFinite powerFinite
      rw [digitsValue, powerValue, ← power] at result
      dsimp only
      rw [if_neg (by simpa using negative)]
      exact result
  · have result := isRounding_ofScientific digits exponent
    have same : (if decide (exponent < 0) = true then Int.negOfNat exponent.natAbs
        else Int.ofNat exponent.natAbs) = exponent := by
      by_cases negative : exponent < 0
      · rw [if_pos (decide_eq_true negative), Int.negOfNat_eq]
        change -(exponent.natAbs : ℤ) = exponent
        omega
      · rw [if_neg (by simpa using negative)]
        change (exponent.natAbs : ℤ) = exponent
        omega
    dsimp only
    rw [same]
    exact result

end Reckoner.Decimal
