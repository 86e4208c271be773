import Reckoner.Proofs.Arithmetic.PowerOfTen
import Reckoner.Proofs.Decimal.Significant
import Reckoner.Proofs.Display.Reading

/-! Text with a power of a thousand: what it is read back as, and when that is shown by the same
text. The power comes from a logarithm, of which nothing is assumed. -/
namespace Reckoner.Display

open Arithmetic (tenTo approximates_tenTo)
open Binary
open Decimal (Ratio Scientific)

section

variable {x y : Float} {v w : Exact} {places : ℕ} {power : ℤ}

def digitsAt (v : Exact) (places : ℕ) : ℕ :=
  (Ratio.onGrid v.mantissa v.exponent (-places)).nearest

theorem isNearest_digitsAt (v : Exact) (places : ℕ) :
    IsNearest (v.magnitude * 10 ^ places) (digitsAt v places) := by
  have nearest := Ratio.isNearest_nearest
    (Ratio.den_onGrid_pos v.mantissa v.exponent (-places))
  rw [Ratio.toRat_onGrid, zpow_neg, div_inv_eq_mul, zpow_natCast] at nearest
  exact nearest

theorem engineering_of_zero (zero : (x == 0) = true) : engineering x places = "0" :=
  if_pos zero

theorem engineeringBy_eq {log10 : Float → Float} (notZero : ¬(x == 0) = true)
    (h : decode (x / tenTo (engineeringPowerBy log10 x)) = some v) :
    engineeringBy log10 x places = (if v.negative then "-" else "") ++
      (⟨digitsAt v places, engineeringPowerBy log10 x - places⟩ : Scientific).withPower
        Decimal.signedPower places := by
  rw [engineeringBy, if_neg notZero]
  simp only [Decimal.fixed, h, Scientific.withPower, sub_add_cancel, String.append_assoc]
  rfl

theorem engineering_eq (notZero : ¬(x == 0) = true)
    (h : decode (x / tenTo (engineeringPower x)) = some v) :
    engineering x places = (if v.negative then "-" else "") ++
      (⟨digitsAt v places, engineeringPower x - places⟩ : Scientific).withPower
        Decimal.signedPower places :=
  engineeringBy_eq notZero h

theorem evaluateText_engineering (notZero : ¬(x == 0) = true)
    (h : decode (x / tenTo (engineeringPower x)) = some v) (angle : AngleMode)
    (policy : ParenPolicy) :
    evaluateText (engineering x places) {} angle policy =
      .ok (readAs v.negative ⟨digitsAt v places, engineeringPower x - places⟩) := by
  rw [engineering_eq notZero h]
  exact evaluateText_withPower angle policy _ _ _

/-- A number of normal size is read with one rounding, and keeps its sign. -/
theorem isClose_readAs {d : Scientific} {negative : Bool}
    (finite : (readAs negative d).isFinite = true) (normal : 2 ^ (-1022 : ℤ) ≤ d.toRat) :
    IsClose 1 d.toRat |value (readAs negative d)| ∧
      (value (readAs negative d) < 0 ↔ negative = true) := by
  have positive := (two_zpow_pos (-1022)).trans_le normal
  have close := IsClose.rounded normal
  have read := (isRounding_readAs negative d).value finite
  have size : |value (readAs negative d)| = rounded d.toRat := by
    rw [read, abs_rounded_withSign, abs_of_nonneg (rounded_nonneg positive.le)]
  have notZero := abs_pos.mp (size ▸ close.pos positive)
  refine ⟨size ▸ close, ?_⟩
  rw [read, rounded_lt_zero_iff (read ▸ notZero)]
  split
  · rename_i minus
    exact iff_of_true (neg_neg_of_pos positive) minus
  · rename_i plus
    exact iff_of_false (not_lt.mpr positive.le) plus

/-- A number that is a mantissa times a power of ten up to one rounding gives back the mantissa, within
the error of the power and of one more rounding, and keeps its sign. -/
theorem decode_div_tenTo {m : ℚ} (finite : y.isFinite = true)
    (close : IsClose 1 (m * 10 ^ power) |value y|) (low : -307 ≤ power) (high : power ≤ 308)
    (least : 1 / 10 ^ 307 ≤ m) (most : m ≤ 10 ^ 308) :
    ∃ w, decode (y / tenTo power) = some w ∧ (w.negative = true ↔ value y < 0) ∧
      IsClose 310 m w.magnitude := by
  have scale := Decimal.ten_zpow_pos power
  have posM : 0 < m := lt_of_lt_of_le (by positivity) least
  have divisor := approximates_tenTo low high
  have positive := divisor.close.pos scale
  have quotient := close.div divisor.close (mul_pos posM scale) scale
  rw [mul_div_cancel_right₀ _ scale.ne', ← abs_of_pos positive, ← abs_div] at quotient
  have division := isRounding_div finite divisor.finite positive.ne'
  obtain ⟨finite', result⟩ := Arithmetic.isClose_of_isRounding division quotient
    (by split <;> omega) least most
  obtain ⟨w, decoded⟩ := decode_of_isFinite finite'
  have sign : value (y / tenTo power) < 0 ↔ value y < 0 := by
    have notZero := abs_pos.mp (result.pos posM)
    rw [division.value finite'] at notZero ⊢
    rw [rounded_lt_zero_iff notZero, div_lt_iff₀ positive, zero_mul]
  rw [value_of_decode decoded] at result sign
  rw [abs_value] at result
  exact ⟨w, decoded, (Exact.negative_iff (result.pos posM)).trans sign,
    result.mono (by split <;> omega) posM⟩

/-- Up to thirteen digits come out as they are. -/
theorem digitsAt_of_close {n : ℕ} (most : n ≤ 10 ^ 13)
    (close : IsClose 310 (n / 10 ^ places) w.magnitude) : digitsAt w places = n := by
  have unit : (0 : ℚ) < 10 ^ places := by positivity
  have part := le_kept_pow 310
  have size : (n : ℚ) ≤ 10 ^ 13 := by exact_mod_cast most
  have center : (n : ℚ) / 10 ^ places * 10 ^ places = n := div_mul_cancel₀ _ unit.ne'
  have nonneg : 0 ≤ w.magnitude * 10 ^ places := by
    rw [← abs_value]
    positivity
  have low : (n : ℚ) * (1 - 310 / 2 ^ 53) ≤ w.magnitude * 10 ^ places :=
    calc (n : ℚ) * (1 - 310 / 2 ^ 53) ≤ n * kept ^ 310 :=
          mul_le_mul_of_nonneg_left (by exact_mod_cast part) (by positivity)
      _ = n / 10 ^ places * kept ^ 310 * 10 ^ places := by
          rw [mul_right_comm, center]
      _ ≤ w.magnitude * 10 ^ places := mul_le_mul_of_nonneg_right close.low unit.le
  have high : w.magnitude * 10 ^ places * (1 - 310 / 2 ^ 53) ≤ n :=
    calc w.magnitude * 10 ^ places * (1 - 310 / 2 ^ 53) ≤ w.magnitude * 10 ^ places * kept ^ 310 :=
          mul_le_mul_of_nonneg_left (by exact_mod_cast part) nonneg
      _ = w.magnitude * kept ^ 310 * 10 ^ places := mul_right_comm _ _ _
      _ ≤ n / 10 ^ places * 10 ^ places := mul_le_mul_of_nonneg_right close.high unit.le
      _ = n := center
  have near : |w.magnitude * 10 ^ places - (n : ℤ)| < 1 / 2 := by
    rw [abs_lt]
    push_cast
    constructor <;> linarith
  have nearest : IsNearest (w.magnitude * 10 ^ places) n :=
    ⟨near.le, fun tie => absurd tie near.ne⟩
  exact Int.ofNat_inj.mp ((isNearest_digitsAt w places).unique nearest)

/-- Unless the digits carry into the next power of a thousand, or the logarithm takes another one,
the number that is read back is shown by the same text. -/
theorem engineering_eq_of_settled (notZero : ¬(x == 0) = true)
    (h : decode (x / tenTo (engineeringPower x)) = some v)
    (same : y = readAs v.negative ⟨digitsAt v places, engineeringPower x - places⟩)
    (finite : y.isFinite = true) (power : engineeringPower y = engineeringPower x)
    (low : -307 ≤ engineeringPower x) (high : engineeringPower x ≤ 308)
    (least : 10 ^ places ≤ digitsAt v places) (most : digitsAt v places ≤ 10 ^ 13) :
    engineering y places = engineering x places := by
  have unit : (0 : ℚ) < 10 ^ places := by positivity
  have one : (1 : ℚ) ≤ digitsAt v places / 10 ^ places := by
    rw [one_le_div unit]
    exact_mod_cast least
  have top : (digitsAt v places : ℚ) / 10 ^ places ≤ 10 ^ 308 :=
    calc (digitsAt v places : ℚ) / 10 ^ places ≤ digitsAt v places :=
          div_le_self (by positivity) (one_le_pow₀ (by norm_num))
      _ ≤ 10 ^ 13 := by exact_mod_cast most
      _ ≤ 10 ^ 308 := pow_le_pow_right₀ (by norm_num) (by norm_num)
  have number : (⟨digitsAt v places, engineeringPower x - places⟩ : Scientific).toRat =
      digitsAt v places / 10 ^ places * 10 ^ engineeringPower x := by
    rw [Scientific.toRat, zpow_sub₀ (by norm_num), zpow_natCast]
    ring
  have normal : 2 ^ (-1022 : ℤ) ≤
      (⟨digitsAt v places, engineeringPower x - places⟩ : Scientific).toRat := by
    rw [number]
    calc (2 : ℚ) ^ (-1022 : ℤ) ≤ 1 / 10 ^ 307 * (9 / 10) := Arithmetic.two_zpow_le
      _ ≤ 1 / 10 ^ 307 := mul_le_of_le_one_right (by positivity) (by norm_num)
      _ ≤ 10 ^ engineeringPower x := Arithmetic.one_div_le_zpow low
      _ ≤ digitsAt v places / 10 ^ places * 10 ^ engineeringPower x :=
          le_mul_of_one_le_left (Decimal.ten_zpow_pos _).le one
  obtain ⟨close, sign⟩ := isClose_readAs (same ▸ finite) normal
  have notZero' := abs_pos.mp (close.pos ((two_zpow_pos _).trans_le normal))
  rw [← same] at close sign notZero'
  rw [number] at close
  have least' : 1 / 10 ^ 307 ≤ (digitsAt v places / 10 ^ places : ℚ) :=
    (Arithmetic.one_div_le_zpow (n := 0) (by norm_num)).trans one
  obtain ⟨w, decoded, sign', mantissa⟩ := decode_div_tenTo finite close low high least' top
  rw [← power] at decoded
  rw [engineering_eq (mt (beq_zero_iff finite).mp notZero') decoded, engineering_eq notZero h,
    power, Bool.eq_iff_iff.mpr (sign'.trans sign), digitsAt_of_close most mantissa]

end

end Reckoner.Display
