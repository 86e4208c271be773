import Reckoner.Proofs.Binary.Accuracy
import Reckoner.Proofs.Decimal.Significant
import Reckoner.Proofs.Display.Reading

/-! Text with a power of ten: what it is read back as, and when that is shown by the same text. -/
namespace Reckoner.Display

open Binary
open Decimal (significant)

section

variable {x : Float} {v : Exact} {places : ℕ}

theorem evaluateText_scientific (h : decode x = some v) (places : ℕ) (angle : AngleMode)
    (policy : ParenPolicy) :
    evaluateText (Decimal.scientific places x) {} angle policy =
      .ok (readAs v.negative (significant v.mantissa v.exponent places)) := by
  simp only [Decimal.scientific, h]
  exact evaluateText_withPower angle policy _ _ _

/-- Only below a power of ten could the double that is read back have other digits, since they are
finer there. -/
theorem scientific_readAs {d : Decimal.Scientific} (h : decode x = some v)
    (digits : significant v.mantissa v.exponent places = d)
    (finite : (readAs v.negative d).isFinite = true)
    (fine : d.digits = 10 ^ places →
      d.toRat - |value (readAs v.negative d)| ≤ 10 ^ (d.exponent - 1) / 2) :
    Decimal.scientific places (readAs v.negative d) = Decimal.scientific places x := by
  obtain ⟨w, decoded⟩ := decode_of_isFinite finite
  have sign : w.negative = v.negative :=
    negative_of_withSign (isUnsigned_ofScientific _ _ _) decoded
  have rounding := (isRounding_readAs v.negative d).value finite
  generalize readAs v.negative d = y at finite fine decoded rounding
  have magnitude : w.magnitude = rounded d.toRat := by
    have absolute := congrArg (fun r : ℚ => |r|) rounding
    rwa [value_of_decode decoded, abs_value, abs_rounded_withSign,
      abs_of_nonneg (rounded_nonneg d.toRat_nonneg)] at absolute
  rw [value_of_decode decoded, abs_value] at fine
  suffices same : significant w.mantissa w.exponent places = d by
    simp only [Decimal.scientific, h, decoded, sign, same, digits]
  rcases Nat.eq_zero_or_pos v.mantissa with zero | pos
  · rw [significant, if_pos zero] at digits
    have none : w.mantissa = 0 := by
      rw [← digits, Decimal.Scientific.toRat, Nat.cast_zero, zero_mul, rounded_zero,
        Exact.magnitude_eq_zero_iff] at magnitude
      exact magnitude
    rw [significant, if_pos none, digits]
  · obtain ⟨canonical, top⟩ := canonical_of_decode h pos
    have shown := Decimal.isSignificant_significant canonical pos top places
    rw [digits] at shown
    have closer := abs_rounded_sub_le d.toRat (isDouble_signed .positive canonical)
    rw [← magnitude] at closer
    have again := shown.of_closer closer fine
    have pos' : 0 < w.mantissa := by
      rw [Nat.pos_iff_ne_zero]
      exact fun none => again.pos.ne' (Exact.magnitude_eq_zero_iff.mpr none)
    obtain ⟨canonical', top'⟩ := canonical_of_decode decoded pos'
    exact (Decimal.isSignificant_significant canonical' pos' top' places).unique again

/-- A double of normal size is near enough to up to fifteen digits. -/
theorem close_of_few_digits {d : Decimal.Scientific} {negative : Bool}
    (finite : (readAs negative d).isFinite = true) (few : places ≤ 14)
    (normal : 2 ^ (-1022 : ℤ) ≤ d.toRat) (leading : d.digits = 10 ^ places) :
    d.toRat - |value (readAs negative d)| ≤ 10 ^ (d.exponent - 1) / 2 := by
  have error := abs_rounded_sub_le_mul (normal.trans (le_abs_self _))
  rw [abs_of_nonneg d.toRat_nonneg] at error
  have unit := Decimal.ten_zpow_pos (d.exponent - 1)
  have size : d.toRat = 10 ^ (places + 1) * 10 ^ (d.exponent - 1) := by
    have power := Decimal.ten_zpow_succ (d.exponent - 1)
    rw [sub_add_cancel] at power
    rw [Decimal.Scientific.toRat, leading, power]
    push_cast
    ring
  have digits : (10 : ℚ) ^ (places + 1) ≤ 10 ^ 15 := pow_le_pow_right₀ (by norm_num) (by omega)
  have bound : d.toRat ≤ 10 ^ 15 * 10 ^ (d.exponent - 1) := by
    rw [size]
    exact mul_le_mul_of_nonneg_right digits unit.le
  rw [(isRounding_readAs negative d).value finite, abs_rounded_withSign,
    abs_of_nonneg (rounded_nonneg d.toRat_nonneg)]
  have below := (abs_le.mp error).1
  linarith

end

end Reckoner.Display
