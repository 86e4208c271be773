import Reckoner.Proofs.Arithmetic.PowerOfTen
import Reckoner.Proofs.Binary.Factor
import Reckoner.Proofs.Display.Shortest

/-! Text with a fixed number of decimal places: what it is read back as, and when that is shown by
the same text. -/
namespace Reckoner.Display

open Arithmetic (tenTo approximates_tenTo)
open Binary

/-- The double whose fewest digits are shown. -/
def atPlaces (x : Float) (places : ℕ) : Float :=
  if 9007199254740992.0 ≤ x.abs then x
  else if (x * tenTo places).isFinite && (tenTo places).isFinite then
    roundHalfUp (x * tenTo places) / tenTo places
  else x

section

variable {x y : Float} {places : ℕ}

theorem fixed_eq (x : Float) (places : ℕ) : fixed x places = shortest (atPlaces x places) := by
  unfold fixed atPlaces
  dsimp only
  split
  · rfl
  split <;> rfl

theorem isFinite_tenTo (h : places ≤ maxPlaces) : (tenTo places).isFinite = true := by
  unfold maxPlaces at h
  exact (approximates_tenTo (by omega) (by omega)).finite

theorem nine_pow_le_value_tenTo (h : places ≤ maxPlaces) : 9 ^ places ≤ value (tenTo places) := by
  unfold maxPlaces at h
  have close := (approximates_tenTo (n := places) (by omega) (by omega)).close.low
  rw [if_neg (by omega), add_zero, Int.natAbs_natCast, zpow_natCast, ← mul_pow] at close
  exact (pow_le_pow_left₀ (by norm_num) (by norm_num [kept]) places).trans close

theorem one_le_value_tenTo (h : places ≤ maxPlaces) : 1 ≤ value (tenTo places) :=
  (one_le_pow₀ (by norm_num)).trans (nine_pow_le_value_tenTo h)

theorem value_tenTo_le (h : places ≤ maxPlaces) : value (tenTo places) ≤ 2 ^ (400 : ℤ) := by
  unfold maxPlaces at h
  have close := (approximates_tenTo (n := places) (by omega) (by omega)).close.high
  rw [if_neg (by omega), add_zero, Int.natAbs_natCast, zpow_natCast] at close
  have positive : 0 ≤ value (tenTo places) := zero_le_one.trans (one_le_value_tenTo h)
  have half : 1 / 2 ≤ kept ^ places := by
    have count : (places : ℚ) ≤ 100 := by exact_mod_cast h
    have most := le_kept_pow places
    linarith
  have bound := (mul_le_mul_of_nonneg_left half positive).trans close
  calc value (tenTo places) ≤ 2 * 10 ^ places := by linarith
    _ ≤ 2 * 10 ^ 100 :=
      mul_le_mul_of_nonneg_left (pow_le_pow_right₀ (by norm_num) h) (by norm_num)
    _ ≤ 2 ^ 400 := by
      have powers : 2 * 10 ^ 100 ≤ 2 ^ 400 := by decide +kernel
      exact_mod_cast powers
    _ = 2 ^ (400 : ℤ) := (zpow_natCast 2 400).symm

/-- Multiplication, rounding half up and division, on the values. -/
theorem value_roundHalfUp_div (finite : (x * tenTo places).isFinite = true) (hx : x.isFinite = true)
    (h : places ≤ maxPlaces) :
    (roundHalfUp (x * tenTo places) / tenTo places).isFinite = true ∧
      value (roundHalfUp (x * tenTo places) / tenTo places) =
        rounded (⌊rounded (rounded (value x * value (tenTo places)) + 1 / 2)⌋ /
          value (tenTo places)) := by
  have power := isFinite_tenTo h
  have one := one_le_value_tenTo h
  have positive : 0 < value (tenTo places) := one_pos.trans_le one
  obtain ⟨whole, same⟩ := value_roundHalfUp finite
  rw [(isRounding_mul hx power).value finite] at same
  have rounding := isRounding_div whole power positive.ne'
  rw [same] at rounding
  have range : |rounded (⌊rounded (rounded (value x * value (tenTo places)) + 1 / 2)⌋ /
      value (tenTo places))| < 2 ^ 1024 := by
    rw [← same]
    have smaller : |value (roundHalfUp (x * tenTo places)) / value (tenTo places)| ≤
        |value (roundHalfUp (x * tenTo places))| := by
      rw [abs_div, abs_of_pos positive]
      exact div_le_self (abs_nonneg _) one
    exact (abs_rounded_le (isDouble_value _).abs smaller).trans_lt (abs_value_lt _)
  have result := rounding.isFinite range
  exact ⟨result, rounding.value result⟩

theorem isFinite_atPlaces (finite : x.isFinite = true) (h : places ≤ maxPlaces) :
    (atPlaces x places).isFinite = true := by
  unfold atPlaces
  split
  · exact finite
  split
  · rename_i scaled
    rw [Bool.and_eq_true] at scaled
    exact (value_roundHalfUp_div scaled.1 finite h).1
  · exact finite

/-- Either the number stays as it is, or it is rounded at the decimal place. -/
theorem value_atPlaces (finite : x.isFinite = true) (h : places ≤ maxPlaces) :
    value (atPlaces x places) = value x ∨
      value (atPlaces x places) =
        rounded (⌊rounded (rounded (value x * value (tenTo places)) + 1 / 2)⌋ /
          value (tenTo places)) := by
  unfold atPlaces
  split
  · exact .inl rfl
  split
  · rename_i scaled
    rw [Bool.and_eq_true] at scaled
    exact .inr (value_roundHalfUp_div scaled.1 finite h).2
  · exact .inl rfl

theorem evaluateText_fixed (finite : x.isFinite = true) (h : places ≤ maxPlaces)
    (angle : AngleMode) (policy : ParenPolicy) :
    ∃ y, evaluateText (fixed x places) {} angle policy = .ok y ∧
      y.isFinite = true ∧ value y = value (atPlaces x places) := by
  rw [fixed_eq]
  exact evaluateText_shortest (isFinite_atPlaces finite h) angle policy

/-- The rounding of a number that was rounded already. -/
theorem value_atPlaces_div {k : ℤ} (hy : y.isFinite = true) (h : places ≤ maxPlaces)
    (double : IsDouble k) (same : value y = rounded (k / value (tenTo places)))
    (settled : |k| < 2 ^ 51 ∨ 2 ^ 53 < |k|) : value (atPlaces y places) = value y := by
  rcases value_atPlaces hy h with kept | again
  · exact kept
  · rw [again, same]
    have top : value (tenTo places) ≤ 2 ^ (1021 : ℤ) :=
      (value_tenTo_le h).trans (zpow_le_zpow_right₀ (by norm_num) (by norm_num))
    exact rounded_floor_div_mul double (isDouble_value _) (one_le_value_tenTo h) top settled

theorem fixed_eq_of_value (hx : x.isFinite = true) (hy : y.isFinite = true)
    (h : places ≤ maxPlaces) (same : value (atPlaces y places) = value (atPlaces x places)) :
    fixed y places = fixed x places := by
  rw [fixed_eq, fixed_eq]
  exact shortest_congr (isFinite_atPlaces hy h) (isFinite_atPlaces hx h) same

/-- A rounded number that is read back is rounded to itself, unless it has 52 or 53 bits when it is
counted in units of the last place. -/
theorem fixed_eq_of_settled (hx : x.isFinite = true) (hy : y.isFinite = true)
    (h : places ≤ maxPlaces) (same : value y = value (atPlaces x places))
    (settled : 9007199254740992.0 ≤ x.abs ∨ |value (roundHalfUp (x * tenTo places))| < 2 ^ 51 ∨
      2 ^ 53 < |value (roundHalfUp (x * tenTo places))|) :
    fixed y places = fixed x places := by
  have unchanged (kept : atPlaces x places = x) : fixed y places = fixed x places := by
    rw [kept] at same
    by_cases zero : value x = 0
    · have double : IsDouble (0 : ℤ) := isDouble_intCast (by norm_num)
      have quotient : value y = rounded ((0 : ℤ) / value (tenTo places)) := by
        rw [same, zero, Int.cast_zero, zero_div, rounded_zero]
      have again := value_atPlaces_div hy h double quotient (.inl (by norm_num))
      exact fixed_eq_of_value hx hy h (again.trans (same.trans (congrArg value kept.symm)))
    · rw [eq_of_value_eq hx hy same.symm zero]
  by_cases large : 9007199254740992.0 ≤ x.abs
  · exact unchanged (if_pos large)
  by_cases scaled : ((x * tenTo places).isFinite && (tenTo places).isFinite) = true
  · have finite := (Bool.and_eq_true _ _).mp scaled |>.1
    have power := isFinite_tenTo h
    have whole := (value_roundHalfUp finite).2
    have quotient := (value_roundHalfUp_div finite hx h).2
    rw [(isRounding_mul hx power).value finite] at whole
    have rounds : atPlaces x places = roundHalfUp (x * tenTo places) / tenTo places := by
      rw [atPlaces, if_neg large, if_pos scaled]
    have shown := same.trans ((congrArg value rounds).trans quotient)
    have double := isDouble_value (roundHalfUp (x * tenTo places))
    rw [whole] at settled double
    have again := value_atPlaces_div hy h double shown
      (by exact_mod_cast settled.resolve_left large)
    exact fixed_eq_of_value hx hy h (again.trans same)
  · exact unchanged (by rw [atPlaces, if_neg large, if_neg scaled])

end

end Reckoner.Display
