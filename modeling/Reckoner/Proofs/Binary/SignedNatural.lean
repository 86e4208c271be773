import Reckoner.Proofs.Binary.Unsigned

/-! Natural numbers with a sign, rounded to doubles. The sign is kept also for zero, so there is
one such double for each. -/
namespace Reckoner.Binary

def IsSignedRounding (negative : Bool) (n : ℕ) (x : Float) : Prop :=
  ∃ v, decode x = some v ∧ v.negative = negative ∧ v.magnitude = rounded n

section

variable {x : Float} {negative : Bool} {n : ℕ}

theorem rounded_natCast_nonneg (n : ℕ) : 0 ≤ rounded n := rounded_nonneg (Nat.cast_nonneg n)

theorem rounded_natCast_pos (pos : 0 < n) : 0 < rounded n := by
  have one : rounded 1 = 1 := rounded_of_isDouble ⟨1, 0, by norm_num, by norm_num, by norm_num⟩
  have least : (1 : ℚ) ≤ n := by exact_mod_cast pos
  calc (0 : ℚ) < 1 := one_pos
    _ = rounded 1 := one.symm
    _ ≤ rounded n := rounded_mono least

theorem isSignedRounding_nearest (negative : Bool) (word : n < 2 ^ 64) :
    IsSignedRounding negative n (Exact.nearest ⟨negative, n, 0⟩) := by
  by_cases zero : n = 0
  · subst zero
    rw [IsSignedRounding, Nat.cast_zero, rounded_zero]
    cases negative with
    | false => exact ⟨⟨false, 0, 0⟩, by decide, rfl, by simp [Exact.magnitude]⟩
    | true => exact ⟨⟨true, 0, 0⟩, by decide, rfl, by simp [Exact.magnitude]⟩
  · have positive := rounded_natCast_pos (Nat.pos_of_ne_zero zero)
    have rounding := isRounding_nearest ⟨negative, n, 0⟩
    have written : Exact.value ⟨negative, n, 0⟩ = if negative then -(n : ℚ) else n := by
      simp [Exact.value, Exact.magnitude]
    rw [written] at rounding
    have range : |rounded (if negative then -(n : ℚ) else n)| < 2 ^ 1024 := by
      rw [abs_rounded_withSign]
      have bound : |(n : ℚ)| ≤ 2 ^ (64 : ℤ) := by
        rw [abs_of_nonneg (Nat.cast_nonneg n)]
        exact_mod_cast word.le
      refine (abs_rounded_le (isDouble_two_zpow (by norm_num)) bound).trans_lt ?_
      exact (zpow_lt_zpow_right₀ (by norm_num) (by norm_num)).trans_eq (zpow_natCast 2 1024)
    have finite := rounding.isFinite range
    obtain ⟨v, decoded⟩ := decode_of_isFinite finite
    have value := rounding.value finite
    rw [value_of_decode decoded] at value
    have magnitude : v.magnitude = rounded n := by
      rw [← abs_value, value, abs_rounded_withSign, abs_of_pos positive]
    refine ⟨v, decoded, ?_, magnitude⟩
    have sign := Exact.negative_iff (v := v) (magnitude ▸ positive)
    rw [value] at sign
    cases negative with
    | false =>
      rw [Bool.eq_false_iff]
      intro minus
      exact absurd (sign.mp minus) (not_lt.mpr positive.le)
    | true =>
      refine sign.mpr ?_
      rw [if_pos rfl, rounded_neg]
      exact neg_neg_of_pos positive

theorem isSignedRounding_iff (word : n < 2 ^ 64) :
    IsSignedRounding negative n x ↔ x = Exact.nearest ⟨negative, n, 0⟩ := by
  constructor
  · rintro ⟨v, decoded, sign, magnitude⟩
    obtain ⟨w, decoded', sign', magnitude'⟩ := isSignedRounding_nearest negative word
    exact eq_of_decode decoded decoded' (sign.trans sign'.symm) (magnitude.trans magnitude'.symm)
  · rintro rfl
    exact isSignedRounding_nearest negative word

theorem IsSignedRounding.value (h : IsSignedRounding negative n x) :
    x.isFinite = true ∧ value x = if negative then -rounded n else rounded n := by
  obtain ⟨v, decoded, rfl, magnitude⟩ := h
  refine ⟨isFinite_of_decode decoded, ?_⟩
  rw [value_of_decode decoded, Exact.value, magnitude]

end

end Reckoner.Binary
