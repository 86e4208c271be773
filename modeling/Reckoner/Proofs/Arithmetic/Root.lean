import Reckoner.Arithmetic.Root
import Reckoner.Binary.Root
import Reckoner.Proofs.Binary.Integral
import Reckoner.Proofs.Binary.Multiple

/-! Roots of negative numbers. An odd index gives the opposite of the root of the opposite number. An
even one leaves a power whose exponent is a fraction, since the reciprocal is neither rounded to zero
nor up to one, and a negative number has no such power. Only an even index from `2 ^ 63` on counts as
odd, being beyond 64 bits. -/
namespace Reckoner.Arithmetic

open Binary

/-- Whether a negative number has no power with an exponent that is not an integer. -/
def RefusesFractions (power : Float → Float → Float) : Prop :=
  ∀ b y : Float, b.isFinite = true → b < 0 → y.isFinite = true → value y ≠ ⌊value y⌋ →
    (power b y).isNaN = true

section

variable {power : Float → Float → Float} {n x : Float} {k : ℤ} {q : ℚ}

theorem clampIndex_mod_ne_zero_iff (k : ℤ) :
    clampIndex k % 2 ≠ 0 ↔ 2 ^ 63 ≤ k ∨ -2 ^ 63 ≤ k ∧ Odd k := by
  have bound : Int.pow 2 63 = 2 ^ 63 := rfl
  rw [clampIndex, bound, Int.odd_iff]
  omega

/-- An odd integer is a double only if it has few bits. -/
theorem natAbs_lt_of_odd (whole : value n = k) (odd : Odd k) : k.natAbs < 2 ^ 53 := by
  by_contra large
  have double : IsDouble k.natAbs := by
    have size := (isDouble_value n).abs
    rwa [whole, ← Int.cast_abs, Int.abs_eq_natAbs, Int.cast_natCast] at size
  have even := even_of_isDouble double (not_lt.mp large)
  have rest := Int.odd_iff.mp odd
  omega

theorem isOddIndex_iff (finite : n.isFinite = true) (whole : value n = k) :
    isOddIndex n = true ↔ Odd k ∨ 2 ^ 63 ≤ k := by
  simp only [isOddIndex, integer_of_value finite whole, bne_iff_ne]
  rw [clampIndex_mod_ne_zero_iff, or_comm]
  refine or_congr_left (and_iff_right_of_imp fun odd => ?_)
  have small := natAbs_lt_of_odd whole odd
  omega

theorem ne_floor_of_abs_le_half (notZero : q ≠ 0) (small : |q| ≤ 1 / 2) : q ≠ ⌊q⌋ := by
  intro whole
  have counted : ⌊q⌋ ≠ 0 := fun zero => notZero (by rw [whole, zero, Int.cast_zero])
  have one : (1 : ℚ) ≤ |(⌊q⌋ : ℚ)| := by exact_mod_cast Int.one_le_abs counted
  rw [← whole] at one
  linarith

/-- The reciprocal of a number from two on is not rounded to an integer. -/
theorem reciprocal_ne_floor (finite : n.isFinite = true) (large : 2 ≤ |value n|) :
    (1 / n).isFinite = true ∧ value (1 / n) ≠ ⌊value (1 / n)⌋ := by
  have one : IsMultiple 1 1 (1 : Float) := isMultiple_ofNat (by norm_num)
  have positive : 0 < |value n| := by linarith
  have division := isRounding_div one.finite finite (abs_pos.mp positive)
  rw [one.value_eq, Nat.cast_one, mul_one] at division
  have half : |1 / value n| ≤ 1 / 2 := by
    rw [abs_div, abs_one]
    exact one_div_le_one_div_of_le two_pos large
  have least : 2 ^ (-1024 : ℤ) ≤ |1 / value n| := by
    rw [abs_div, abs_one, zpow_neg, ← one_div]
    exact one_div_le_one_div_of_le positive (by exact_mod_cast (abs_value_lt n).le)
  have size := abs_rounded_le (b := 1 / 2) ⟨1, -1, by norm_num, by norm_num, by norm_num⟩ half
  have reached := le_abs_rounded (isDouble_two_zpow (by norm_num)) least
  have range : |rounded (1 / value n)| < 2 ^ 1024 :=
    size.trans_lt ((by norm_num : (1 / 2 : ℚ) < 1).trans (one_lt_pow₀ one_lt_two (by norm_num)))
  have finite' := division.isFinite range
  rw [division.value finite']
  exact ⟨finite', ne_floor_of_abs_le_half (abs_pos.mp ((two_zpow_pos _).trans_le reached)) size⟩

theorem two_le_abs_of_even (even : Even k) (notZero : k ≠ 0) : (2 : ℚ) ≤ |(k : ℚ)| := by
  have size : 2 ≤ k.natAbs := by
    obtain ⟨j, rfl⟩ := even
    omega
  rw [← Int.cast_abs, Int.abs_eq_natAbs]
  exact_mod_cast size

theorem not_neg_lt_zero (finite : x.isFinite = true) (negative : x < 0) : ¬-x < 0 := by
  obtain ⟨opposite, same⟩ := value_neg finite
  rw [lt_zero_iff_value finite] at negative
  rw [lt_zero_iff_value opposite, same]
  linarith

theorem nthRootBy_of_odd (finite : x.isFinite = true) (negative : x < 0)
    (odd : isOddIndex n = true) : nthRootBy power x n = -nthRootBy power (-x) n := by
  have opposite := not_neg_lt_zero finite negative
  simp only [nthRootBy, negative, opposite, odd, decide_true, decide_false, Bool.and_true,
    Bool.false_eq_true, if_true, if_false]

theorem nthRootBy_of_even (refuses : RefusesFractions power) (hx : x.isFinite = true)
    (negative : x < 0) (hn : n.isFinite = true) (large : 2 ≤ |value n|)
    (even : ¬isOddIndex n = true) : (nthRootBy power x n).isNaN = true := by
  obtain ⟨finite, fraction⟩ := reciprocal_ne_floor hn large
  have same : nthRootBy power x n = power x (1 / n) :=
    if_neg (by rw [Bool.and_eq_true]; exact fun both => even both.2)
  rw [same]
  exact refuses x (1 / n) hx negative finite fraction

end

/-- An even root of a negative number is NaN, however far below zero the index is, and an odd one is
the opposite of the root of the opposite number. From `2 ^ 63` on every index counts as odd. -/
theorem nthRootBy_negative (power : Float → Float → Float) (x n : Float) (k : ℤ)
    (refuses : RefusesFractions power) (hx : x.isFinite = true) (negative : x < 0)
    (hn : n.isFinite = true) (whole : value n = k) :
    nthRoot x n = nthRootBy Float.pow x n ∧
      (Even k → k ≠ 0 → k < 2 ^ 63 → (nthRootBy power x n).isNaN = true) ∧
      (Odd k ∨ 2 ^ 63 ≤ k → nthRootBy power x n = -nthRootBy power (-x) n) := by
  have counted := isOddIndex_iff hn whole
  refine ⟨rfl, fun even notZero small => ?_, fun odd => ?_⟩
  · have large : 2 ≤ |value n| := whole ▸ two_le_abs_of_even even notZero
    refine nthRootBy_of_even refuses hx negative hn large (mt counted.mp ?_)
    rw [not_or, Int.not_odd_iff_even, not_le]
    exact ⟨even, small⟩
  · exact nthRootBy_of_odd hx negative (counted.mpr odd)

/-- A power function for cube roots and for roots that are rounded to one. -/
def cubicPower (b y : Float) : Float :=
  if b < 0 && integer? y == none then nan else if y == 1 / 3 then cubeRoot b else 1

theorem refusesFractions_cubicPower : RefusesFractions cubicPower := by
  intro b y _ negative _ fraction
  have refused : cubicPower b y = nan := if_pos (by simp [negative, integer_of_fraction fraction])
  rw [refused]
  decide

theorem nthRootBy_negative_minusEight :
    RefusesFractions cubicPower ∧ (-8 : Float) < 0 ∧ value 3 = (3 : ℤ) ∧ value 4 = (4 : ℤ) ∧
      nthRootBy cubicPower (-8) 3 = -nthRootBy cubicPower (- -8) 3 ∧
        nthRootBy cubicPower (-8) 3 = -2 ∧ (nthRootBy cubicPower (-8) 4).isNaN = true := by
  have refuses := refusesFractions_cubicPower
  have negative : (-8 : Float) < 0 := by decide
  have three : value 3 = (3 : ℤ) := by decide +kernel
  have four : value 4 = (4 : ℤ) := by decide +kernel
  obtain ⟨-, -, odd⟩ :=
    nthRootBy_negative cubicPower (-8) 3 3 refuses (by decide) negative (by decide) three
  obtain ⟨-, even, -⟩ :=
    nthRootBy_negative cubicPower (-8) 4 4 refuses (by decide) negative (by decide) four
  exact ⟨refuses, negative, three, four, odd (.inl (by decide)), by decide +kernel,
    even (by decide) (by decide) (by decide)⟩

/-- The root of minus two with the even index `2 ^ 63` is minus one. -/
theorem nthRootBy_evenBeyondWords :
    ¬∀ (power : Float → Float → Float) (x n : Float) (k : ℤ), RefusesFractions power →
      x.isFinite = true → x < 0 → n.isFinite = true → value n = k → Even k → k ≠ 0 →
        (nthRootBy power x n).isNaN = true := by
  intro undefined
  have whole : value 9223372036854775808 = (9223372036854775808 : ℤ) := by decide +kernel
  have refused := undefined cubicPower (-2) 9223372036854775808 9223372036854775808
    refusesFractions_cubicPower (by decide) (by decide) (by decide) whole (by decide) (by decide)
  have real : nthRootBy cubicPower (-2) 9223372036854775808 = -1 := by decide +kernel
  rw [real] at refused
  cases refused

end Reckoner.Arithmetic
