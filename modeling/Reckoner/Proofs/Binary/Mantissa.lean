import Mathlib.Algebra.Order.Field.Power
import Reckoner.Proofs.Binary.Rounding

/-! Rounding a mantissa. A mantissa is shifted until it fits; two further bits keep what the shifts
drop, and they are enough to find the nearest double. -/
namespace Reckoner.Binary

open Float.Model (UnpackedFloat Format totalExponent)
open Float.Model.UnpackedFloat

/-- Whether a mantissa and an exponent are those of a double. Only at the smallest exponent is the
leading bit free. -/
structure IsCanonical (m : ℕ) (e : ℤ) : Prop where
  short : m < 2 ^ 53
  least : -1074 ≤ e
  normal : e = -1074 ∨ 2 ^ 52 ≤ m

/-- Whether a mantissa with its two further bits stands for a number: the bits say in which half of
the unit the number is, and whether it is at the half's begin. -/
structure Represents (em : ExtendedMantissa) (r : ℚ) : Prop where
  low : em.mantissa + (if em.roundBit then 1 / 2 else 0) ≤ r
  high : r < em.mantissa + (if em.roundBit then 1 / 2 else 0) + 1 / 2
  sticky : em.stickyBit = true ↔ r ≠ em.mantissa + (if em.roundBit then 1 / 2 else 0)

section

variable {em : ExtendedMantissa} {r : ℚ}

theorem Represents.shiftRightOne (h : Represents em r) :
    Represents em.shiftRightOne (r / 2) := by
  obtain ⟨low, high, sticky⟩ := h
  have halves : (em.mantissa : ℚ) / 2 =
      (em.mantissa / 2 : ℕ) + (if em.mantissa % 2 != 0 then 1 / 2 else 0) := by
    have division : (em.mantissa : ℚ) = 2 * (em.mantissa / 2 : ℕ) + (em.mantissa % 2 : ℕ) := by
      exact_mod_cast (Nat.div_add_mod em.mantissa 2).symm
    rcases Nat.mod_two_eq_zero_or_one em.mantissa with even | odd
    · rw [even] at division ⊢
      simp only [bne_self_eq_false, Bool.false_eq_true, if_false]
      push_cast at division
      linarith
    · rw [odd] at division ⊢
      simp only [bne_iff_ne, ne_eq, one_ne_zero, not_false_eq_true, if_true]
      push_cast at division
      linarith
  constructor
  · change ((em.mantissa / 2 : ℕ) : ℚ) + (if em.mantissa % 2 != 0 then 1 / 2 else 0) ≤ _
    rw [← halves]
    split at low <;> linarith
  · change _ < ((em.mantissa / 2 : ℕ) : ℚ) + (if em.mantissa % 2 != 0 then 1 / 2 else 0) + 1 / 2
    rw [← halves]
    split at high <;> linarith
  · change (em.roundBit || em.stickyBit) = true ↔
      r / 2 ≠ ((em.mantissa / 2 : ℕ) : ℚ) + (if em.mantissa % 2 != 0 then 1 / 2 else 0)
    rw [← halves, Bool.or_eq_true, sticky, ne_eq, ne_eq, div_left_inj' (by norm_num)]
    cases round : em.roundBit with
    | false => simp
    | true =>
      rw [round] at low
      simp only [if_true] at low
      have above : r ≠ em.mantissa := by linarith
      simp [above]

theorem Represents.shiftRight (h : Represents em r) (n : ℕ) :
    Represents (em >>> n) (r / 2 ^ n) := by
  induction n with
  | zero =>
    rw [pow_zero, div_one]
    exact h
  | succ n ih =>
    rw [pow_succ, ← div_div]
    exact ih.shiftRightOne

theorem Represents.roundedMantissa (h : Represents em r) : IsNearest r em.roundedMantissa := by
  obtain ⟨low, high, sticky⟩ := h
  obtain ⟨m, round, rest⟩ := em
  cases round with
  | false =>
    simp only [Bool.false_eq_true, if_false, add_zero] at low high sticky
    have taken : (ExtendedMantissa.mk m false rest).roundedMantissa = m := by cases rest <;> rfl
    rw [taken]
    have distance : |r - (m : ℤ)| = r - m := by
      push_cast
      exact abs_of_nonneg (by linarith)
    constructor
    · rw [distance]
      linarith
    · intro half
      rw [distance] at half
      linarith
  | true =>
    simp only [if_true] at low high sticky
    cases rest with
    | false =>
      have half : r = m + 1 / 2 := by
        by_contra other
        cases sticky.mpr other
      change IsNearest r (m + m % 2 : ℕ)
      have parity := Nat.mod_two_eq_zero_or_one m
      have even : Even ((m + m % 2 : ℕ) : ℤ) := by
        rw [Int.even_coe_nat, Nat.even_iff]
        omega
      refine ⟨?_, fun _ => even⟩
      rw [half, abs_le]
      rcases parity with zero | one
      · rw [zero]
        push_cast
        constructor <;> linarith
      · rw [one]
        push_cast
        constructor <;> linarith
    | true =>
      have above := sticky.mp rfl
      have strict : (m : ℚ) + 1 / 2 < r := lt_of_le_of_ne low (Ne.symm above)
      change IsNearest r (m + 1 : ℕ)
      have distance : |r - ((m + 1 : ℕ) : ℤ)| = m + 1 - r := by
        push_cast
        rw [abs_of_nonpos (by linarith)]
        ring
      constructor
      · rw [distance]
        linarith
      · intro half
        rw [distance] at half
        linarith

theorem represents_exact (m : ℕ) :
    Represents (ExtendedMantissa.ofMantissaAndAccuracy m .exact) m := by
  constructor <;> simp [ExtendedMantissa.ofMantissaAndAccuracy]

theorem represents_fraction (m : ℕ) {a b : ℕ} (less : a < b) :
    Represents (ExtendedMantissa.ofMantissaAndAccuracy m (accuracyOfFraction a b))
      (m + a / b) := by
  have positive : (0 : ℚ) < b := by exact_mod_cast Nat.zero_lt_of_lt less
  have below : (a : ℚ) / b < 1 := by
    rw [div_lt_one positive]
    exact_mod_cast less
  unfold accuracyOfFraction
  by_cases zero : a = 0
  · rw [if_pos zero, zero]
    simpa using represents_exact m
  have above : 0 < (a : ℚ) / b := div_pos (by exact_mod_cast Nat.pos_of_ne_zero zero) positive
  rw [if_neg zero]
  cases order : compare (2 * a) b with
  | lt =>
    have less := Nat.compare_eq_lt.mp order
    have half : (a : ℚ) / b < 1 / 2 := by
      rw [div_lt_div_iff₀ positive (by norm_num)]
      exact_mod_cast (by omega : a * 2 < 1 * b)
    constructor <;> simp [ExtendedMantissa.ofMantissaAndAccuracy] <;> first | linarith | omega
  | eq =>
    have same := Nat.compare_eq_eq.mp order
    have half : (a : ℚ) / b = 1 / 2 := by
      rw [div_eq_div_iff positive.ne' (by norm_num)]
      exact_mod_cast (by omega : a * 2 = 1 * b)
    rw [half]
    constructor <;> simp [ExtendedMantissa.ofMantissaAndAccuracy]
  | gt =>
    have more := Nat.compare_eq_gt.mp order
    have half : 1 / 2 < (a : ℚ) / b := by
      rw [div_lt_div_iff₀ (by norm_num) positive]
      exact_mod_cast (by omega : 1 * b < a * 2)
    constructor
    · simp [ExtendedMantissa.ofMantissaAndAccuracy]
      linarith
    · simp [ExtendedMantissa.ofMantissaAndAccuracy]
      linarith
    · simp [ExtendedMantissa.ofMantissaAndAccuracy]
      linarith

theorem Represents.floor (h : Represents em r) : em.mantissa ≤ r ∧ r < em.mantissa + 1 := by
  have low := h.low
  have high := h.high
  constructor
  · split at low <;> linarith
  · split at high <;> linarith

theorem targetExponent_eq (m : ℕ) (e : ℤ) :
    Format.binary64.targetExponent (totalExponent m e) = max (m.log2 + e - 52) (-1074) := by
  have bits : Format.binary64.mantissaBits = 53 := rfl
  have least : Format.binary64.minExponent = -1074 := rfl
  rw [Format.targetExponent, totalExponent, bits, least]
  omega

/-- The exponent that a mantissa is shifted to is that of the grid around the number. -/
theorem targetExponent_eq_quantum {m : ℕ} {e : ℤ} (low : m ≤ r) (high : r < m + 1) (pos : 0 < r)
    (fits : 2 ^ 52 ≤ m ∨ e ≤ -1074) :
    Format.binary64.targetExponent (totalExponent m e) = quantum (r * 2 ^ e) := by
  have scale := two_zpow_pos e
  have positive : 0 < r * 2 ^ e := mul_pos pos scale
  rw [targetExponent_eq, quantum, abs_of_pos positive]
  by_cases zero : m = 0
  · have least : e ≤ -1074 := by omega
    have short : Int.log 2 (r * 2 ^ e) < e := by
      refine (Int.lt_zpow_iff_log_lt Nat.one_lt_two positive).mp ?_
      rw [zero] at high
      push_cast at high ⊢
      nlinarith
    rw [zero, Nat.log2_zero]
    omega
  · have top : Int.log 2 (r * 2 ^ e) = m.log2 + e := by
      apply le_antisymm
      · have carry : (m : ℚ) + 1 ≤ 2 ^ (m.log2 + 1) := by exact_mod_cast Nat.lt_log2_self
        refine Int.lt_add_one_iff.mp ((Int.lt_zpow_iff_log_lt Nat.one_lt_two positive).mp ?_)
        have exponent : (m.log2 : ℤ) + e + 1 = (m.log2 + 1 : ℕ) + e := by omega
        rw [exponent, Nat.cast_ofNat, ← two_pow_mul_zpow]
        exact mul_lt_mul_of_pos_right (high.trans_le carry) scale
      · have leading : (2 : ℚ) ^ m.log2 ≤ m := by exact_mod_cast Nat.log2_self_le zero
        refine (Int.zpow_le_iff_le_log Nat.one_lt_two positive).mp ?_
        rw [Nat.cast_ofNat, ← two_pow_mul_zpow]
        exact mul_le_mul_of_nonneg_right (leading.trans low) scale.le
    rw [top]

theorem shiftToTargetExponent_eq (m : ℕ) (e : ℤ) (accuracy : Accuracy) :
    shiftToTargetExponent Format.binary64 m e accuracy =
      (ExtendedMantissa.ofMantissaAndAccuracy m accuracy >>>
          (Format.binary64.targetExponent (totalExponent m e) - e).toNat,
        e + (Format.binary64.targetExponent (totalExponent m e) - e).toNat) := rfl

/-- A mantissa that carries into the next power of two is shifted once more. -/
theorem shiftToTargetExponent_carried {m : ℕ} {e : ℤ} (short : m ≤ 2 ^ 53) (least : -1074 ≤ e)
    (normal : e = -1074 ∨ 2 ^ 52 ≤ m) :
    ∃ (n : ℕ) (k : ℤ), IsCanonical n k ∧ (n : ℚ) * 2 ^ k = m * 2 ^ e ∧
      shiftToTargetExponent Format.binary64 m e .exact = (⟨n, false, false⟩, k) := by
  rw [shiftToTargetExponent_eq, targetExponent_eq]
  rcases short.lt_or_eq with strict | carry
  · have bits : m.log2 ≤ 52 := by
      by_cases zero : m = 0
      · rw [zero, Nat.log2_zero]
        omega
      · have := (Nat.log2_lt zero).mpr strict
        omega
    have none : (max (m.log2 + e - 52) (-1074) - e).toNat = 0 := by omega
    refine ⟨m, e, ⟨strict, least, normal⟩, rfl, ?_⟩
    rw [none, Nat.cast_zero, add_zero]
    rfl
  · have bits : m.log2 = 53 := by rw [carry, Nat.log2_two_pow]
    have one : (max (m.log2 + e - 52) (-1074) - e).toNat = 1 := by omega
    refine ⟨2 ^ 52, e + 1, ⟨by norm_num, by omega, .inr le_rfl⟩, ?_, ?_⟩
    · rw [carry, two_zpow_add]
      push_cast
      ring
    · rw [one, carry]
      rfl

theorem mantissa_ofMantissaAndAccuracy (m : ℕ) (accuracy : Accuracy) :
    (ExtendedMantissa.ofMantissaAndAccuracy m accuracy).mantissa = m := by
  cases accuracy with
  | exact => rfl
  | inexact order => cases order <;> rfl

/-- A mantissa with enough bits, and what is known about the rest of the number, make the nearest
double. -/
theorem roundWithAccuracy_eq {m : ℕ} {e : ℤ} {accuracy : Accuracy}
    (stands : Represents (ExtendedMantissa.ofMantissaAndAccuracy m accuracy) r) (pos : 0 < r)
    (fits : 2 ^ 52 ≤ m ∨ e ≤ -1074) (s : Sign) :
    ∃ (n : ℕ) (k : ℤ), IsCanonical n k ∧ (n : ℚ) * 2 ^ k = rounded (r * 2 ^ e) ∧
      roundWithAccuracy Format.binary64 s m e accuracy =
        if h : n = 0 then .zero s else .finite s n k (Nat.pos_of_ne_zero h) := by
  obtain ⟨low, high⟩ := stands.floor
  rw [mantissa_ofMantissaAndAccuracy] at low high
  have target := targetExponent_eq_quantum low high pos fits
  have least : -1074 ≤ quantum (r * 2 ^ e) := le_max_right _ _
  have below : e ≤ quantum (r * 2 ^ e) := by
    rw [← target, targetExponent_eq]
    rcases fits with bits | small
    · have zero : m ≠ 0 := by omega
      have := (Nat.le_log2 zero).mpr bits
      omega
    · omega
  generalize grid : quantum (r * 2 ^ e) = t at target least below
  have positive : 0 < r * 2 ^ e := mul_pos pos (two_zpow_pos e)
  have shifted : r / 2 ^ (t - e).toNat = r * 2 ^ e / 2 ^ t := by
    rw [div_eq_div_iff (by positivity) (by positivity), mul_assoc, ← zpow_natCast, ← two_zpow_add]
    congr 2
    omega
  have kept := (stands.shiftRight (t - e).toNat).roundedMantissa
  rw [shifted] at kept
  have mantissa := kept.eq
  generalize first : ExtendedMantissa.roundedMantissa (ExtendedMantissa.ofMantissaAndAccuracy m
    accuracy >>> (t - e).toNat) = n at kept mantissa
  have short : n ≤ 2 ^ 53 := by
    have bound := abs_lt_two_zpow_quantum (r * 2 ^ e)
    rw [abs_of_pos positive, grid, ← div_lt_iff₀ (two_zpow_pos t)] at bound
    have ceiling := kept.mono (isNearest_intCast (2 ^ 53)) (by exact_mod_cast bound.le)
    exact_mod_cast ceiling
  have normal : t = -1074 ∨ 2 ^ 52 ≤ n := by
    by_cases smallest : t = -1074
    · exact .inl smallest
    have bound := two_zpow_quantum_le positive.ne' (by omega)
    rw [abs_of_pos positive, grid, ← le_div_iff₀ (two_zpow_pos t)] at bound
    have floor := (isNearest_intCast (2 ^ 52)).mono kept (by exact_mod_cast bound)
    exact .inr (by exact_mod_cast floor)
  obtain ⟨n', k, canonical, value, carried⟩ := shiftToTargetExponent_carried short least normal
  refine ⟨n', k, canonical, ?_, ?_⟩
  · rw [value, rounded, grid, mantissa]
    norm_cast
  · have exponent : e + ((t - e).toNat : ℤ) = t := by omega
    rw [roundWithAccuracy, shiftToTargetExponent_eq, target, exponent]
    dsimp only
    rw [first, carried]

end

end Reckoner.Binary
