import Reckoner.Decimal.Places
import Reckoner.Proofs.Decimal.Shortest

/-! Rounding to a number of significant digits. The digits depend on the value alone, and a number
that is no further from the rounded value than the first one was is rounded to the same digits,
unless it falls below a power of ten, where the digits get finer. -/
namespace Reckoner.Decimal

open Binary

theorem Ratio.isNearest_nearest {r : Ratio} (pos : 0 < r.den) : IsNearest r.toRat r.nearest := by
  have posQ : (0 : ℚ) < r.den := by exact_mod_cast pos
  have split : r.toRat = (r.num / r.den : ℕ) + (r.num % r.den : ℕ) / r.den := by
    rw [Ratio.toRat, eq_comm, eq_div_iff posQ.ne', add_mul, div_mul_cancel₀ _ posQ.ne']
    exact_mod_cast Nat.div_add_mod' r.num r.den
  have rest : (r.num % r.den : ℕ) / (r.den : ℚ) < 1 := by
    rw [div_lt_one posQ]
    exact_mod_cast Nat.mod_lt r.num pos
  have rest' : 0 ≤ (r.num % r.den : ℕ) / (r.den : ℚ) := by positivity
  unfold Ratio.nearest
  dsimp only
  rw [split]
  generalize r.num / r.den = below
  generalize fraction : ((r.num % r.den : ℕ) : ℚ) / r.den = f at rest rest'
  split
  · rename_i less
    have half : f < 1 / 2 := by
      rw [← fraction, div_lt_div_iff₀ posQ (by norm_num)]
      exact_mod_cast (by omega : r.num % r.den * 2 < 1 * r.den)
    have distance : |(below : ℚ) + f - (below : ℤ)| = f := by
      push_cast
      rw [add_sub_cancel_left, abs_of_nonneg rest']
    exact ⟨by rw [distance]; exact half.le, fun tie => absurd (distance ▸ tie) half.ne⟩
  split
  · rename_i more
    have half : 1 / 2 < f := by
      rw [← fraction, div_lt_div_iff₀ (by norm_num) posQ]
      exact_mod_cast (by omega : 1 * r.den < r.num % r.den * 2)
    have distance : |(below : ℚ) + f - ((below + 1 : ℕ) : ℤ)| = 1 - f := by
      push_cast
      rw [abs_of_nonpos (by linarith)]
      ring
    constructor
    · rw [distance]
      linarith
    · intro tie
      rw [distance] at tie
      linarith
  · have half : f = 1 / 2 := by
      rw [← fraction, div_eq_div_iff posQ.ne' (by norm_num)]
      exact_mod_cast (by omega : r.num % r.den * 2 = 1 * r.den)
    have even : Even ((below + below % 2 : ℕ) : ℤ) := by
      rw [Int.even_coe_nat, Nat.even_iff]
      omega
    refine ⟨?_, fun _ => even⟩
    rw [half, abs_le]
    rcases Nat.mod_two_eq_zero_or_one below with zero | one
    · rw [zero]
      push_cast
      constructor <;> linarith
    · rw [one]
      push_cast
      constructor <;> linarith

section

variable {m : ℕ} {e place : ℤ} {q w : ℚ} {places : ℕ} {d : Scientific}

theorem leadingPlace_of_le {lower : ℕ} (h : (10 : ℚ) ^ place ≤ m * 2 ^ e) :
    leadingPlace m e lower place = place := by
  cases lower with
  | zero => rfl
  | succ lower =>
    have den := Ratio.den_onGrid_pos m e place
    have hit : (Ratio.onGrid m e place).den ≤ (Ratio.onGrid m e place).num := by
      have bound : ((1 : ℕ) : ℚ) ≤ (Ratio.onGrid m e place).toRat := by
        rw [Ratio.toRat_onGrid, le_div_iff₀ (ten_zpow_pos place), Nat.cast_one, one_mul]
        exact h
      have := (Ratio.le_num_iff den).mpr bound
      omega
    simp only [leadingPlace, hit, if_true]

theorem leadingPlace_of_lt {lower : ℕ} (h : (m : ℚ) * 2 ^ e < 10 ^ place) :
    leadingPlace m e (lower + 1) place = leadingPlace m e lower (place - 1) := by
  have den := Ratio.den_onGrid_pos m e place
  have miss : ¬(Ratio.onGrid m e place).den ≤ (Ratio.onGrid m e place).num := by
    intro hit
    have bound := (Ratio.le_num_iff (d := 1) den).mp (by omega)
    rw [Ratio.toRat_onGrid, le_div_iff₀ (ten_zpow_pos place), Nat.cast_one, one_mul] at bound
    linarith
  simp only [leadingPlace, miss, if_false]

/-- The leading digit is found from the estimate that the bits give. -/
theorem leadingPlace_spec (canonical : IsCanonical m e) (pos : 0 < m) (top : e ≤ 971) :
    (10 : ℚ) ^ leadingPlace m e 4 (placeAbove m e) ≤ m * 2 ^ e ∧
      (m : ℚ) * 2 ^ e < 10 ^ (leadingPlace m e 4 (placeAbove m e) + 1) := by
  have bits : m.log2 ≤ 52 := by
    have := (Nat.log2_lt pos.ne').mpr canonical.short
    omega
  have least := canonical.least
  have scale := two_zpow_pos e
  obtain ⟨low, high⟩ := ten_zpow_leadingPlaceOfPower (k := e + m.log2) (by omega) (by omega)
  have above : placeAbove m e = leadingPlaceOfPower (e + m.log2) + 2 := rfl
  generalize leadingPlaceOfPower (e + m.log2) = p at low high above
  have leading : (2 : ℚ) ^ (e + m.log2) ≤ m * 2 ^ e := by
    have bound : (2 : ℚ) ^ m.log2 ≤ m := by exact_mod_cast Nat.log2_self_le pos.ne'
    rw [add_comm, ← two_pow_mul_zpow]
    exact mul_le_mul_of_nonneg_right bound scale.le
  have below : (m : ℚ) * 2 ^ e < 2 * 2 ^ (e + m.log2) := by
    have bound : (m : ℚ) < 2 ^ (m.log2 + 1) := by exact_mod_cast Nat.lt_log2_self
    rw [add_comm e, ← two_pow_mul_zpow, ← mul_assoc, ← pow_succ']
    exact mul_lt_mul_of_pos_right bound scale
  have ten (k : ℤ) : (10 : ℚ) ^ (k + 1) = 10 * 10 ^ k := by
    rw [zpow_add_one₀ (by norm_num), mul_comm]
  have second : (m : ℚ) * 2 ^ e < 10 ^ (p + 2) := by
    rw [show p + 2 = p + 1 + 1 by ring, ten]
    have := ten_zpow_pos (p + 1)
    linarith
  rw [above, leadingPlace_of_lt second, show p + 2 - 1 = p + 1 by ring]
  by_cases first : (10 : ℚ) ^ (p + 1) ≤ m * 2 ^ e
  · rw [leadingPlace_of_le first]
    exact ⟨first, by rwa [show p + 1 + 1 = p + 2 by ring]⟩
  · rw [not_le] at first
    rw [leadingPlace_of_lt first, show p + 1 - 1 = p by ring,
      leadingPlace_of_le (low.trans leading)]
    exact ⟨low.trans leading, first⟩

/-- Whether some digits with a power of ten are what a number is rounded to: to the digits from its
leading one on, or, when they carry, to the next power of ten. -/
inductive IsSignificant (q : ℚ) (places : ℕ) : Scientific → Prop
  | kept {lead : ℤ} {n : ℕ} (low : (10 : ℚ) ^ lead ≤ q) (high : q < 10 ^ (lead + 1))
      (nearest : IsNearest (q / 10 ^ (lead - places)) n) (short : n ≠ 10 ^ (places + 1)) :
      IsSignificant q places ⟨n, lead - places⟩
  | carried {lead : ℤ} (low : (10 : ℚ) ^ lead ≤ q) (high : q < 10 ^ (lead + 1))
      (nearest : IsNearest (q / 10 ^ (lead - places)) ((10 ^ (places + 1) : ℕ) : ℤ)) :
      IsSignificant q places ⟨10 ^ places, lead + 1 - places⟩

theorem isSignificant_significant (canonical : IsCanonical m e) (pos : 0 < m) (top : e ≤ 971)
    (places : ℕ) :
    IsSignificant (m * 2 ^ e) places (significant m e places) := by
  obtain ⟨low, high⟩ := leadingPlace_spec canonical pos top
  unfold significant
  rw [if_neg pos.ne']
  dsimp only
  generalize leadingPlace m e 4 (placeAbove m e) = lead at low high
  have nearest := Ratio.isNearest_nearest (Ratio.den_onGrid_pos m e (lead - places))
  rw [Ratio.toRat_onGrid] at nearest
  split
  · rename_i carry
    rw [carry] at nearest
    exact .carried low high nearest
  · rename_i short
    exact .kept low high nearest short

theorem IsSignificant.pos (h : IsSignificant q places d) : 0 < q := by
  cases h with
  | kept low => exact (ten_zpow_pos _).trans_le low
  | carried low => exact (ten_zpow_pos _).trans_le low

theorem lead_unique {a b : ℤ} (lowA : (10 : ℚ) ^ a ≤ q) (highA : q < 10 ^ (a + 1))
    (lowB : (10 : ℚ) ^ b ≤ q) (highB : q < 10 ^ (b + 1)) : a = b := by
  have left := (zpow_lt_zpow_iff_right₀ (by norm_num : (1 : ℚ) < 10)).mp (lowA.trans_lt highB)
  have right := (zpow_lt_zpow_iff_right₀ (by norm_num : (1 : ℚ) < 10)).mp (lowB.trans_lt highA)
  omega

theorem IsSignificant.unique {c : Scientific} (hd : IsSignificant q places d)
    (hc : IsSignificant q places c) : d = c := by
  cases hd with
  | kept low high nearest short =>
    cases hc with
    | kept low' high' nearest' short' =>
      cases lead_unique low high low' high'
      have same : (_ : ℤ) = _ := nearest.unique nearest'
      rw [Nat.cast_inj.mp same]
    | carried low' high' nearest' =>
      cases lead_unique low high low' high'
      exact absurd (Nat.cast_inj.mp (nearest.unique nearest')) short
  | carried low high nearest =>
    cases hc with
    | kept low' high' nearest' short' =>
      cases lead_unique low high low' high'
      exact absurd (Nat.cast_inj.mp (nearest'.unique nearest)) short'
    | carried low' high' nearest' =>
      cases lead_unique low high low' high'
      rfl

theorem ten_zpow_eq (k : ℤ) (i : ℕ) : (10 : ℚ) ^ k = 10 ^ i * 10 ^ (k - i) := by
  rw [← zpow_natCast, ← zpow_add₀ (by norm_num), add_sub_cancel]

theorem ten_zpow_succ (k : ℤ) : (10 : ℚ) ^ (k + 1) = 10 * 10 ^ k := by
  rw [zpow_add_one₀ (by norm_num), mul_comm]

theorem ten_zpow_next (lead : ℤ) (places : ℕ) :
    (10 : ℚ) ^ (lead + 1) = 10 ^ (places + 1) * 10 ^ (lead - places) := by
  rw [ten_zpow_succ, ten_zpow_eq lead places, pow_succ]
  ring

/-- Just below a power of ten the digits carry. -/
theorem isSignificant_of_below {lead : ℤ} (below : w < 10 ^ (lead + 1))
    (close : 10 ^ (lead + 1) - w ≤ 10 ^ (lead - places) / 2) :
    IsSignificant w places ⟨10 ^ places, lead + 1 - places⟩ := by
  have unit := ten_zpow_pos (lead - places)
  have start := ten_zpow_eq lead places
  have next := ten_zpow_next lead places
  have digits : (1 : ℚ) ≤ 10 ^ places := one_le_pow₀ (by norm_num)
  have up : w / 10 ^ (lead - places) < 10 ^ (places + 1) := by
    rwa [div_lt_iff₀ unit, ← next]
  have down : (10 : ℚ) ^ (places + 1) - 1 / 2 ≤ w / 10 ^ (lead - places) := by
    rw [le_div_iff₀ unit, sub_mul, ← next]
    linarith
  have low : (10 : ℚ) ^ lead ≤ w := by
    rw [le_div_iff₀ unit] at down
    rw [start]
    refine le_trans (mul_le_mul_of_nonneg_right ?_ unit.le) down
    rw [pow_succ]
    linarith
  refine .carried low below ⟨?_, fun _ => ?_⟩
  · push_cast
    rw [abs_le]
    constructor <;> linarith
  · rw [Int.even_coe_nat]
    exact (by decide : Even 10).pow_of_ne_zero places.succ_ne_zero

/-- A number that is no further from its digits than the one they were taken from has the same digits.
Below a power of ten the digits are finer, so there it has to be closer. -/
theorem isSignificant_kept {lead : ℤ} {n : ℕ} (low : (10 : ℚ) ^ lead ≤ q)
    (high : q < 10 ^ (lead + 1)) (nearest : IsNearest (q / 10 ^ (lead - places)) n)
    (short : n ≠ 10 ^ (places + 1))
    (closer : |w - n * 10 ^ (lead - places)| ≤ |q - n * 10 ^ (lead - places)|)
    (fine : n = 10 ^ places →
      n * 10 ^ (lead - places) - w ≤ (10 : ℚ) ^ (lead - places - 1) / 2) :
    IsSignificant w places ⟨n, lead - places⟩ := by
  have unit := ten_zpow_pos (lead - places)
  have start := ten_zpow_eq lead places
  have next := ten_zpow_next lead places
  rw [abs_sub_mul unit, abs_sub_mul unit] at closer
  have nearest' := nearest.of_closer (le_of_mul_le_mul_right closer unit)
  have bounds := abs_le.mp nearest'.close
  rw [Int.cast_natCast] at bounds
  -- The digits are between those of the two powers of ten.
  have least : 10 ^ places ≤ n := by
    have order := (isNearest_intCast ((10 ^ places : ℕ) : ℤ)).mono nearest (by
      push_cast
      rwa [le_div_iff₀ unit, ← start])
    exact_mod_cast order
  have most : n < 10 ^ (places + 1) := by
    have order := nearest.mono (isNearest_intCast ((10 ^ (places + 1) : ℕ) : ℤ)) (by
      push_cast
      rw [div_le_iff₀ unit, ← next]
      exact high.le)
    exact lt_of_le_of_ne (by exact_mod_cast order) short
  have most' : (n : ℚ) + 1 ≤ 10 ^ (places + 1) := by exact_mod_cast most
  have high' : w < 10 ^ (lead + 1) := by
    rw [next, ← div_lt_iff₀ unit]
    linarith
  by_cases low' : (10 : ℚ) ^ lead ≤ w
  · exact .kept low' high' nearest' short
  · rw [not_le] at low'
    have leading : n = 10 ^ places := by
      have below : w / 10 ^ (lead - places) < 10 ^ places := by
        rwa [div_lt_iff₀ unit, ← start]
      have close : (n : ℚ) < 10 ^ places + 1 := by linarith
      have : n < 10 ^ places + 1 := by exact_mod_cast close
      omega
    have close := fine leading
    rw [leading] at close ⊢
    push_cast at close
    rw [← start, sub_right_comm] at close
    have carried := @isSignificant_of_below w places (lead - 1)
    rw [sub_add_cancel] at carried
    exact carried low' close

/-- Digits that carried carry again, or have become those of a power of ten. -/
theorem isSignificant_carried {lead : ℤ} (high : q < 10 ^ (lead + 1))
    (nearest : IsNearest (q / 10 ^ (lead - places)) ((10 ^ (places + 1) : ℕ) : ℤ))
    (closer : |w - 10 ^ (lead + 1)| ≤ |q - 10 ^ (lead + 1)|) :
    IsSignificant w places ⟨10 ^ places, lead + 1 - places⟩ := by
  have unit := ten_zpow_pos (lead - places)
  have next : (10 : ℚ) ^ (lead + 1) = 10 ^ places * 10 ^ (lead + 1 - places) :=
    ten_zpow_eq (lead + 1) places
  have coarse : (10 : ℚ) ^ (lead + 1 - places) = 10 * 10 ^ (lead - places) := by
    rw [← ten_zpow_succ, sub_add_eq_add_sub]
  have near : 10 ^ (lead + 1) - q ≤ 10 ^ (lead - places) / 2 := by
    have down := (abs_le.mp nearest.close).1
    push_cast at down
    rw [pow_succ, neg_le_sub_iff_le_add, ← sub_le_iff_le_add, le_div_iff₀ unit] at down
    rw [next, coarse]
    linarith
  rw [abs_of_nonpos (by linarith : q - 10 ^ (lead + 1) ≤ 0)] at closer
  by_cases below : w < 10 ^ (lead + 1)
  · rw [abs_of_neg (by linarith)] at closer
    exact isSignificant_of_below below (by linarith)
  · rw [not_lt] at below
    rw [abs_of_nonneg (by linarith)] at closer
    have unit' := ten_zpow_pos (lead + 1 - places)
    have digits : (10 : ℚ) ^ (lead + 1 - places) ≤ 10 ^ (lead + 1) := by
      rw [next]
      exact le_mul_of_one_le_left unit'.le (one_le_pow₀ (by norm_num))
    have high' : w < 10 ^ (lead + 1 + 1) := by
      rw [ten_zpow_succ (lead + 1)]
      linarith
    have split : w / 10 ^ (lead + 1 - places) - ((10 ^ places : ℕ) : ℤ) =
        (w - 10 ^ (lead + 1)) / 10 ^ (lead + 1 - places) := by
      rw [sub_div, next, mul_div_assoc, div_self unit'.ne', mul_one]
      push_cast
      rfl
    have small : |w / 10 ^ (lead + 1 - places) - ((10 ^ places : ℕ) : ℤ)| < 1 / 2 := by
      rw [split, abs_of_nonneg (div_nonneg (by linarith) unit'.le), div_lt_iff₀ unit']
      linarith
    exact .kept below high' ⟨small.le, fun tie => absurd tie small.ne⟩
      (Nat.pow_lt_pow_right (by norm_num) places.lt_succ_self).ne

theorem IsSignificant.of_closer (hd : IsSignificant q places d)
    (closer : |w - d.toRat| ≤ |q - d.toRat|)
    (fine : d.digits = 10 ^ places → d.toRat - w ≤ 10 ^ (d.exponent - 1) / 2) :
    IsSignificant w places d := by
  unfold Scientific.toRat at closer fine
  cases hd with
  | kept low high nearest short => exact isSignificant_kept low high nearest short closer fine
  | @carried lead low high nearest =>
    refine isSignificant_carried high nearest ?_
    rw [ten_zpow_eq (lead + 1) places]
    exact_mod_cast closer

end

end Reckoner.Decimal
