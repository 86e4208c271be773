import Reckoner.Proofs.Decimal.Literal

/-! The fewest digits of a double. A point of a decimal grid that lies between the two bounds around
a double is rounded to the double, and on one of the grids that are tried there is such a point. -/
namespace Reckoner.Decimal

open Binary

def Ratio.toRat (r : Ratio) : ℚ := r.num / r.den

section

variable (m : ℕ) (e place : ℤ)

theorem ten_zpow_pos (k : ℤ) : (0 : ℚ) < 10 ^ k := zpow_pos (by norm_num) k

theorem Ratio.den_onGrid_pos : 0 < (Ratio.onGrid m e place).den :=
  Nat.mul_pos (Nat.pow_pos (by norm_num)) (Nat.pow_pos (by norm_num))

theorem zpow_eq_div_toNat {a : ℚ} (ha : a ≠ 0) (k : ℤ) : a ^ k = a ^ k.toNat / a ^ (-k).toNat := by
  rw [← zpow_natCast, ← zpow_natCast, ← zpow_sub₀ ha]
  congr 1
  omega

theorem Ratio.toRat_onGrid : (Ratio.onGrid m e place).toRat = m * 2 ^ e / 10 ^ place := by
  rw [zpow_eq_div_toNat (by norm_num : (2 : ℚ) ≠ 0) e,
    zpow_eq_div_toNat (by norm_num : (10 : ℚ) ≠ 0) place]
  simp only [Ratio.toRat, Ratio.onGrid, Nat.pow_eq]
  push_cast
  field_simp

variable {m e place} {d : ℕ} {r : Ratio} {q : ℚ}

theorem Ratio.num_le_iff (pos : 0 < r.den) : r.num ≤ d * r.den ↔ r.toRat ≤ d := by
  rw [Ratio.toRat, div_le_iff₀ (by exact_mod_cast pos)]
  norm_cast

theorem Ratio.le_num_iff (pos : 0 < r.den) : d * r.den ≤ r.num ↔ d ≤ r.toRat := by
  rw [Ratio.toRat, le_div_iff₀ (by exact_mod_cast pos)]
  norm_cast

/-- Whether a number lies between the bounds around `m · 2 ^ e`, which belong to it when `m` is
even. -/
structure InInterval (m : ℕ) (e : ℤ) (q : ℚ) : Prop where
  low : lowerEnd m e * 2 ^ (e - 2) ≤ q
  high : q ≤ upperEnd m * 2 ^ (e - 2)
  strict : m % 2 = 1 → lowerEnd m e * 2 ^ (e - 2) < q ∧ q < upperEnd m * 2 ^ (e - 2)

theorem roundsTo_iff : roundsTo m e place d = true ↔ InInterval m e (d * 10 ^ place) := by
  have scale := ten_zpow_pos place
  have lowPos := Ratio.den_onGrid_pos (lowerEnd m e) (e - 2) place
  have highPos := Ratio.den_onGrid_pos (upperEnd m) (e - 2) place
  have low : (Ratio.onGrid (lowerEnd m e) (e - 2) place).num ≤
      d * (Ratio.onGrid (lowerEnd m e) (e - 2) place).den ↔
      lowerEnd m e * 2 ^ (e - 2) ≤ (d : ℚ) * 10 ^ place := by
    rw [Ratio.num_le_iff lowPos, Ratio.toRat_onGrid, div_le_iff₀ scale]
  have high : d * (Ratio.onGrid (upperEnd m) (e - 2) place).den ≤
      (Ratio.onGrid (upperEnd m) (e - 2) place).num ↔
      (d : ℚ) * 10 ^ place ≤ upperEnd m * 2 ^ (e - 2) := by
    rw [Ratio.le_num_iff highPos, Ratio.toRat_onGrid, le_div_iff₀ scale]
  have above : (Ratio.onGrid (lowerEnd m e) (e - 2) place).num <
      d * (Ratio.onGrid (lowerEnd m e) (e - 2) place).den ↔
      lowerEnd m e * 2 ^ (e - 2) < (d : ℚ) * 10 ^ place := by
    rw [← not_le, Ratio.le_num_iff lowPos, Ratio.toRat_onGrid, le_div_iff₀ scale, not_le]
  have below : d * (Ratio.onGrid (upperEnd m) (e - 2) place).den <
      (Ratio.onGrid (upperEnd m) (e - 2) place).num ↔
      (d : ℚ) * 10 ^ place < upperEnd m * 2 ^ (e - 2) := by
    rw [← not_le, Ratio.num_le_iff highPos, Ratio.toRat_onGrid, div_le_iff₀ scale, not_le]
  unfold roundsTo
  dsimp only
  by_cases even : m % 2 = 0
  · rw [if_pos even, Bool.and_eq_true, decide_eq_true_eq, decide_eq_true_eq, low, high]
    constructor
    · intro ⟨low, high⟩
      exact ⟨low, high, fun odd => by omega⟩
    · intro inside
      exact ⟨inside.low, inside.high⟩
  · rw [if_neg even, Bool.and_eq_true, decide_eq_true_eq, decide_eq_true_eq, above, below]
    constructor
    · intro ⟨above, below⟩
      exact ⟨above.le, below.le, fun _ => ⟨above, below⟩⟩
    · intro inside
      exact inside.strict (by omega)

theorem quarters (n : ℕ) (e : ℤ) : (n : ℚ) * 2 ^ (e - 2) = n / 4 * 2 ^ e := by
  rw [zpow_sub₀ (by norm_num)]
  norm_num
  ring

theorem upperEnd_eq (m : ℕ) : (upperEnd m : ℚ) = 4 * m + 2 := by exact_mod_cast rfl

theorem lowerEnd_ge (m : ℕ) (e : ℤ) : (4 : ℚ) * m - 2 ≤ lowerEnd m e := by
  have bound : 4 * m ≤ lowerEnd m e + 2 := by
    unfold lowerEnd
    split <;> omega
  have : (4 : ℚ) * m ≤ lowerEnd m e + 2 := by exact_mod_cast bound
  linarith

theorem InInterval.pos (inside : InInterval m e q) (pos : 0 < m) : 0 < q := by
  have posQ : (1 : ℚ) ≤ m := by exact_mod_cast pos
  have least := lowerEnd_ge m e
  refine lt_of_lt_of_le ?_ inside.low
  exact mul_pos (by linarith) (two_zpow_pos _)

/-- Between the bounds a number is within half a unit of the mantissa, and strictly so if the mantissa
is odd. -/
theorem InInterval.nearest (inside : InInterval m e q) : IsNearest (q / 2 ^ e) m := by
  obtain ⟨low, high, strict⟩ := inside
  have scale := two_zpow_pos e
  have lower := lowerEnd_ge m e
  rw [quarters] at low high
  rw [quarters, quarters] at strict
  rw [upperEnd_eq] at high strict
  have lowM : (m : ℚ) - 1 / 2 ≤ q / 2 ^ e := by
    rw [le_div_iff₀ scale]
    exact (mul_le_mul_of_nonneg_right (by linarith) scale.le).trans low
  have highM : q / 2 ^ e ≤ m + 1 / 2 := by
    rw [div_le_iff₀ scale]
    exact high.trans (mul_le_mul_of_nonneg_right (by linarith) scale.le)
  constructor
  · rw [abs_le]
    push_cast
    constructor <;> linarith
  · intro half
    by_contra odd
    rw [Int.not_even_iff_odd, Int.odd_coe_nat, Nat.odd_iff] at odd
    obtain ⟨above, below⟩ := strict odd
    have lowStrict : (m : ℚ) - 1 / 2 < q / 2 ^ e := by
      rw [lt_div_iff₀ scale]
      exact (mul_le_mul_of_nonneg_right (by linarith) scale.le).trans_lt above
    have highStrict : q / 2 ^ e < m + 1 / 2 := by
      rw [div_lt_iff₀ scale]
      exact below.trans_le (mul_le_mul_of_nonneg_right (by linarith) scale.le)
    refine half.not_lt ?_
    rw [abs_lt]
    push_cast
    constructor <;> linarith

/-- A number between the bounds that is below the power of two at which the grid of the double begins
is on the finer grid, but rounds up to that power. -/
theorem InInterval.rounded_below (inside : InInterval m e q) (notLeast : -1074 < e)
    (leading : m = 2 ^ 52) (finer : q < 2 ^ 52 * 2 ^ e) : rounded q = 2 ^ 52 * 2 ^ e := by
  have positive := inside.pos (leading ▸ by norm_num)
  have low := inside.low
  have ends : (lowerEnd m e : ℚ) = 4 * 2 ^ 52 - 1 := by
    rw [lowerEnd, if_pos ⟨leading, notLeast⟩, leading]
    norm_num
  have half : (2 : ℚ) ^ e = 2 * 2 ^ (e - 1) := by
    rw [← zpow_one_add₀ (by norm_num)]
    congr 1
    ring
  have scale := two_zpow_pos (e - 1)
  rw [quarters, ends, half] at low
  rw [half] at finer
  have short : |q| < 2 ^ 53 * 2 ^ (e - 1) := by
    rw [abs_of_pos positive]
    linarith
  have normal : 2 ^ 52 * 2 ^ (e - 1) ≤ |q| := by
    rw [abs_of_pos positive]
    linarith
  have grid := quantum_eq (by omega) short (.inr normal) positive.ne'
  have lowM : (2 : ℚ) ^ 53 - 1 / 2 ≤ q / 2 ^ (e - 1) := by
    rw [le_div_iff₀ scale]
    linarith
  have highM : q / 2 ^ (e - 1) < 2 ^ 53 := by
    rw [div_lt_iff₀ scale]
    linarith
  have nearest : IsNearest (q / 2 ^ (e - 1)) (2 ^ 53) := by
    refine ⟨?_, fun _ => by decide⟩
    rw [abs_le]
    push_cast
    constructor <;> linarith
  rw [Binary.rounded, grid, nearest.eq, half]
  norm_num
  ring

/-- A number between the bounds is rounded to the double they are around. -/
theorem InInterval.rounded (inside : InInterval m e q) (canonical : IsCanonical m e) (pos : 0 < m) :
    rounded q = m * 2 ^ e := by
  have scale := two_zpow_pos e
  have positive := inside.pos pos
  have close := abs_le.mp inside.nearest.close
  rw [Int.cast_natCast] at close
  by_cases sameGrid : e = -1074 ∨ 2 ^ 52 * 2 ^ e ≤ q
  · have short : |q| < 2 ^ 53 * 2 ^ e := by
      have mantissa : (m : ℚ) + 1 ≤ 2 ^ 53 := by exact_mod_cast canonical.short
      rw [abs_of_pos positive, ← div_lt_iff₀ scale]
      linarith
    have grid := quantum_eq canonical.least short (sameGrid.imp_right (abs_of_pos positive).symm.subst)
      positive.ne'
    rw [Binary.rounded, grid, inside.nearest.eq, Int.cast_natCast]
  · rw [not_or, not_le] at sameGrid
    obtain ⟨notLeast, finer⟩ := sameGrid
    have least := canonical.least
    have leading : m = 2 ^ 52 := by
      have below : q / 2 ^ e < 2 ^ 52 := by rwa [div_lt_iff₀ scale]
      have less : (m : ℚ) < 2 ^ 52 + 1 := by linarith
      have atMost : m < 2 ^ 52 + 1 := by exact_mod_cast less
      have atLeast := canonical.normal.resolve_left notLeast
      omega
    rw [inside.rounded_below (by omega) leading finer, leading]
    norm_num

theorem roundsTo_of_gridPoint (h : gridPoint? m e place = some d) :
    roundsTo m e place d = true := by
  unfold gridPoint? at h
  dsimp only at h
  split at h
  · rename_i below above
    split at h <;> cases h
    · exact below
    · exact above
  · rename_i below _
    cases h
    exact below
  · rename_i _ above
    cases h
    exact above
  · cases h

/-- On a grid that is finer than the bounds are apart, one of the two points around the double lies
between them. -/
theorem gridPoint_isSome (pos : 0 < m) (fine : (10 : ℚ) ^ place < 3 * 2 ^ (e - 2)) :
    (gridPoint? m e place).isSome = true := by
  have den := Ratio.den_onGrid_pos m e place
  have scale := ten_zpow_pos place
  have value := Ratio.toRat_onGrid m e place
  have unit := two_zpow_pos (e - 2)
  have posQ : (1 : ℚ) ≤ m := by exact_mod_cast pos
  have center : (m : ℚ) * 2 ^ e = 4 * m * 2 ^ (e - 2) := by
    have := quarters (4 * m) e
    push_cast at this
    rw [this]
    ring
  generalize point : (Ratio.onGrid m e place).num / (Ratio.onGrid m e place).den = n
  have belowCenter : (n : ℚ) * 10 ^ place ≤ 4 * m * 2 ^ (e - 2) := by
    have floor : n ≤ (Ratio.onGrid m e place).toRat := by
      rw [← Ratio.le_num_iff den, ← point]
      exact Nat.div_mul_le_self _ _
    rwa [value, le_div_iff₀ scale, center] at floor
  have aboveCenter : 4 * m * 2 ^ (e - 2) < ((n + 1 : ℕ) : ℚ) * 10 ^ place := by
    have ceiling : (Ratio.onGrid m e place).toRat < (n + 1 : ℕ) := by
      rw [← not_le, ← Ratio.le_num_iff den, not_le, ← point, mul_comm]
      exact Nat.lt_mul_div_succ _ den
    rwa [value, div_lt_iff₀ scale, center] at ceiling
  have lower : (lowerEnd m e : ℚ) ≤ 4 * m - 1 := by
    have bound : lowerEnd m e + 1 ≤ 4 * m := by
      unfold lowerEnd
      split <;> omega
    have : (lowerEnd m e : ℚ) + 1 ≤ 4 * m := by exact_mod_cast bound
    linarith
  have lowBound := mul_le_mul_of_nonneg_right lower unit.le
  have hit : roundsTo m e place n = true ∨ roundsTo m e place (n + 1) = true := by
    rw [roundsTo_iff, roundsTo_iff]
    by_cases near : lowerEnd m e * 2 ^ (e - 2) < (n : ℚ) * 10 ^ place
    · refine .inl ⟨near.le, ?_, fun _ => ⟨near, ?_⟩⟩ <;> rw [upperEnd_eq] <;> linarith
    · have beyond : ((n + 1 : ℕ) : ℚ) * 10 ^ place < upperEnd m * 2 ^ (e - 2) := by
        push_cast at aboveCenter ⊢
        rw [upperEnd_eq]
        linarith
      refine .inr ⟨?_, beyond.le, fun _ => ⟨?_, beyond⟩⟩ <;> linarith
  unfold gridPoint?
  dsimp only
  rw [point]
  rcases hit with below | above
  · rw [below]
    split <;> simp_all
  · rw [above]
    split <;> simp_all

/-- A search that reaches a fine enough grid ends at a point that rounds to the double. -/
theorem roundsTo_search (pos : 0 < m) {tries : ℕ} :
    ∀ {place : ℤ}, (10 : ℚ) ^ (place - tries) < 3 * 2 ^ (e - 2) →
      roundsTo m e (search m e (tries + 1) place).exponent (search m e (tries + 1) place).digits =
        true := by
  induction tries with
  | zero =>
    intro place fine
    rw [Nat.cast_zero, sub_zero] at fine
    obtain ⟨d, hit⟩ := Option.isSome_iff_exists.mp (gridPoint_isSome pos fine)
    rw [search, hit]
    exact roundsTo_of_gridPoint hit
  | succ tries ih =>
    intro place fine
    rw [search]
    cases hit : gridPoint? m e place with
    | some d => exact roundsTo_of_gridPoint hit
    | none =>
      refine ih ?_
      have exponent : place - 1 - (tries : ℤ) = place - ((tries + 1 : ℕ) : ℤ) := by
        push_cast
        ring
      rwa [exponent]

/-- The place below which a power of two has its leading digit. -/
def leadingPlaceOfPower (k : ℤ) : ℤ := (k * 30103).fdiv 100000

/-- The rational that stands for the logarithm of two is close enough for every double. -/
theorem ten_zpow_leadingPlaceOfPower {k : ℤ} (least : -1074 ≤ k) (most : k ≤ 1023) :
    (10 : ℚ) ^ leadingPlaceOfPower k ≤ 2 ^ k ∧ (2 : ℚ) ^ k < 10 ^ (leadingPlaceOfPower k + 1) := by
  have table : ∀ i : ℕ, i < 2098 →
      (Ratio.onGrid 1 (i - 1074) (leadingPlaceOfPower (i - 1074))).den ≤
          (Ratio.onGrid 1 (i - 1074) (leadingPlaceOfPower (i - 1074))).num ∧
        (Ratio.onGrid 1 (i - 1074) (leadingPlaceOfPower (i - 1074))).num <
          10 * (Ratio.onGrid 1 (i - 1074) (leadingPlaceOfPower (i - 1074))).den := by
    decide +kernel
  have entry := table (k + 1074).toNat (by omega)
  have index : (((k + 1074).toNat : ℕ) : ℤ) - 1074 = k := by omega
  rw [index] at entry
  obtain ⟨low, high⟩ := entry
  have den := Ratio.den_onGrid_pos 1 k (leadingPlaceOfPower k)
  have scale := ten_zpow_pos (leadingPlaceOfPower k)
  have value := Ratio.toRat_onGrid 1 k (leadingPlaceOfPower k)
  rw [Nat.cast_one, one_mul] at value
  constructor
  · have bound := (Ratio.le_num_iff (d := 1) den).mp (by omega)
    rwa [value, Nat.cast_one, one_le_div scale] at bound
  · have bound := mt (Ratio.le_num_iff (d := 10) den).mpr (by omega)
    rw [value, not_le, div_lt_iff₀ scale] at bound
    rwa [zpow_add_one₀ (by norm_num), mul_comm]

/-- The fewest digits of a double round to it. -/
theorem rounded_shortest (canonical : IsCanonical m e) (pos : 0 < m) (top : e ≤ 971) :
    rounded (shortest m e).toRat = m * 2 ^ e := by
  have bits : m.log2 ≤ 52 := by
    have := (Nat.log2_lt pos.ne').mpr canonical.short
    omega
  have least := canonical.least
  have fine : (10 : ℚ) ^ (placeAbove m e - (19 : ℕ)) < 3 * 2 ^ (e - 2) := by
    have estimate : placeAbove m e ≤ leadingPlaceOfPower (e + 52) + 2 := by
      have order : (e + m.log2) * 30103 ≤ (e + 52) * 30103 := by omega
      unfold placeAbove leadingPlaceOfPower
      rw [Int.fdiv_eq_ediv_of_nonneg _ (by norm_num), Int.fdiv_eq_ediv_of_nonneg _ (by norm_num)]
      omega
    have power := (ten_zpow_leadingPlaceOfPower (k := e + 52) (by omega) (by omega)).1
    have split : (2 : ℚ) ^ (e + 52) = 2 ^ 54 * 2 ^ (e - 2) := by
      rw [two_pow_mul_zpow]
      congr 1
      push_cast
      ring
    have unit := two_zpow_pos (e - 2)
    calc (10 : ℚ) ^ (placeAbove m e - (19 : ℕ))
        ≤ 10 ^ (leadingPlaceOfPower (e + 52) - 17) :=
          zpow_le_zpow_right₀ (by norm_num) (by push_cast; omega)
      _ = 10 ^ leadingPlaceOfPower (e + 52) / 10 ^ (17 : ℤ) := zpow_sub₀ (by norm_num) _ _
      _ ≤ 2 ^ (e + 52) / 10 ^ (17 : ℤ) := div_le_div_of_nonneg_right power (by norm_num)
      _ < 3 * 2 ^ (e - 2) := by
          rw [div_lt_iff₀ (by norm_num), split]
          norm_num
          linarith
  have found := roundsTo_search pos fine
  rw [shortest, if_neg pos.ne']
  exact (roundsTo_iff.mp found).rounded canonical pos

end

end Reckoner.Decimal
