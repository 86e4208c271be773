import Mathlib.Data.Nat.Choose.Basic
import Reckoner.Arithmetic.Counting
import Reckoner.Proofs.Arithmetic.PowerOfTen
import Reckoner.Proofs.Binary.Multiple
import Reckoner.Proofs.Binary.Overflow

/-! Permutations and combinations as quotients of factorials. A divisor of a double is a double, so
up to `22!`, the last factorial that is one, nothing is rounded. From there each factor of a
factorial adds one rounding, and from `171!` on the factorials are infinite. -/
namespace Reckoner.Binary

theorem IsDouble.of_dvd {N d : ℕ} (double : IsDouble N) (pos : 0 < N) (divides : d ∣ N) :
    IsDouble d := by
  obtain ⟨m, e, short, _, same⟩ := double
  obtain ⟨a, u, odd, rfl⟩ := Nat.exists_eq_two_pow_mul_odd (Nat.pos_of_dvd_of_pos divides pos).ne'
  have size : (N : ℚ) = m.natAbs * 2 ^ e := by
    rw [← Nat.abs_cast N, same, abs_mul, abs_of_pos (two_zpow_pos e),
      Nat.cast_natAbs, Int.cast_abs]
  have short' : m.natAbs < 2 ^ 53 := by
    rw [Int.abs_eq_natAbs] at short
    exact_mod_cast short
  -- The odd part of the divisor divides the mantissa.
  have small : u < 2 ^ 53 := by
    have part : u ∣ N := (Dvd.intro_left _ rfl).trans divides
    rcases le_total 0 e with whole | fraction
    · obtain ⟨k, rfl⟩ := Int.eq_ofNat_of_zero_le whole
      have product : N = m.natAbs * 2 ^ k := by
        rw [zpow_natCast] at size
        exact_mod_cast size
      rw [product] at part pos
      have coprime : Nat.Coprime u (2 ^ k) := (Nat.coprime_two_right.mpr odd).pow_right k
      have inside := Nat.le_of_dvd (Nat.pos_of_mul_pos_right pos)
        (coprime.dvd_of_dvd_mul_right part)
      omega
    · have unit : (2 : ℚ) ^ e ≤ 1 := zpow_le_one_of_nonpos₀ one_le_two fraction
      have below : (N : ℚ) ≤ m.natAbs := by
        rw [size]
        exact mul_le_of_le_one_right (Nat.cast_nonneg _) unit
      have whole : N ≤ m.natAbs := by exact_mod_cast below
      have inside := Nat.le_of_dvd pos part
      omega
  refine ⟨u, a, ?_, by omega, ?_⟩
  · rw [Nat.abs_cast]
    exact_mod_cast small
  · push_cast
    rw [zpow_natCast, mul_comm]

theorem isDouble_factorial {n : ℕ} (few : n ≤ 22) : IsDouble n.factorial := by
  have last : IsDouble (Nat.factorial 22) := by
    have product : Nat.factorial 22 = 2143861251406875 * 2 ^ 19 := by decide
    refine ⟨2143861251406875, 19, by norm_num, by norm_num, ?_⟩
    rw [product]
    push_cast
    norm_num
  exact last.of_dvd (Nat.factorial_pos 22) (Nat.factorial_dvd_factorial few)

end Reckoner.Binary

namespace Reckoner.Arithmetic

open Binary

def IsWhole (x : Float) (n : ℕ) : Prop := x.isFinite = true ∧ value x = n

def product (n : ℕ) : Float := (List.range' 2 (n - 1)).foldl (fun p i => p * Float.ofNat i) 1

section

variable {i j k m n r : ℕ} {p q : ℚ} {x y : Float}

theorem IsWhole.approximates (h : IsWhole x n) : Approximates 0 n x := by
  refine ⟨h.1, ?_⟩
  rw [h.2]
  exact .refl _

theorem isWhole_ofNat (short : n ≤ 2 ^ 53) : IsWhole (Float.ofNat n) n := by
  have exact := isMultiple_ofNat short
  exact ⟨exact.finite, by rw [exact.value_eq, mul_one]⟩

theorem isWhole_of_isRounding (rounding : IsRounding m x) (double : IsDouble m)
    (range : m < 2 ^ 1024) : IsWhole x m := by
  refine rounding.exact double ?_
  rw [Nat.abs_cast]
  exact_mod_cast range

theorem IsWhole.mul (hx : IsWhole x m) (hy : IsWhole y n) (double : IsDouble (m * n : ℕ))
    (range : m * n < 2 ^ 1024) : IsWhole (x * y) (m * n) := by
  have rounding := isRounding_mul hx.1 hy.1
  rw [hx.2, hy.2, ← Nat.cast_mul] at rounding
  exact isWhole_of_isRounding rounding double range

theorem IsWhole.div (hx : IsWhole x (m * n)) (hy : IsWhole y n) (pos : 0 < n)
    (double : IsDouble m) (range : m < 2 ^ 1024) : IsWhole (x / y) m := by
  have notZero : (n : ℚ) ≠ 0 := by exact_mod_cast pos.ne'
  have rounding := isRounding_div hx.1 hy.1 (by rwa [hy.2])
  rw [hx.2, hy.2, Nat.cast_mul, mul_div_cancel_right₀ _ notZero] at rounding
  exact isWhole_of_isRounding rounding double range

theorem IsWhole.sub (hx : IsWhole x n) (hy : IsWhole y r) (le : r ≤ n) (short : n ≤ 2 ^ 53) :
    IsWhole (x - y) (n - r) := by
  have rounding := isRounding_sub hx.1 hy.1
  rw [hx.2, hy.2, ← Nat.cast_sub le] at rounding
  have short' : n - r ≤ 2 ^ 53 := (Nat.sub_le n r).trans short
  refine isWhole_of_isRounding rounding (isDouble_natCast short') (short'.trans_lt ?_)
  exact pow_lt_pow_right₀ one_lt_two (by norm_num)

theorem product_succ (pos : 0 < n) : product (n + 1) = product n * Float.ofNat (n + 1) := by
  obtain ⟨k, rfl⟩ := Nat.exists_eq_succ_of_ne_zero pos.ne'
  simp only [product, Nat.add_sub_cancel, Nat.succ_eq_add_one, List.range'_1_concat,
    List.foldl_concat]
  congr 2
  omega

theorem factorial_lt (few : n ≤ 22) : n.factorial < 2 ^ 1024 := by
  have last : Nat.factorial 22 < 2 ^ 70 := by decide
  calc n.factorial ≤ Nat.factorial 22 := Nat.factorial_le few
    _ < 2 ^ 70 := last
    _ ≤ 2 ^ 1024 := pow_le_pow_right₀ one_le_two (by norm_num)

theorem isWhole_product (few : n ≤ 22) : IsWhole (product n) n.factorial := by
  induction n with
  | zero => exact isWhole_ofNat (n := 1) (by norm_num)
  | succ n ih =>
    rcases Nat.eq_zero_or_pos n with rfl | pos
    · exact isWhole_ofNat (n := 1) (by norm_num)
    have range := factorial_lt few
    rw [product_succ pos]
    rw [Nat.factorial_succ, Nat.mul_comm] at range ⊢
    refine (ih (by omega)).mul (isWhole_ofNat (by omega)) ?_ range
    rw [Nat.mul_comm, ← Nat.factorial_succ]
    exact isDouble_factorial few

theorem factorial_le (few : n ≤ 170) : (n.factorial : ℚ) ≤ 10 ^ 308 := by
  have bound : Nat.factorial 170 ≤ 10 ^ 308 := by decide +kernel
  exact_mod_cast (Nat.factorial_le few).trans bound

/-- Every factor after the first 22 adds one rounding. -/
theorem approximates_product (few : n ≤ 170) : Approximates (n - 22) n.factorial (product n) := by
  induction n with
  | zero => exact (isWhole_product (Nat.zero_le 22)).approximates
  | succ n ih =>
    by_cases short : n + 1 ≤ 22
    · have none : n + 1 - 22 = 0 := by omega
      rw [none]
      exact (isWhole_product short).approximates
    · have roundings : n + 1 - 22 = n - 22 + 0 + 1 := by omega
      have top := factorial_le few
      rw [Nat.factorial_succ, Nat.mul_comm, Nat.cast_mul] at top ⊢
      rw [product_succ (by omega), roundings]
      refine (ih (by omega)).mul (isWhole_ofNat (by omega)).approximates (by omega) ?_ ?_ top
      · exact_mod_cast n.factorial_pos
      · exact_mod_cast n.succ_pos

theorem IsWhole.factorial (h : IsWhole x n) : factorial x = product (min n 171) := by
  obtain ⟨v, decoded⟩ := decode_of_isFinite h.1
  have last : v.floor.toNat = n := by
    rw [Exact.floor_eq, ← value_of_decode decoded, h.2, Int.floor_natCast, Int.toNat_natCast]
  have nonneg : ¬x < 0 := by
    obtain ⟨finite, zero⟩ : IsWhole 0 0 := isWhole_ofNat (by norm_num)
    rw [lt_iff_value h.1 finite, h.2, zero]
    exact_mod_cast n.zero_le.not_gt
  rw [Arithmetic.factorial, isNaN_of_isFinite h.1, Bool.false_or, if_neg (by simpa using nonneg)]
  simp only [factors, decoded, last, product]

theorem IsWhole.not_lt (hx : IsWhole x n) (hy : IsWhole y r) (le : r ≤ n) : ¬x < y := by
  rw [lt_iff_value hx.1 hy.1, hx.2, hy.2]
  exact_mod_cast le.not_gt

theorem Approximates.div (hx : Approximates i p x) (hy : Approximates j q y) (few : i + j < 1000)
    (hp : 0 < p) (hq : 0 < q) (least : 1 ≤ p / q) (top : p / q ≤ 10 ^ 308) :
    Approximates (i + j + 1) (p / q) (x / y) := by
  refine approximates_of_isRounding (isRounding_div hx.finite hy.finite (hy.close.pos hq).ne')
    (hx.close.div hy.close hp hq) few ?_ top
  calc (1 / 10 ^ 307 : ℚ) ≤ 10 ^ (0 : ℤ) := one_div_le_zpow (by norm_num)
    _ ≤ p / q := least

/-- Fewer roundings than a count take a number off by less than so many parts in `2 ^ 53`. -/
theorem Approximates.abs_sub_le (h : Approximates k q x) (pos : 0 < q) (fewer : k < m)
    (few : m < 1000) : |value x - q| ≤ q * (m / 2 ^ 53) := by
  have left := le_kept_pow k
  have count : (k : ℚ) + 1 ≤ m := by exact_mod_cast fewer
  have bound : (m : ℚ) ≤ 1000 := by exact_mod_cast few.le
  have positive := h.close.pos pos
  have kept : 1 - (m - 1 : ℚ) / 2 ^ 53 ≤ kept ^ k := by linarith
  rw [abs_le]
  constructor
  · have low := (mul_le_mul_of_nonneg_left kept pos.le).trans h.close.low
    have step : q * (m / 2 ^ 53) = q * ((m - 1) / 2 ^ 53) + q / 2 ^ 53 := by ring
    have part : 0 < q / 2 ^ 53 := by positivity
    rw [step]
    linarith
  · have high := (mul_le_mul_of_nonneg_left kept positive.le).trans h.close.high
    -- What is lost of a number is made up by one part more of it.
    have more : 1 ≤ (1 - (m - 1 : ℚ) / 2 ^ 53) * (1 + m / 2 ^ 53) := by
      have square : (m : ℚ) * m ≤ 1000 * 1000 :=
        mul_le_mul bound bound m.cast_nonneg (by norm_num)
      have nonneg : (0 : ℚ) ≤ m := m.cast_nonneg
      have expanded : (1 - (m - 1 : ℚ) / 2 ^ 53) * (1 + m / 2 ^ 53) =
          1 + (1 - (m * m - m) / 2 ^ 53) / 2 ^ 53 := by ring
      rw [expanded]
      have rest : (m * m - m : ℚ) / 2 ^ 53 ≤ 1 := by
        rw [div_le_one (by norm_num)]
        linarith
      have whole : (0 : ℚ) ≤ (1 - (m * m - m) / 2 ^ 53) / 2 ^ 53 :=
        div_nonneg (sub_nonneg.mpr rest) (by norm_num)
      linarith
    have scale : (0 : ℚ) ≤ 1 + m / 2 ^ 53 := by positivity
    have bound' : value x ≤ q * (1 + m / 2 ^ 53) :=
      calc value x ≤ value x * ((1 - (m - 1 : ℚ) / 2 ^ 53) * (1 + m / 2 ^ 53)) :=
            le_mul_of_one_le_right positive.le more
        _ = value x * (1 - (m - 1 : ℚ) / 2 ^ 53) * (1 + m / 2 ^ 53) := by ring
        _ ≤ q * (1 + m / 2 ^ 53) := mul_le_mul_of_nonneg_right high scale
    linarith

theorem IsWhole.counts (hx : IsWhole x n) (hy : IsWhole y r) (le : r ≤ n) (few : n ≤ 170) :
    permutation x y = product n / product (n - r) ∧
      combination x y = product n / (product r * product (n - r)) := by
  have difference := hx.sub hy le (few.trans (by norm_num))
  have ordered := hx.not_lt hy le
  rw [permutation, combination, if_neg ordered, if_neg ordered, hx.factorial, hy.factorial,
    difference.factorial, min_eq_left (by omega), min_eq_left (by omega), min_eq_left (by omega)]
  exact ⟨rfl, rfl⟩

/-- What divides a factorial that is a double is one too. -/
theorem factorial_divisor (few : n ≤ 22) (divides : m ∣ n.factorial) :
    IsDouble m ∧ m < 2 ^ 1024 := by
  exact ⟨(isDouble_factorial few).of_dvd n.factorial_pos divides,
    (Nat.le_of_dvd n.factorial_pos divides).trans_lt (factorial_lt few)⟩

theorem isWhole_quotient (few : n ≤ 22) (hy : IsWhole y k) (split : n.factorial = m * k) :
    IsWhole (product n / y) m := by
  obtain ⟨double, range⟩ := factorial_divisor few (Dvd.intro _ split.symm)
  have positive := n.factorial_pos
  have whole := isWhole_product few
  rw [split] at positive whole
  exact whole.div hy (Nat.pos_of_mul_pos_left positive) double range

theorem approximates_quotient (few : n ≤ 170) (hy : Approximates j k y) (fewer : j ≤ 170)
    (split : n.factorial = m * k) : Approximates (n - 22 + j + 1) m (product n / y) := by
  have positive := n.factorial_pos
  rw [split] at positive
  have posM := Nat.pos_of_mul_pos_right positive
  have posK := Nat.pos_of_mul_pos_left positive
  have same : (m : ℚ) = n.factorial / k := by
    rw [eq_div_iff (by exact_mod_cast posK.ne'), split, Nat.cast_mul]
  have least : (1 : ℚ) ≤ m := by exact_mod_cast posM
  have most : (m : ℚ) ≤ n.factorial := by
    rw [split]
    exact_mod_cast Nat.le_mul_of_pos_right m posK
  rw [same] at least most ⊢
  exact (approximates_product few).div hy (by omega) (by exact_mod_cast n.factorial_pos)
    (by exact_mod_cast posK) least (most.trans (factorial_le few))

theorem factorial_eq_permutations (le : r ≤ n) :
    n.factorial = n.descFactorial r * (n - r).factorial := by
  rw [Nat.mul_comm, Nat.factorial_mul_descFactorial le]

theorem factorial_eq_combinations (le : r ≤ n) :
    n.factorial = n.choose r * (r.factorial * (n - r).factorial) := by
  rw [← Nat.mul_assoc, Nat.choose_mul_factorial_mul_factorial le]

theorem isWhole_permutation (hx : IsWhole x n) (hy : IsWhole y r) (le : r ≤ n) (few : n ≤ 22) :
    IsWhole (permutation x y) (n.descFactorial r) := by
  rw [(hx.counts hy le (by omega)).1]
  exact isWhole_quotient few (isWhole_product (by omega)) (factorial_eq_permutations le)

theorem isWhole_combination (hx : IsWhole x n) (hy : IsWhole y r) (le : r ≤ n) (few : n ≤ 22) :
    IsWhole (combination x y) (n.choose r) := by
  have split := factorial_eq_combinations le
  obtain ⟨double, range⟩ := factorial_divisor few (Dvd.intro_left _ split.symm)
  have below := (isWhole_product (by omega : r ≤ 22)).mul
    (isWhole_product (by omega : n - r ≤ 22)) double range
  rw [(hx.counts hy le (by omega)).2]
  exact isWhole_quotient few below split

theorem isWhole_one_of_value_eq (hx : x.isFinite = true) (hy : y.isFinite = true)
    (same : value x = value y) (pos : 0 < value y) : IsWhole (x / y) 1 := by
  have rounding := isRounding_div hx hy pos.ne'
  rw [same, div_self pos.ne', ← Nat.cast_one] at rounding
  exact isWhole_of_isRounding rounding (isDouble_natCast (by norm_num))
    (one_lt_pow₀ one_lt_two (by norm_num))

theorem value_mul_eq {z : Float} (hx : x.isFinite = true) (hy : y.isFinite = true)
    (same : value x * value y = value z) : (x * y).isFinite = true ∧ value (x * y) = value z := by
  have rounding := isRounding_mul hx hy
  rw [same] at rounding
  exact rounding.exact (isDouble_value z) (abs_value_lt z)

/-- There is one empty choice and one choice of everything, however the factorial has been rounded. -/
theorem isWhole_combination_ends (hx : IsWhole x n) (hy : IsWhole y r) (le : r ≤ n) (few : n ≤ 170)
    (ends : r = 0 ∨ r = n) : IsWhole (combination x y) 1 := by
  have whole := approximates_product few
  have unit : IsWhole (product 0) 1 := isWhole_product (by norm_num)
  have below : (product r * product (n - r)).isFinite = true ∧
      value (product r * product (n - r)) = value (product n) := by
    obtain rfl | rfl := ends
    · exact value_mul_eq unit.1 whole.finite (by rw [unit.2, Nat.sub_zero, Nat.cast_one, one_mul])
    · rw [Nat.sub_self]
      exact value_mul_eq whole.finite unit.1 (by rw [unit.2, Nat.cast_one, mul_one])
  have pos := whole.close.pos (by exact_mod_cast n.factorial_pos)
  rw [(hx.counts hy le few).2]
  exact isWhole_one_of_value_eq whole.finite below.1 below.2.symm (below.2.symm ▸ pos)

theorem isWhole_permutation_none (hx : IsWhole x n) (hy : IsWhole y 0) (few : n ≤ 170) :
    IsWhole (permutation x y) 1 := by
  have whole := approximates_product few
  have pos := whole.close.pos (by exact_mod_cast n.factorial_pos)
  rw [(hx.counts hy n.zero_le few).1, Nat.sub_zero]
  exact isWhole_one_of_value_eq whole.finite whole.finite rfl pos

theorem approximates_permutation (hx : IsWhole x n) (hy : IsWhole y r) (le : r ≤ n)
    (few : n ≤ 170) :
    Approximates (n - 22 + (n - r - 22) + 1) (n.descFactorial r) (permutation x y) := by
  rw [(hx.counts hy le few).1]
  exact approximates_quotient few (approximates_product (by omega)) (by omega)
    (factorial_eq_permutations le)

theorem approximates_combination (hx : IsWhole x n) (hy : IsWhole y r) (le : r ≤ n)
    (few : n ≤ 170) :
    Approximates (n - 22 + (r - 22 + (n - r - 22) + 1) + 1) (n.choose r) (combination x y) := by
  have split := factorial_eq_combinations le
  have divisor := Nat.le_of_dvd n.factorial_pos (Dvd.intro_left _ split.symm)
  have top : (r.factorial * (n - r).factorial : ℚ) ≤ 10 ^ 308 :=
    le_trans (by exact_mod_cast divisor) (factorial_le few)
  have below := (approximates_product (by omega : r ≤ 170)).mul
    (approximates_product (by omega : n - r ≤ 170)) (by omega)
    (by exact_mod_cast r.factorial_pos) (by exact_mod_cast (n - r).factorial_pos) top
  rw [← Nat.cast_mul] at below
  rw [(hx.counts hy le few).2]
  exact approximates_quotient few below (by omega) split

/-- A product overflows if it is past the largest double by more than the roundings take from it. -/
theorem Approximates.overflows (hx : Approximates k q x) (hy : IsWhole y m) (pos : 0 < q)
    (half : 1 / 2 ≤ kept ^ k) (large : 2 ^ (1024 : ℤ) * 2 ≤ q * m) :
    (x * y).isFinite = false := by
  have low := (mul_le_mul_of_nonneg_left half pos.le).trans hx.close.low
  have reached := mul_le_mul_of_nonneg_right low (Nat.cast_nonneg m)
  refine (isRounding_mul hx.finite hy.1).overflows ?_
  rw [hy.2]
  refine le_trans ?_ (le_abs_self _)
  linarith

/-- The last factorial that is finite is taken past the largest double by the next factor. -/
theorem product_infinite : (product 171).isFinite = false := by
  have half : (1 / 2 : ℚ) ≤ kept ^ (170 - 22) := by
    refine le_trans ?_ (le_kept_pow _)
    norm_num
  have large : (2 ^ (1024 : ℤ) * 2 : ℚ) ≤ Nat.factorial 170 * (171 : ℕ) := by
    have numbers : 2 ^ 1024 * 2 ≤ Nat.factorial 170 * 171 := by decide +kernel
    rw [zpow_ofNat]
    exact_mod_cast numbers
  have split : product 171 = product 170 * Float.ofNat 171 := product_succ (by norm_num)
  rw [split]
  exact (approximates_product le_rfl).overflows (isWhole_ofNat (by norm_num))
    (by exact_mod_cast Nat.factorial_pos 170) half large

theorem IsWhole.factorial_infinite (h : IsWhole x n) (many : 171 ≤ n) :
    (Arithmetic.factorial x).isFinite = false := by
  rw [h.factorial, min_eq_right many]
  exact product_infinite

/-- Permutations and combinations of up to 22 things are exact. Of up to 170 things those of none, and
combinations of all, are so too, and others are off by at most as many parts in `2 ^ 52` as there are
things. Of more things they are infinite or NaN. -/
theorem counts_of_whole (x y : Float) (n r : ℕ) (hx : IsWhole x n) (hy : IsWhole y r) (le : r ≤ n) :
    (n ≤ 22 → IsWhole (combination x y) (n.choose r) ∧
      IsWhole (permutation x y) (n.descFactorial r)) ∧
    (n ≤ 170 → (r = 0 ∨ r = n → IsWhole (combination x y) 1) ∧
      (r = 0 → IsWhole (permutation x y) 1) ∧
      (combination x y).isFinite = true ∧ (permutation x y).isFinite = true ∧
      |value (combination x y) - n.choose r| ≤ n.choose r * (n / 2 ^ 52) ∧
      |value (permutation x y) - n.descFactorial r| ≤ n.descFactorial r * (n / 2 ^ 52)) ∧
    (171 ≤ n → (combination x y).isFinite = false ∧ (permutation x y).isFinite = false) := by
  refine ⟨fun few => ⟨isWhole_combination hx hy le few, isWhole_permutation hx hy le few⟩,
    fun few => ?_, fun many => ?_⟩
  · have combinations := approximates_combination hx hy le few
    have permutations := approximates_permutation hx hy le few
    refine ⟨isWhole_combination_ends hx hy le few, ?_, combinations.finite, permutations.finite, ?_⟩
    · rintro rfl
      exact isWhole_permutation_none hx hy few
    by_cases exact : n ≤ 22
    · rw [(isWhole_combination hx hy le exact).2, (isWhole_permutation hx hy le exact).2, sub_self,
        sub_self, abs_zero]
      exact ⟨by positivity, by positivity⟩
    · have parts : (n : ℚ) / 2 ^ 52 = (2 * n : ℕ) / 2 ^ 53 := by
        push_cast
        ring
      rw [parts]
      exact ⟨combinations.abs_sub_le (by exact_mod_cast Nat.choose_pos le) (by omega) (by omega),
        permutations.abs_sub_le (by exact_mod_cast Nat.descFactorial_pos.mpr le) (by omega)
          (by omega)⟩
  · have infinite := hx.factorial_infinite many
    have ordered := hx.not_lt hy le
    rw [combination, permutation, if_neg ordered, if_neg ordered]
    exact ⟨isFinite_div infinite, isFinite_div infinite⟩

theorem counts_of_whole_twoOfFive :
    IsWhole 5 5 ∧ IsWhole 2 2 ∧ IsWhole 170 170 ∧ IsWhole 171 171 ∧
      IsWhole (combination 5 2) 10 ∧ IsWhole (permutation 5 2) 20 ∧
      IsWhole (combination 170 170) 1 ∧
      (combination 171 2).isFinite = false ∧ (permutation 171 2).isFinite = false := by
  have five : IsWhole 5 5 := isWhole_ofNat (by norm_num)
  have two : IsWhole 2 2 := isWhole_ofNat (by norm_num)
  have most : IsWhole 170 170 := isWhole_ofNat (by norm_num)
  have many : IsWhole 171 171 := isWhole_ofNat (by norm_num)
  obtain ⟨combinations, permutations⟩ :=
    (counts_of_whole 5 2 5 2 five two (by norm_num)).1 (by norm_num)
  have everything := (counts_of_whole 170 170 170 170 most most le_rfl).2.1 le_rfl
  exact ⟨five, two, most, many, combinations, permutations, everything.1 (.inr rfl),
    (counts_of_whole 171 2 171 2 many two (by norm_num)).2.2 le_rfl⟩

/-- The quotients for one of 24 things are just below 24, and for two of 200 they are no numbers. -/
theorem counts_oneOfTwentyFour :
    IsWhole 24 24 ∧ IsWhole 1 1 ∧ Nat.choose 24 1 = 24 ∧ Nat.descFactorial 24 1 = 24 ∧
      value (combination 24 1) < 24 ∧ value (permutation 24 1) < 24 ∧
      Nat.choose 200 2 = 19900 ∧ (combination 200 2).isNaN = true := by
  refine ⟨⟨?_, ?_⟩, ⟨?_, ?_⟩, ?_, ?_, ?_, ?_, ?_, ?_⟩ <;> decide +kernel

end

end Reckoner.Arithmetic
