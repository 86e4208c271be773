import Mathlib.Algebra.Group.ForwardDiff
import Mathlib.Algebra.Polynomial.Taylor
import Mathlib.Data.Nat.Choose.Cast
import Reckoner.Calculus.Taylor
import Reckoner.Proofs.Exact

/-! Taylor polynomials in rational numbers, with the iterated central difference. The alternating sum
of order `n` takes the powers of the distance to the centre to zero below the degree `n`, and in the
degree `n + 1` as well, where the two sides cancel. So on a polynomial of degree at most `n + 1` the
difference quotient is the derivative, as long as the exponent of the step is the order: it has 32 bits,
so that it is negative from the order `2 ^ 31` on. -/
namespace Reckoner

/-- Binomial coefficients are quotients of factorials, as they are in floating point. -/
instance : Counting ℚ where
  factorial n := n.factorial
  choose n k := if n < k then 0 else n.factorial / (k.factorial * (n - k).factorial)

namespace Calculus

open Polynomial
open Arithmetic (integerPower integerPower_eq_zpow shortExponent shortExponent_eq
  lt_of_eq_shortExponent)

theorem choose_eq {n k : ℕ} (le : k ≤ n) : (Counting.choose n k : ℚ) = n.choose k := by
  rw [Nat.cast_choose ℚ le]
  exact if_neg le.not_gt

/-- The alternating binomial sum of a function over the places of `n + 1` samples, which are two
apart and lie evenly around zero. -/
def alternatingSum (n : ℕ) (f : ℚ → ℚ) : ℚ :=
  ∑ k ∈ Finset.range (n + 1), (-1) ^ k * n.choose k * f (n - 2 * k)

/-- The place of a sample as a polynomial in its number. -/
noncomputable def place (n : ℕ) : ℚ[X] := C (-2) * X + C (n : ℚ)

section Powers

variable {n j k : ℕ}

theorem eval_place_pow (n j : ℕ) (x : ℚ) : (place n ^ j).eval x = (n - 2 * x) ^ j := by
  rw [place, eval_pow, eval_add, eval_mul, eval_C, eval_C, eval_X]
  ring

theorem natDegree_place_pow (n j : ℕ) : (place n ^ j).natDegree = j := by
  rw [natDegree_pow, place, natDegree_linear (by norm_num), mul_one]

theorem leadingCoeff_place_pow (n j : ℕ) : (place n ^ j).leadingCoeff = (-2) ^ j := by
  rw [leadingCoeff_pow, place, leadingCoeff_linear (by norm_num)]

theorem neg_one_pow_mul_pow_sub (le : k ≤ n) : (-1 : ℚ) ^ n * (-1) ^ (n - k) = (-1) ^ k := by
  have split : (-1 : ℚ) ^ n = (-1) ^ k * (-1) ^ (n - k) := by
    rw [← pow_add, Nat.add_sub_of_le le]
  rw [split, mul_assoc, ← mul_pow, neg_one_mul, neg_neg, one_pow, mul_one]

/-- Up to its sign the sum of a power is an iterated forward difference, of the polynomial that the
power is in the number of the sample. -/
theorem alternatingSum_pow (n j : ℕ) :
    alternatingSum n (· ^ j) = (-1) ^ n * (fwdDiff 1)^[n] (place n ^ j).eval 0 := by
  rw [fwdDiff_iter_eq_sum_shift, Finset.mul_sum]
  refine Finset.sum_congr rfl fun k inRange => ?_
  have le : k ≤ n := Finset.mem_range_succ_iff.mp inRange
  rw [eval_place_pow, zero_add, nsmul_one, zsmul_eq_mul, ← neg_one_pow_mul_pow_sub le]
  push_cast
  ring

theorem alternatingSum_pow_of_lt (lt : j < n) : alternatingSum n (· ^ j) = 0 := by
  have degree : (place n ^ j).natDegree < n := (natDegree_place_pow n j).trans_lt lt
  rw [alternatingSum_pow, fwdDiff_iter_eq_zero_of_degree_lt degree, Pi.zero_apply, mul_zero]

theorem alternatingSum_pow_self (n : ℕ) : alternatingSum n (· ^ n) = 2 ^ n * n.factorial := by
  have top := fwdDiff_iter_degree_eq_factorial (place n ^ n)
  rw [natDegree_place_pow, leadingCoeff_place_pow] at top
  have signs : (-1 : ℚ) ^ n * (-2) ^ n = 2 ^ n := by rw [← mul_pow]; norm_num
  rw [alternatingSum_pow, top, ← signs]
  simp [mul_assoc]

/-- One degree further, two samples that lie opposite to each other cancel. -/
theorem alternatingSum_pow_succ (n : ℕ) : alternatingSum n (· ^ (n + 1)) = 0 := by
  let term (k : ℕ) : ℚ := (-1) ^ k * n.choose k * (n - 2 * k) ^ (n + 1)
  have opposite {k : ℕ} (le : k ≤ n) : term (n - k) = -term k := by
    have mirrored : (n : ℚ) - 2 * (n - k : ℕ) = -(n - 2 * k) := by
      rw [Nat.cast_sub le]
      ring
    simp only [term]
    rw [Nat.choose_symm le, mirrored, ← neg_one_pow_mul_pow_sub le, neg_pow (n - 2 * k : ℚ)]
    ring
  refine self_eq_neg.mp ?_
  calc alternatingSum n (· ^ (n + 1)) = ∑ k ∈ Finset.range (n + 1), term (n - k) :=
        (Finset.sum_range_reflect term (n + 1)).symm
    _ = ∑ k ∈ Finset.range (n + 1), -term k :=
        Finset.sum_congr rfl fun k inRange => opposite (Finset.mem_range_succ_iff.mp inRange)
    _ = -alternatingSum n (· ^ (n + 1)) := Finset.sum_neg_distrib ..

end Powers

section Polynomials

variable {p : ℚ[X]} {n : ℕ}

theorem alternatingSum_sum (n m : ℕ) (b : ℕ → ℚ) :
    alternatingSum n (fun x => ∑ j ∈ Finset.range m, b j * x ^ j) =
      ∑ j ∈ Finset.range m, b j * alternatingSum n (· ^ j) := by
  simp only [alternatingSum, Finset.mul_sum]
  rw [Finset.sum_comm]
  refine Finset.sum_congr rfl fun j _ => Finset.sum_congr rfl fun k _ => ?_
  ring

theorem derivative_eval (p : ℚ[X]) (c : ℚ) (n : ℕ) :
    (derivative^[n] p).eval c = n.factorial * (taylor c p).coeff n := by
  rw [taylor_coeff, ← factorial_smul_hasseDeriv]
  simp

theorem eval_add_eq_sum {m : ℕ} (degree : p.natDegree < m) (c x : ℚ) :
    p.eval (c + x) = ∑ j ∈ Finset.range m, (taylor c p).coeff j * x ^ j := by
  rw [add_comm, ← taylor_eval]
  exact eval_eq_sum_range' ((natDegree_taylor p c).trans_lt degree) x

/-- Of the powers around the centre the sum keeps the one of degree `n` and no other. -/
theorem alternatingSum_eval (degree : p.natDegree ≤ n + 1) (c h : ℚ) :
    alternatingSum n (fun x => p.eval (c + x * h)) = (derivative^[n] p).eval c * (2 * h) ^ n := by
  have powers (x : ℚ) : p.eval (c + x * h) =
      ∑ j ∈ Finset.range (n + 2), (taylor c p).coeff j * h ^ j * x ^ j := by
    rw [eval_add_eq_sum (Nat.lt_succ_of_le degree)]
    refine Finset.sum_congr rfl fun j _ => ?_
    rw [mul_pow]
    ring
  have lower : ∑ j ∈ Finset.range n, (taylor c p).coeff j * h ^ j * alternatingSum n (· ^ j) = 0 :=
    Finset.sum_eq_zero fun j inRange => by
      rw [alternatingSum_pow_of_lt (Finset.mem_range.mp inRange), mul_zero]
  simp only [powers]
  rw [alternatingSum_sum, Finset.sum_range_succ, Finset.sum_range_succ, lower,
    alternatingSum_pow_self, alternatingSum_pow_succ, derivative_eval]
  ring

theorem centralTerm_eq (f : ℚ → ℚ) (c : ℚ) {k : ℕ} (le : k ≤ n) :
    centralTerm f c n k = (-1) ^ k * n.choose k * f (c + (n - 2 * k) * taylorStep) := by
  rw [centralTerm, choose_eq le, ← ite_even_eq]
  rfl

theorem total_centralTerms (f : ℚ → ℚ) (c : ℚ) (n : ℕ) :
    total ((List.range (n + 1)).map (centralTerm f c n)) =
      alternatingSum n (fun x => f (c + x * taylorStep)) := by
  rw [total_eq_sum]
  exact Finset.sum_congr rfl fun k inRange =>
    centralTerm_eq f c (Finset.mem_range_succ_iff.mp inRange)

theorem taylorStep_ne_zero : (taylorStep : ℚ) ≠ 0 := by
  norm_num [taylorStep]

/-- The step of the difference to the power that is missing where the exponent has gone on from the
least: none below the order `2 ^ 31`. -/
theorem missingPower_eq_one_iff :
    (2 * taylorStep : ℚ) ^ ((n : ℤ) - shortExponent n) = 1 ↔ n < 2 ^ 31 := by
  have step : (2 * taylorStep : ℚ) = 1 / 500 := by norm_num [taylorStep]
  rw [step, zpow_eq_one_iff_right₀ (by norm_num) (by norm_num), sub_eq_zero]
  exact ⟨lt_of_eq_shortExponent, fun few => (shortExponent_eq few).symm⟩

/-- The value at the centre is not estimated, so the order zero asks nothing of the degree. -/
theorem nthDerivative_eq (degree : n ≠ 0 → p.natDegree ≤ n + 1) (c : ℚ) :
    nthDerivative p.eval c n .iteratedCentralDifference =
      (derivative^[n] p).eval c * (2 * taylorStep) ^ ((n : ℤ) - shortExponent n) := by
  have step : (2 * taylorStep : ℚ) ≠ 0 := mul_ne_zero two_ne_zero taylorStep_ne_zero
  cases n with
  | zero =>
    have same : shortExponent 0 = 0 := rfl
    rw [same, Nat.cast_zero, sub_zero, zpow_zero, mul_one]
    rfl
  | succ n =>
    have unfolded : nthDerivative p.eval c (n + 1) .iteratedCentralDifference =
        total ((List.range (n + 2)).map (centralTerm p.eval c (n + 1))) /
          integerPower (2 * taylorStep) (shortExponent (n + 1)) := by
      rw [nthDerivative]
      · rfl
      · exact nofun
    rw [unfolded, total_centralTerms, alternatingSum_eval (degree n.succ_ne_zero),
      integerPower_eq_zpow, mul_div_assoc, ← zpow_natCast, ← zpow_sub₀ step]

end Polynomials

section Series

variable (f : ℚ → ℚ) (c : ℚ) (scheme : TaylorScheme)

theorem taylorCoefficients_eq {terms : ℕ} (few : terms < tooManyTerms) :
    taylorCoefficients f c terms scheme =
      some ((List.range terms).map fun n => nthDerivative f c n scheme / n.factorial) := by
  rw [taylorCoefficients, if_pos few]
  rfl

theorem taylorSeries_eq_sum {terms : ℕ} (few : terms < tooManyTerms) (point : ℚ) :
    taylorSeries f c terms point scheme = some (∑ n ∈ Finset.range terms,
      nthDerivative f c n scheme / n.factorial * (point - c) ^ shortExponent n) := by
  have listed : ((List.range terms).map fun n => nthDerivative f c n scheme / n.factorial).mapIdx
      (fun n x => x * integerPower (point - c) (shortExponent n)) = (List.range terms).map fun n =>
        nthDerivative f c n scheme / n.factorial * (point - c) ^ shortExponent n := by
    refine List.ext_getElem (by simp) fun n _ _ => ?_
    rw [List.getElem_mapIdx, List.getElem_map, List.getElem_range, List.getElem_map,
      List.getElem_range, integerPower_eq_zpow]
  rw [taylorSeries, taylorCoefficients_eq f c scheme few, Option.map_some, total_eq_sum]
  exact congrArg (fun xs => some xs.sum) listed

end Series

theorem exists_coefficient {p : ℚ[X]} {c : ℚ} {n terms : ℕ} (lt : n < terms)
    (few : terms < tooManyTerms) (degree : p.natDegree ≤ n + 1) :
    ∃ coefficients,
      taylorCoefficients p.eval c terms .iteratedCentralDifference = some coefficients ∧
        (coefficients[n]? = some ((derivative^[n] p).eval c / n.factorial) ↔
          n < 2 ^ 31 ∨ (derivative^[n] p).eval c = 0) := by
  refine ⟨_, taylorCoefficients_eq p.eval c _ few, ?_⟩
  have factorial : (n.factorial : ℚ) ≠ 0 := Nat.cast_ne_zero.mpr n.factorial_ne_zero
  rw [List.getElem?_map, List.getElem?_range lt, Option.map_some, Option.some.injEq,
    nthDerivative_eq fun _ => degree, div_left_inj' factorial, mul_right_eq_self₀,
    missingPower_eq_one_iff]

/-- Below the order `2 ^ 31` the coefficient of order `n` is exact on polynomials of degree at most
`n + 1`, and from there on only where it is zero. So from three terms on a polynomial of degree at most
two is its own series, as long as no power with a negative exponent is taken of zero. -/
theorem taylorCoefficients_polynomial (p : ℚ[X]) (c : ℚ) :
    (∀ n terms, n < terms → terms < tooManyTerms → p.natDegree ≤ n + 1 →
      ∃ coefficients,
        taylorCoefficients p.eval c terms .iteratedCentralDifference = some coefficients ∧
          (coefficients[n]? = some ((derivative^[n] p).eval c / n.factorial) ↔
            n < 2 ^ 31 ∨ (derivative^[n] p).eval c = 0)) ∧
      ∀ terms point, 3 ≤ terms → terms < tooManyTerms → terms ≤ 2 ^ 31 ∨ point ≠ c →
        p.natDegree ≤ 2 →
          taylorSeries p.eval c terms point .iteratedCentralDifference = some (p.eval point) := by
  constructor
  · exact fun n terms lt few degree => exists_coefficient lt few degree
  · intro terms point enough few _ degree
    have term (n : ℕ) : nthDerivative p.eval c n .iteratedCentralDifference / n.factorial *
        (point - c) ^ shortExponent n = (taylor c p).coeff n * (point - c) ^ n := by
      have factorial : (n.factorial : ℚ) ≠ 0 := Nat.cast_ne_zero.mpr n.factorial_ne_zero
      -- From the order one on, two is at most `n + 1`.
      rw [nthDerivative_eq (by omega), derivative_eval, mul_assoc, mul_div_cancel_left₀ _ factorial]
      by_cases short : n < 2 ^ 31
      · rw [missingPower_eq_one_iff.mpr short, mul_one, shortExponent_eq short, zpow_natCast]
      · have zero : (taylor c p).coeff n = 0 := by
          refine coeff_eq_zero_of_natDegree_lt ?_
          rw [natDegree_taylor]
          omega
        rw [zero, zero_mul, zero_mul, zero_mul]
    have series := eval_add_eq_sum (degree.trans_lt enough) c (point - c)
    rw [add_sub_cancel] at series
    rw [taylorSeries_eq_sum _ _ _ few, series]
    exact congrArg some (Finset.sum_congr rfl fun n _ => term n)

theorem taylorCoefficients_polynomial_cube :
    2 < 3 ∧ 3 < tooManyTerms ∧ (X ^ 3 : ℚ[X]).natDegree ≤ 2 + 1 ∧ 3 ≤ 3 ∧ (7 : ℚ) ≠ 5 ∧
      (X ^ 2 : ℚ[X]).natDegree ≤ 2 ∧
      (∃ coefficients, taylorCoefficients (X ^ 3 : ℚ[X]).eval 5 3 .iteratedCentralDifference =
        some coefficients ∧ coefficients[2]? = some 15) ∧
      taylorSeries (X ^ 2 : ℚ[X]).eval 5 3 7 .iteratedCentralDifference = some 49 := by
  have few : 3 < tooManyTerms := by decide
  have cube : (X ^ 3 : ℚ[X]).natDegree ≤ 2 + 1 := natDegree_X_pow_le 3
  have square : (X ^ 2 : ℚ[X]).natDegree ≤ 2 := natDegree_X_pow_le 2
  obtain ⟨coefficients, listed, exact_iff⟩ :=
    (taylorCoefficients_polynomial (X ^ 3) 5).1 2 3 (by norm_num) few cube
  have series := (taylorCoefficients_polynomial (X ^ 2) 5).2 3 7 le_rfl few (.inr (by norm_num)) square
  refine ⟨by norm_num, few, cube, le_rfl, by norm_num, square, ⟨coefficients, listed, ?_⟩, ?_⟩
  · rw [exact_iff.mpr (.inl (by norm_num))]
    norm_num [derivative_X_pow]
  · rw [series]
    norm_num

theorem eval_iterate_derivative_X_pow (n : ℕ) (c : ℚ) :
    (derivative^[n] (X ^ n : ℚ[X])).eval c = n.factorial := by
  rw [iterate_derivative_X_pow_eq_natCast_mul, Nat.descFactorial_self, Nat.sub_self, pow_zero,
    mul_one, eval_natCast]

/-- The first order whose exponent is negative, and a count of terms that no list can hold. -/
theorem taylorCoefficients_wordPower :
    (∃ coefficients, taylorCoefficients (X ^ 2 ^ 31 : ℚ[X]).eval 0 (2 ^ 31 + 1)
        .iteratedCentralDifference = some coefficients ∧
      coefficients[2 ^ 31]? ≠
        some ((derivative^[2 ^ 31] (X ^ 2 ^ 31 : ℚ[X])).eval 0 / (2 ^ 31).factorial)) ∧
      taylorSeries (X ^ 2 : ℚ[X]).eval 0 (2 ^ 64 - 1) 2 .iteratedCentralDifference = none := by
  have wrong (n : ℕ) (many : ¬ n < 2 ^ 31) (few : n + 1 < tooManyTerms) : ∃ coefficients,
      taylorCoefficients (X ^ n : ℚ[X]).eval 0 (n + 1) .iteratedCentralDifference =
        some coefficients ∧
      coefficients[n]? ≠ some ((derivative^[n] (X ^ n : ℚ[X])).eval 0 / n.factorial) := by
    obtain ⟨coefficients, listed, exact_iff⟩ :=
      exists_coefficient (c := 0) n.lt_succ_self few ((natDegree_X_pow_le n).trans n.le_succ)
    refine ⟨coefficients, listed, ?_⟩
    rw [Ne, exact_iff, eval_iterate_derivative_X_pow, not_or]
    exact ⟨many, Nat.cast_ne_zero.mpr n.factorial_ne_zero⟩
  refine ⟨wrong (2 ^ 31) (lt_irrefl _) (by decide), ?_⟩
  rw [taylorSeries, taylorCoefficients, if_neg (by decide), Option.map_none]

end Calculus

end Reckoner
