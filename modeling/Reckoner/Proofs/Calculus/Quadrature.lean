import Mathlib.Analysis.SpecialFunctions.Integrals.Basic
import Reckoner.Calculus.Quadrature
import Reckoner.Proofs.Exact

/-! The quadrature rules in rational numbers. A loop over weighted samples is a sum over the parts of
the interval, one by one in the trapezoid rule and two by two in Simpson's. On two parts Simpson's
rule makes no error up to the degree three, so on many it makes none. On two parts it is also what
the trapezoids on the parts and the one over both extrapolate to. -/
namespace Reckoner.Calculus

open Polynomial

def sample (f : ℚ → ℚ) (a b : ℚ) (n i : ℕ) : ℚ := f (a + (b - a) / n * i)

section

variable (f : ℚ → ℚ) (a b : ℚ)

theorem sample_zero (n : ℕ) : sample f a b n 0 = f a := by
  simp [sample]

theorem sample_last (n : ℕ) : sample f a b (n + 1) (n + 1) = f b := by
  have parts : ((n + 1 : ℕ) : ℚ) ≠ 0 := Nat.cast_ne_zero.mpr n.succ_ne_zero
  rw [sample, div_mul_cancel₀ _ parts, add_sub_cancel]

/-- Of twice as many parts every second one ends where one of the parts does. -/
theorem sample_two_mul (n i : ℕ) : sample f a b (2 * n) (2 * i) = sample f a b n i := by
  have place : (b - a) / (2 * n : ℕ) * (2 * i : ℕ) = (b - a) / n * i := by
    push_cast
    rw [div_mul_eq_mul_div, div_mul_eq_mul_div, mul_left_comm, mul_div_mul_left _ _ two_ne_zero]
  rw [sample, place, sample]

variable (weight : ℕ → ℚ → ℚ)

theorem addSamples_succ (k n : ℕ) (ends : ℚ) :
    addSamples f weight a ((b - a) / k) (n + 2) ends =
      addSamples f weight a ((b - a) / k) (n + 1) ends +
        weight (n + 1) (sample f a b k (n + 1)) := by
  simp only [addSamples, Nat.add_succ_sub_one, List.range'_1_concat, List.foldl_append]
  rw [Nat.add_comm 1 n]
  rfl

theorem addSamples_eq_sum (k n : ℕ) (ends : ℚ) :
    addSamples f weight a ((b - a) / k) (n + 1) ends =
      ends + ∑ i ∈ Finset.range n, weight (i + 1) (sample f a b k (i + 1)) := by
  induction n with
  | zero => simp [addSamples]
  | succ n ih => rw [addSamples_succ, ih, Finset.sum_range_succ, add_assoc]

end

section

variable (y : ℕ → ℚ)

/-- Ends that count half and inner samples that count in full are the means of the parts. -/
theorem sum_means (n : ℕ) :
    (y 0 + y (n + 1)) / 2 + ∑ i ∈ Finset.range n, y (i + 1) =
      ∑ i ∈ Finset.range (n + 1), (y i + y (i + 1)) / 2 := by
  induction n with
  | zero => simp
  | succ n ih =>
    rw [Finset.sum_range_succ, Finset.sum_range_succ _ (n + 1), ← ih]
    ring

theorem simpsonWeight_odd (m : ℕ) (x : ℚ) : simpsonWeight (2 * m + 1) x = 4 * x := by
  simp [simpsonWeight]

theorem simpsonWeight_even (m : ℕ) (x : ℚ) : simpsonWeight (2 * m + 2) x = 2 * x := by
  simp [simpsonWeight]

/-- The alternating weights are those of parts taken in pairs. An inner sample at an even place ends
one pair and begins the next. -/
theorem sum_pairs (m : ℕ) :
    y 0 + y (2 * m + 2) + ∑ i ∈ Finset.range (2 * m + 1), simpsonWeight (i + 1) (y (i + 1)) =
      ∑ j ∈ Finset.range (m + 1), (y (2 * j) + 4 * y (2 * j + 1) + y (2 * j + 2)) := by
  induction m with
  | zero =>
    have middle : simpsonWeight 1 (y 1) = 4 * y 1 := simpsonWeight_odd 0 (y 1)
    simp only [Nat.mul_zero, Nat.zero_add, Finset.sum_range_one, middle]
    ring
  | succ m ih =>
    -- What was the end becomes an inner sample at an even place, and a middle comes after it.
    have joint := simpsonWeight_even m (y (2 * m + 2))
    have middle : simpsonWeight (2 * m + 3) (y (2 * m + 3)) = 4 * y (2 * m + 3) :=
      simpsonWeight_odd (m + 1) _
    rw [Finset.sum_range_succ _ (m + 1), ← ih, Nat.mul_succ, Finset.sum_range_succ,
      Finset.sum_range_succ, joint, middle]
    ring

theorem sum_range_two_mul (m : ℕ) :
    ∑ i ∈ Finset.range (2 * m), y i = ∑ j ∈ Finset.range m, (y (2 * j) + y (2 * j + 1)) := by
  induction m with
  | zero => rfl
  | succ m ih =>
    rw [Nat.mul_succ, Finset.sum_range_succ, Finset.sum_range_succ, Finset.sum_range_succ, ih,
      add_assoc]

/-- On a pair of parts, four times the trapezoids on the parts less twice the one over both is what
Simpson's rule weighs. -/
theorem sum_means_pairs (m : ℕ) :
    4 * ∑ i ∈ Finset.range (2 * m), (y i + y (i + 1)) / 2 -
        2 * ∑ j ∈ Finset.range m, (y (2 * j) + y (2 * (j + 1))) / 2 =
      ∑ j ∈ Finset.range m, (y (2 * j) + 4 * y (2 * j + 1) + y (2 * j + 2)) := by
  rw [sum_range_two_mul, Finset.mul_sum, Finset.mul_sum, ← Finset.sum_sub_distrib]
  refine Finset.sum_congr rfl fun j _ => ?_
  rw [Nat.mul_succ]
  ring

end

/-- The count of parts is even, at least two, and fits wherever the count asked for does. -/
theorem evenIntervals_spec (n : ℕ) :
    Even (evenIntervals n) ∧ 2 ≤ evenIntervals n ∧ (n < 2 ^ 64 → evenIntervals n < 2 ^ 64) := by
  have limit : Nat.pow 2 64 = 2 ^ 64 := rfl
  simp only [Nat.even_iff, evenIntervals, limit]
  split_ifs <;> omega

theorem evenIntervals_of_even {n : ℕ} (even : Even n) (least : 2 ≤ n) : evenIntervals n = n := by
  rw [evenIntervals, max_eq_left least, if_pos (Nat.even_iff.mp even)]

theorem eq_two_mul_of_even {n : ℕ} (even : Even n) (least : 2 ≤ n) : ∃ m, n = 2 * (m + 1) := by
  obtain ⟨k, rfl⟩ := even
  exact ⟨k - 1, by omega⟩

section

variable (f : ℚ → ℚ) (a b : ℚ)

theorem integrateTrapezoid_eq_sum {n : ℕ} (pos : 0 < n) :
    integrateTrapezoid f a b n =
      (∑ i ∈ Finset.range n, (sample f a b n i + sample f a b n (i + 1)) / 2) * ((b - a) / n) := by
  have parts : max n 1 = n := max_eq_left pos
  obtain ⟨k, rfl⟩ := Nat.exists_eq_succ_of_ne_zero pos.ne'
  have loop := addSamples_eq_sum f a b (fun _ y => y) (k + 1) k ((f a + f b) / 2)
  rw [← sum_means, sample_zero, sample_last, ← loop, integrateTrapezoid, parts]
  rfl

theorem integrate_eq_sum {n m : ℕ} (parts : evenIntervals n = 2 * (m + 1)) :
    integrate f a b n =
      (∑ j ∈ Finset.range (m + 1), (sample f a b (2 * (m + 1)) (2 * j) +
        4 * sample f a b (2 * (m + 1)) (2 * j + 1) + sample f a b (2 * (m + 1)) (2 * j + 2))) *
          ((b - a) / (2 * (m + 1) : ℕ)) / 3 := by
  rw [← sum_pairs, Nat.mul_succ, sample_zero, sample_last, ← addSamples_eq_sum, integrate, parts]
  rfl

/-- With an even number of parts, three times Simpson's rule is four times the trapezoid rule less
the trapezoid rule on half as many parts. -/
theorem integrate_richardson {n : ℕ} (even : Even n) (least : 2 ≤ n) :
    3 * integrate f a b n = 4 * integrateTrapezoid f a b n - integrateTrapezoid f a b (n / 2) := by
  have parts := evenIntervals_of_even even least
  have fine := integrateTrapezoid_eq_sum f a b (two_pos.trans_le least)
  obtain ⟨m, rfl⟩ := eq_two_mul_of_even even least
  have coarse := integrateTrapezoid_eq_sum f a b m.succ_pos
  have half : 2 * (m + 1) / 2 = m + 1 := Nat.mul_div_cancel_left _ two_pos
  have step : (b - a) / (m + 1 : ℕ) = 2 * ((b - a) / (2 * (m + 1) : ℕ)) := by
    push_cast
    field_simp
  -- Both rules are read on the fine grid, where every second sample is one of the coarse grid.
  simp only [← sample_two_mul f a b (m + 1), step] at coarse
  rw [half, fine, coarse, integrate_eq_sum f a b parts, ← sum_means_pairs]
  ring

end

def jump (x : ℚ) : ℚ := if x < 1 then 0 else 1

theorem integrate_richardson_jump :
    Even 4 ∧ 2 ≤ 4 ∧ integrate jump 0 3 4 = 7 / 4 ∧ integrateTrapezoid jump 0 3 4 = 15 / 8 ∧
      integrateTrapezoid jump 0 3 (4 / 2) = 9 / 4 ∧ 3 * integrate jump 0 3 4 =
        4 * integrateTrapezoid jump 0 3 4 - integrateTrapezoid jump 0 3 (4 / 2) :=
  ⟨by decide, by decide, by decide +kernel, by decide +kernel, by decide +kernel,
    integrate_richardson jump 0 3 (by decide) (by decide)⟩

section

variable {p : ℚ[X]}

/-- The antiderivative of a polynomial of degree at most three that is zero at zero. -/
def primitive (p : ℚ[X]) (x : ℚ) : ℚ :=
  ∑ i ∈ Finset.range 4, p.coeff i * x ^ (i + 1) / (i + 1)

theorem pair_eq_sub (degree : p.natDegree ≤ 3) (a b : ℚ) (n i : ℕ) :
    (sample p.eval a b n i + 4 * sample p.eval a b n (i + 1) + sample p.eval a b n (i + 2)) *
        ((b - a) / n) / 3 =
      sample (primitive p) a b n (i + 2) - sample (primitive p) a b n i := by
  simp only [sample, primitive, eval_eq_sum_range' (Nat.lt_succ_of_le degree),
    Finset.sum_range_succ, Finset.sum_range_zero]
  push_cast
  ring

/-- The pairs are without an error one by one, and what they add up to telescopes. -/
theorem integrate_eq_sub (degree : p.natDegree ≤ 3) (a b : ℚ) (n : ℕ) :
    integrate p.eval a b n = primitive p b - primitive p a := by
  obtain ⟨even, least, _⟩ := evenIntervals_spec n
  obtain ⟨m, parts⟩ := eq_two_mul_of_even even least
  let joint (j : ℕ) := sample (primitive p) a b (2 * (m + 1)) (2 * j)
  have first : joint 0 = primitive p a := sample_zero ..
  have last : joint (m + 1) = primitive p b := sample_last ..
  rw [integrate_eq_sum p.eval a b parts, Finset.sum_mul, Finset.sum_div, ← first, ← last,
    ← Finset.sum_range_sub]
  exact Finset.sum_congr rfl fun j _ => pair_eq_sub degree a b (2 * (m + 1)) (2 * j)

theorem integral_aeval (degree : p.natDegree ≤ 3) (a b : ℚ) :
    ∫ x in (a : ℝ)..b, aeval x p = (primitive p b - primitive p a : ℚ) := by
  simp only [aeval_eq_sum_range' (Nat.lt_succ_of_le degree)]
  rw [intervalIntegral.integral_finsetSum]
  · simp only [primitive, Algebra.smul_def, intervalIntegral.integral_const_mul, integral_pow,
      ← Finset.sum_sub_distrib]
    push_cast
    refine Finset.sum_congr rfl fun i _ => ?_
    rw [eq_ratCast]
    ring
  · intro i _
    exact (by fun_prop : Continuous _).intervalIntegrable _ _

/-- Simpson's rule integrates a polynomial of degree at most three without an error, whatever count
of parts is asked for. -/
theorem integrate_cubic (degree : p.natDegree ≤ 3) (a b : ℚ) (n : ℕ) :
    ((integrate p.eval a b n : ℚ) : ℝ) = ∫ x in (a : ℝ)..b, aeval x p ∧
      Even (evenIntervals n) ∧ 2 ≤ evenIntervals n ∧ (n < 2 ^ 64 → evenIntervals n < 2 ^ 64) := by
  rw [integral_aeval degree, integrate_eq_sub degree]
  exact ⟨rfl, evenIntervals_spec n⟩

end

theorem integrate_cubic_largestCount :
    (X ^ 3 - 2 * X : ℚ[X]).natDegree ≤ 3 ∧ 2 ^ 64 - 1 < 2 ^ 64 ∧
      evenIntervals (2 ^ 64 - 1) < 2 ^ 64 ∧
      ((integrate (X ^ 3 - 2 * X : ℚ[X]).eval 2 0 (2 ^ 64 - 1) : ℚ) : ℝ) =
        ∫ x in ((2 : ℚ) : ℝ)..(0 : ℚ), aeval x (X ^ 3 - 2 * X : ℚ[X]) := by
  have degree : (X ^ 3 - 2 * X : ℚ[X]).natDegree ≤ 3 := by compute_degree
  have word : 2 ^ 64 - 1 < 2 ^ 64 := by norm_num
  obtain ⟨integral, _, _, fits⟩ := integrate_cubic degree 2 0 (2 ^ 64 - 1)
  exact ⟨degree, word, fits word, integral⟩

end Reckoner.Calculus
