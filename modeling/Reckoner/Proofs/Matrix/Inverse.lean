import Mathlib.Algebra.Order.Field.Rat
import Mathlib.LinearAlgebra.Matrix.NonsingularInverse
import Reckoner.Proofs.Matrix.Determinant

/-! The inverse of a dense matrix over the rational numbers. The signed minors, with rows and columns
exchanged, are the adjugate. So what is returned is an inverse on both sides, and it is returned
unless the determinant counts as zero. -/
namespace Reckoner.DenseMatrix

section

variable {R : Type} [CommRing R] {n : ℕ}

def identity (n : ℕ) : DenseMatrix R := ⟨n, n, fun i j => if i = j then 1 else 0⟩

theorem multiply_eq_identity {a b : Matrix (Fin n) (Fin n) R} (product : a * b = 1) :
    multiply ⟨n, n, fun i j => a i j⟩ ⟨n, n, fun i j => b i j⟩ = .ok (identity n) := by
  have entries (i j : Fin n) : ∑ k, a i k * b k j = if i = j then 1 else 0 := by
    rw [← Matrix.mul_apply, product, Matrix.one_apply]
  simp only [multiply_eq_sum, entries, identity]

theorem adjugate_eq (a : Fin (n + 1) → Fin (n + 1) → R) (i j : Fin (n + 1)) :
    adjugate a i j = (Matrix.of a).adjugate i j := by
  rw [Matrix.adjugate_fin_succ_eq_det_submatrix, adjugate, alternate_eq, laplace_eq_det,
    minor_eq_submatrix, add_comm]

end

variable {n : ℕ}

theorem adjugate_div_det (a : Fin (n + 1) → Fin (n + 1) → ℚ) (i j : Fin (n + 1)) :
    adjugate a i j / (Matrix.of a).det = (Matrix.of a)⁻¹ i j := by
  rw [adjugate_eq, Matrix.inv_def, Ring.inverse_eq_inv', Matrix.smul_apply, smul_eq_mul,
    div_eq_inv_mul]

theorem inverse_eq (a : Fin (n + 1) → Fin (n + 1) → ℚ) :
    inverse ⟨n + 1, n + 1, a⟩ =
      if |(Matrix.of a).det| < 1e-10 then .error .singular
      else .ok ⟨n + 1, n + 1, fun i j => (Matrix.of a)⁻¹ i j⟩ := by
  have square : toSquare ⟨n + 1, n + 1, a⟩ = .ok ⟨n, a⟩ := by simp [toSquare]
  simp only [inverse, square, ok_bind, laplace_eq_det, adjugate_div_det, singularBelow, abs_lt]

/-- Every square matrix that is not empty has an inverse on both sides, unless its determinant counts
as zero. -/
theorem inverse_twoSided (a : Fin (n + 1) → Fin (n + 1) → ℚ) :
    (inverse ⟨n + 1, n + 1, a⟩ = .error .singular ↔ |(Matrix.of a).det| < 1e-10) ∧
      (1e-10 ≤ |(Matrix.of a).det| → ∃ b : Fin (n + 1) → Fin (n + 1) → ℚ,
        inverse ⟨n + 1, n + 1, a⟩ = .ok ⟨n + 1, n + 1, b⟩ ∧
          multiply ⟨n + 1, n + 1, a⟩ ⟨n + 1, n + 1, b⟩ = .ok (identity (n + 1)) ∧
          multiply ⟨n + 1, n + 1, b⟩ ⟨n + 1, n + 1, a⟩ = .ok (identity (n + 1))) := by
  rw [inverse_eq]
  constructor
  · constructor
    · intro singular
      by_contra large
      rw [if_neg large] at singular
      cases singular
    · exact fun small => if_pos small
  · intro large
    have regular : IsUnit (Matrix.of a).det :=
      isUnit_iff_ne_zero.mpr (abs_pos.mp (lt_of_lt_of_le (by norm_num) large))
    exact ⟨fun i j => (Matrix.of a)⁻¹ i j, if_neg large.not_gt,
      multiply_eq_identity (Matrix.mul_nonsing_inv _ regular),
      multiply_eq_identity (Matrix.nonsing_inv_mul _ regular)⟩

theorem inverse_twoSided_three :
    (1e-10 : ℚ) ≤ |(Matrix.of ![![2, 0, 1], ![1, 3, 2], ![1, 1, 2]]).det| ∧
      ∃ b : Fin 3 → Fin 3 → ℚ,
        inverse ⟨3, 3, ![![2, 0, 1], ![1, 3, 2], ![1, 1, 2]]⟩ = .ok ⟨3, 3, b⟩ ∧
          multiply ⟨3, 3, ![![2, 0, 1], ![1, 3, 2], ![1, 1, 2]]⟩ ⟨3, 3, b⟩ = .ok (identity 3) ∧
          multiply ⟨3, 3, b⟩ ⟨3, 3, ![![2, 0, 1], ![1, 3, 2], ![1, 1, 2]]⟩ = .ok (identity 3) := by
  have regular : (1e-10 : ℚ) ≤ |(Matrix.of ![![2, 0, 1], ![1, 3, 2], ![1, 1, 2]]).det| := by
    decide +kernel
  exact ⟨regular, (inverse_twoSided ![![2, 0, 1], ![1, 3, 2], ![1, 1, 2]]).2 regular⟩

end Reckoner.DenseMatrix
