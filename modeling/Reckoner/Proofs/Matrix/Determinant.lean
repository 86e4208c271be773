import Mathlib.LinearAlgebra.Matrix.Determinant.Basic
import Reckoner.Matrix.Determinant
import Reckoner.Proofs.Exact
import Reckoner.Proofs.Result

/-! The determinant of a dense matrix over a commutative ring. The expansion along the first row is the
signed sum over all permutations, so it does not change under transposition and goes through
products. -/
namespace Reckoner.DenseMatrix

section

variable {R : Type} [CommRing R] {n : ℕ}

def leibniz (a : Fin n → Fin n → R) : R :=
  ∑ σ : Equiv.Perm (Fin n), (σ.sign : R) * ∏ i, a (σ i) i

theorem leibniz_eq_det (a : Fin n → Fin n → R) : leibniz a = (Matrix.of a).det := by
  simp [leibniz, Matrix.det_apply']

theorem skip_eq_succAbove (skipped : Fin (n + 1)) (i : Fin n) :
    skip skipped i = skipped.succAbove i := rfl

theorem alternate_eq (k : ℕ) (x : R) : alternate k x = (-1) ^ k * x := ite_even_eq k x

theorem minor_eq_submatrix {α : Type} (a : Fin (n + 1) → Fin (n + 1) → α)
    (row column : Fin (n + 1)) :
    Matrix.of (minor a row column) =
      (Matrix.of a).submatrix row.succAbove column.succAbove := by
  ext i k
  simp [minor, skip_eq_succAbove]

theorem minor_first {α : Type} (a : Fin (n + 1) → Fin (n + 1) → α) (j : Fin (n + 1)) :
    Matrix.of (minor a 0 j) = (Matrix.of a).submatrix Fin.succ j.succAbove := by
  rw [minor_eq_submatrix, Fin.succAbove_zero]

theorem laplace_eq_det (n : ℕ) (a : Fin n → Fin n → R) : laplace n a = (Matrix.of a).det := by
  induction n, a using laplace.induct with
  | case1 a => simp [laplace]
  | case2 a => simp [laplace]
  | case3 a => simp [laplace, Matrix.det_fin_two]
  | case4 n a ih =>
    simp only [laplace, total_eq_sum, ih, alternate_eq, minor_first]
    rw [Matrix.det_succ_row_zero, Fin.sum_univ_def]
    rfl

theorem leibniz_transpose (a : Fin n → Fin n → R) : leibniz (fun i j => a j i) = leibniz a := by
  simp only [leibniz_eq_det]
  exact Matrix.det_transpose (Matrix.of a)

theorem leibniz_mul (a b : Fin n → Fin n → R) :
    leibniz (fun i j => ∑ k, a i k * b k j) = leibniz a * leibniz b := by
  simp only [leibniz_eq_det]
  exact Matrix.det_mul (Matrix.of a) (Matrix.of b)

/-- Where a sum begins makes no difference in a ring. -/
theorem productStart_eq_zero (height inner width : ℕ) :
    (productStart height inner width : R) = 0 := by
  unfold productStart
  split
  · rfl
  · exact neg_zero

theorem multiply_eq_sum {m k : ℕ} (a : Fin m → Fin k → R) (b : Fin k → Fin n → R) :
    multiply ⟨m, k, a⟩ ⟨k, n, b⟩ = .ok ⟨m, n, fun i j => ∑ l, a i l * b l j⟩ := by
  simp [multiply, productStart_eq_zero, totalFrom_zero, Fin.sum_univ_def]

theorem determinant_eq_leibniz (a : Fin (n + 1) → Fin (n + 1) → R) :
    determinant ⟨n + 1, n + 1, a⟩ = .ok (leibniz a) := by
  rw [leibniz_eq_det, ← laplace_eq_det]
  simp [determinant, toSquare]

theorem determinant_of_ne {a : DenseMatrix R} (notSquare : a.height ≠ a.width) :
    a.determinant = .error (.dimension (.notSquare a.height a.width)) := by
  obtain ⟨height, width, entry⟩ := a
  cases height with
  | zero => rfl
  | succ height =>
    have other : width ≠ height + 1 := fun same => notSquare same.symm
    simp [determinant, toSquare, other]

/-- Every square matrix that is not empty has a determinant, which is the signed sum over all
permutations. A matrix that is not square has none. -/
theorem determinant_leibniz (a b : Fin (n + 1) → Fin (n + 1) → R) (c : DenseMatrix R) :
    determinant ⟨n + 1, n + 1, a⟩ = .ok (leibniz a) ∧
      (transpose ⟨n + 1, n + 1, a⟩).determinant = .ok (leibniz a) ∧
      (multiply ⟨n + 1, n + 1, a⟩ ⟨n + 1, n + 1, b⟩ >>= determinant) =
        .ok (leibniz a * leibniz b) ∧
      (c.height ≠ c.width →
        c.determinant = .error (.dimension (.notSquare c.height c.width))) := by
  refine ⟨determinant_eq_leibniz a, ?_, ?_, determinant_of_ne⟩
  · rw [← leibniz_transpose]
    exact determinant_eq_leibniz fun i j => a j i
  · rw [multiply_eq_sum, ok_bind, determinant_eq_leibniz, leibniz_mul]

end

theorem determinant_leibniz_three :
    leibniz ![![2, 0, 1], ![1, 3, 2], ![1, 1, 2]] = (6 : ℤ) ∧
      determinant ⟨3, 3, ![![2, 0, 1], ![1, 3, 2], ![1, 1, 2]]⟩ = .ok (6 : ℤ) ∧
      2 ≠ 3 ∧ determinant ⟨2, 3, fun _ _ => (0 : ℤ)⟩ = .error (.dimension (.notSquare 2 3)) := by
  have sum : leibniz ![![2, 0, 1], ![1, 3, 2], ![1, 1, 2]] = (6 : ℤ) := by decide +kernel
  obtain ⟨square, _, _, other⟩ := determinant_leibniz ![![2, 0, 1], ![1, 3, 2], ![1, 1, 2]]
    ![![1, 0, 0], ![0, 1, 0], ![0, 0, 1]] (⟨2, 3, fun _ _ => (0 : ℤ)⟩ : DenseMatrix ℤ)
  rw [sum] at square
  exact ⟨sum, square, by decide, other (by decide)⟩

end Reckoner.DenseMatrix
