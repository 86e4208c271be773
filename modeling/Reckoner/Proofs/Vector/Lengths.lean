import Reckoner.Vector
import Reckoner.Proofs.Binary.SquareRoot
import Reckoner.Proofs.Result

/-! Vectors of different lengths. Their dot product is an error. So is the angle between them, but
only where the product of the two magnitudes is not zero: a vector without a direction has an angle
to none before its length is looked at. -/
namespace Reckoner.Vector

open Binary

variable {a b : List Float} {mode : AngleMode}

/-- Whether the square of every coordinate rounds to zero, as it does for a coordinate of zero and
for one below the root of half of the least double. An empty vector is one of these. -/
def Vanishes (a : List Float) : Prop :=
  ∀ x ∈ a, x.isFinite = true ∧ value x ^ 2 ≤ 2 ^ (-1075 : ℤ)

/-- Whether the product of the magnitudes is zero. A magnitude that overflows, or is NaN, makes the
product NaN. -/
def Directionless (a b : List Float) : Prop :=
  Vanishes a ∧ (magnitude b).isFinite = true ∨ Vanishes b ∧ (magnitude a).isFinite = true

theorem isSize_totalFrom {first : Float} {xs : List Float} (size : IsSize first)
    (sizes : ∀ x ∈ xs, IsSize x) :
    IsSize (totalFrom first xs) ∧
      ((totalFrom first xs == 0) = true ↔ (first == 0) = true ∧ ∀ x ∈ xs, (x == 0) = true) := by
  induction xs generalizing first with
  | nil => exact ⟨size, by simp [totalFrom]⟩
  | cons x xs ih =>
    obtain ⟨here, rest⟩ := List.forall_mem_cons.mp sizes
    obtain ⟨sum, zero⟩ := size.add here
    obtain ⟨whole, none⟩ := ih sum rest
    exact ⟨whole, by rw [List.forall_mem_cons, ← and_assoc, ← zero]; exact none⟩

theorem isRoot_magnitude (a : List Float) :
    IsRoot (magnitude a) ∧ ((magnitude a == 0) = true ↔ Vanishes a) := by
  have first : IsSize (-0) ∧ ((-0 : Float) == 0) = true := by
    have finite : (-0 : Float).isFinite = true := rfl
    have zero : value (-0) = 0 := by decide +kernel
    exact ⟨⟨zero.ge, fun infinite => by cases infinite⟩, beq_zero_iff_finite.mpr ⟨finite, zero⟩⟩
  have squares : ∀ y ∈ a.map fun x => x * x, IsSize y := by
    intro y member
    obtain ⟨x, _, rfl⟩ := List.mem_map.mp member
    exact (isSize_square x).1
  obtain ⟨sum, none⟩ := isSize_totalFrom first.1 squares
  obtain ⟨root, zero⟩ := sum.sqrt
  refine ⟨root, zero.trans (none.trans ?_)⟩
  simp only [first.2, true_and, List.forall_mem_map, Vanishes, (isSize_square _).2]

theorem magnitudes_beq_zero_iff :
    (magnitude a * magnitude b == 0) = true ↔ Directionless a b := by
  obtain ⟨left, vanishes⟩ := isRoot_magnitude a
  obtain ⟨right, vanishes'⟩ := isRoot_magnitude b
  rw [left.mul_beq_zero_iff right, vanishes, vanishes', Directionless]

theorem angleBetween_of_directionless (h : Directionless a b) : angleBetween a b mode = .ok nan :=
  if_pos (magnitudes_beq_zero_iff.mpr h)

theorem angleBetween_of_not_directionless (h : ¬Directionless a b) :
    angleBetween a b mode = dot a b >>= fun product => .ok (mode.fromRadians
      (clampCosine (product / (magnitude a * magnitude b))).acos) :=
  if_neg (mt magnitudes_beq_zero_iff.mp h)

theorem dot_of_length_eq (h : a.length = b.length) : ∃ x, dot a b = .ok x := ⟨_, if_pos h⟩

theorem dot_of_length_ne (h : a.length ≠ b.length) :
    dot a b = .error (.dimension (.lengths a.length b.length)) := if_neg h

/-- Vectors of different lengths are rejected, except that there is an angle of NaN between them
when the product of their magnitudes is zero. Vectors of one length are never rejected. -/
theorem angleBetween_lengths (a b : List Float) (mode : AngleMode) :
    (a.length ≠ b.length →
      dot a b = .error (.dimension (.lengths a.length b.length)) ∧
      (¬Directionless a b →
        angleBetween a b mode = .error (.dimension (.lengths a.length b.length))) ∧
      (Directionless a b → angleBetween a b mode = .ok nan)) ∧
    (a.length = b.length →
      (∃ x, dot a b = .ok x) ∧ ∃ x, angleBetween a b mode = .ok x) := by
  constructor
  · intro differ
    refine ⟨dot_of_length_ne differ, fun directed => ?_, angleBetween_of_directionless⟩
    rw [angleBetween_of_not_directionless directed, dot_of_length_ne differ, error_bind]
  · intro same
    obtain ⟨product, result⟩ := dot_of_length_eq same
    refine ⟨⟨product, result⟩, ?_⟩
    by_cases directed : Directionless a b
    · exact ⟨nan, angleBetween_of_directionless directed⟩
    · rw [angleBetween_of_not_directionless directed, result, ok_bind]
      exact ⟨_, rfl⟩

theorem angleBetween_lengths_oneAndTwo :
    ([1] : List Float).length ≠ [1, 2].length ∧ ¬Directionless [1] [1, 2] ∧
      angleBetween [1] [1, 2] .degree = .error (.dimension (.lengths 1 2)) ∧
      Directionless [] [1] ∧ angleBetween [] [1] .degree = .ok nan ∧
      ∃ x, angleBetween [1, 2] [2, 1] .degree = .ok x := by
  have directed : ¬Directionless [1] [1, 2] := by
    rw [← magnitudes_beq_zero_iff]
    decide +kernel
  have empty : Directionless [] [1] := by
    rw [← magnitudes_beq_zero_iff]
    decide +kernel
  have differ := (angleBetween_lengths [1] [1, 2] .degree).1 (by simp)
  have differ' := (angleBetween_lengths [] [1] .degree).1 (by simp)
  have same := (angleBetween_lengths [1, 2] [2, 1] .degree).2 (by simp)
  exact ⟨by simp, directed, differ.2.1 directed, empty, differ'.2.2 empty, same.2⟩

/-- A vector is not compared with one of another length if it has no length, nor if the squares of
its coordinates are too small to be told from zero. -/
theorem angleBetween_twoZeros_one :
    ([0, 0] : List Float).length ≠ [1].length ∧ angleBetween [0, 0] [1] .radian = .ok nan ∧
      ([1e-200] : List Float).length ≠ [3, 4].length ∧
      dot [1e-200] [3, 4] = .error (.dimension (.lengths 1 2)) ∧
      angleBetween [1e-200] [3, 4] .degree = .ok nan := by
  have zeros : Directionless [0, 0] [1] := by
    rw [← magnitudes_beq_zero_iff]
    decide +kernel
  have small : Directionless [1e-200] [3, 4] := by
    rw [← magnitudes_beq_zero_iff]
    decide +kernel
  exact ⟨by simp, angleBetween_of_directionless zeros, by simp, dot_of_length_ne (by simp),
    angleBetween_of_directionless small⟩

end Reckoner.Vector
