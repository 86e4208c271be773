import Reckoner.Proofs.Decimal.Shortest
import Reckoner.Proofs.Display.Reading

/-! The text with the fewest digits is read back as the same number, and it depends on the number
alone. -/
namespace Reckoner.Display

open Binary

section

variable {x y : Float} {v : Exact}

/-- The fewest digits of a double, with its sign, are rounded to its value. -/
theorem rounded_shortest (h : decode x = some v) (pos : 0 < v.mantissa) :
    rounded (if v.negative then -(Decimal.shortest v.mantissa v.exponent).toRat
      else (Decimal.shortest v.mantissa v.exponent).toRat) = value x := by
  obtain ⟨canonical, top⟩ := canonical_of_decode h pos
  have same := Decimal.rounded_shortest canonical pos top
  rw [value_of_decode h, Exact.value, Exact.magnitude]
  split
  · rw [rounded_neg, same]
  · exact same

theorem evaluateText_shortest (finite : x.isFinite = true) (angle : AngleMode)
    (policy : ParenPolicy) :
    ∃ y, evaluateText (shortest x) {} angle policy = .ok y ∧
      y.isFinite = true ∧ value y = value x := by
  obtain ⟨v, decoded⟩ := decode_of_isFinite finite
  unfold shortest
  split
  · rename_i zero
    obtain ⟨y, read, rounding⟩ := evaluateText_positional angle policy ⟨0, 0⟩ false
    refine ⟨y, read, rounding.value_eq ?_⟩
    rw [(beq_zero_iff finite).mp zero]
    simp [rounded_zero, Decimal.Scientific.toRat]
  rename_i notZero
  have pos : 0 < v.mantissa := by
    rw [Nat.pos_iff_ne_zero]
    intro zero
    rw [beq_zero_iff finite, value_of_decode decoded, Exact.value, Exact.magnitude, zero] at notZero
    simp at notZero
  have same := rounded_shortest decoded pos
  simp only [Decimal.plain, Decimal.write, decoded, Decimal.Scientific.exponential]
  generalize Decimal.shortest v.mantissa v.exponent = d at same
  split
  · exact ⟨_, evaluateText_withPower angle policy _ _ _, (isRounding_readAs _ _).value_eq same⟩
  · obtain ⟨y, read, rounding⟩ := evaluateText_positional angle policy d v.negative
    exact ⟨y, read, rounding.value_eq same⟩

theorem shortest_congr (hx : x.isFinite = true) (hy : y.isFinite = true)
    (same : value x = value y) : shortest x = shortest y := by
  by_cases zero : value x = 0
  · rw [shortest, if_pos ((beq_zero_iff hx).mpr zero), shortest,
      if_pos ((beq_zero_iff hy).mpr (same ▸ zero))]
  · rw [eq_of_value_eq hx hy same zero]

end

end Reckoner.Display
