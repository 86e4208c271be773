import Reckoner.Proofs.Binary.Whole

/-! The integers among the doubles: the test for one, and truncation to the integer part, which is
the floor where there is no minus sign. -/
namespace Reckoner.Binary

def integerPart (x : Float) : ℤ := if 0 ≤ value x then ⌊value x⌋ else ⌈value x⌉

section

variable {x : Float} {v : Exact} {n : ℤ}

theorem Exact.ceiling_eq (v : Exact) : v.ceiling = ⌈v.value⌉ := by
  rw [Exact.ceiling, Exact.floor_eq, v.value_opposite, Int.floor_neg, neg_neg]

theorem decode_of_infinite (infinite : x.isFinite = false) : decode x = none := by
  cases decoded : decode x with
  | none => rfl
  | some v => cases infinite.symm.trans (isFinite_of_decode decoded)

theorem integer_of_infinite (infinite : x.isFinite = false) : integer? x = none := by
  simp only [integer?, decode_of_infinite infinite]

theorem integer_of_fraction (fraction : value x ≠ ⌊value x⌋) : integer? x = none := by
  cases decoded : decode x with
  | none => simp only [integer?, decoded]
  | some v =>
    rw [value_of_decode decoded] at fraction
    simp only [integer?, decoded, Exact.floor_eq, Exact.ceiling_eq]
    apply if_neg
    intro same
    have above := Int.le_ceil v.value
    rw [← same] at above
    exact fraction (le_antisymm above (Int.floor_le v.value))

theorem integer_of_value (finite : x.isFinite = true) (whole : value x = n) :
    integer? x = some n := by
  obtain ⟨v, decoded⟩ := decode_of_isFinite finite
  rw [value_of_decode decoded] at whole
  simp only [integer?, decoded, Exact.floor_eq, Exact.ceiling_eq, whole, Int.floor_intCast,
    Int.ceil_intCast, if_true]

theorem Exact.truncate_of_positive (positive : v.negative = false) : v.truncate = v.floor := by
  have signed : v.signed = v.mantissa := if_neg (by rw [positive]; decide)
  unfold Exact.truncate Exact.floor
  rw [signed]
  split
  · rfl
  · have power : 0 ≤ Int.pow 2 (-v.exponent).toNat := Int.pow_nonneg (by norm_num)
    rw [Int.tdiv_eq_ediv_of_nonneg (Int.natCast_nonneg _), Int.fdiv_eq_ediv_of_nonneg _ power]

theorem Exact.truncate_of_negative (negative : v.negative = true) : v.truncate = v.ceiling := by
  have opposite : v.truncate = -Exact.truncate { v with negative := !v.negative } := by
    unfold Exact.truncate Exact.signed
    rw [negative]
    split
    · simp
    · simp [Int.neg_tdiv]
  rw [opposite, Exact.ceiling, Exact.truncate_of_positive (by rw [negative]; rfl)]

theorem Exact.truncate_eq (v : Exact) :
    v.truncate = if 0 ≤ v.value then ⌊v.value⌋ else ⌈v.value⌉ := by
  have size : 0 ≤ v.magnitude := mul_two_zpow_nonneg _ _
  cases sign : v.negative with
  | false =>
    rw [Exact.truncate_of_positive sign, Exact.floor_eq, if_pos]
    rwa [Exact.value, sign, if_neg Bool.false_ne_true]
  | true =>
    rw [Exact.truncate_of_negative sign, Exact.ceiling_eq]
    split
    · rename_i nonneg
      have none : v.value = 0 := by
        rw [Exact.value, sign, if_pos rfl] at nonneg ⊢
        linarith
      rw [none, Int.ceil_zero, Int.floor_zero]
    · rfl

theorem abs_integerPart (x : Float) : |integerPart x| = ⌊|value x|⌋ := by
  unfold integerPart
  split
  · rename_i nonneg
    rw [abs_of_nonneg nonneg, abs_of_nonneg (Int.floor_nonneg.mpr nonneg)]
  · rename_i negative
    have below := (not_le.mp negative).le
    rw [abs_of_nonpos below, abs_of_nonpos (Int.ceil_nonpos.mpr below), Int.floor_neg]

theorem integerPart_of_value (whole : value x = n) : integerPart x = n := by
  simp [integerPart, whole]

theorem isDouble_integerPart (x : Float) : IsDouble (integerPart x) := by
  unfold integerPart
  split
  · exact (isDouble_value x).floor
  · have flipped := (isDouble_value x).neg.floor.neg
    rw [Int.floor_neg] at flipped
    push_cast at flipped
    rwa [neg_neg] at flipped

theorem truncate_of_isUnsigned (unsigned : IsUnsigned x) : truncate x = floor x := by
  cases decoded : decode x with
  | none => simp only [truncate, floor, toWhole, decoded]
  | some v =>
    have same := Exact.truncate_of_positive (unsigned.decode decoded)
    simp only [truncate, floor, toWhole, decoded, same]

end

end Reckoner.Binary
