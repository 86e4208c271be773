import Reckoner.Proofs.Binary.Canonical

/-! Doubles without a minus sign, such as magnitudes. Each of them is determined by its value, zero
included. -/
namespace Reckoner.Binary

open Float.Model (UnpackedFloat)

section

variable {x y : Float} {v w : Exact}

theorem IsUnsigned.not_isNegativeZero (h : IsUnsigned x) : ¬IsNegativeZero x := by
  intro zero
  cases h.decode zero

/-- A double is determined by its sign and magnitude. -/
theorem eq_of_decode (hx : decode x = some v) (hy : decode y = some w)
    (signs : v.negative = w.negative) (magnitudes : v.magnitude = w.magnitude) : x = y := by
  have finiteX := isFinite_of_decode hx
  have finiteY := isFinite_of_decode hy
  have same : value x = value y := by
    rw [value_of_decode hx, value_of_decode hy, Exact.value, Exact.value, signs, magnitudes]
  by_cases zero : value x = 0
  · obtain ⟨s, ux⟩ | ⟨s, m, e, pos, ux, _⟩ := unpack_of_isFinite finiteX
    · obtain ⟨t, uy⟩ | ⟨t, n, k, pos, uy, _⟩ := unpack_of_isFinite finiteY
      · rw [decode_of_unpack_zero ux] at hx
        rw [decode_of_unpack_zero uy] at hy
        cases hx
        cases hy
        have signs : s = t := by cases s <;> cases t <;> first | rfl | cases signs
        exact eq_of_unpack_eq (ux.trans (signs ▸ uy.symm))
      · exact absurd (same.symm.trans zero) (value_of_unpack_finite_ne_zero uy)
    · exact absurd zero (value_of_unpack_finite_ne_zero ux)
  · exact eq_of_value_eq finiteX finiteY same zero

theorem IsUnsigned.eq_of_value_eq (ux : IsUnsigned x) (uy : IsUnsigned y) (hx : x.isFinite = true)
    (hy : y.isFinite = true) (same : value x = value y) : x = y := by
  obtain ⟨v, decodedX⟩ := decode_of_isFinite hx
  obtain ⟨w, decodedY⟩ := decode_of_isFinite hy
  have magnitudes : v.magnitude = w.magnitude := by
    rw [← abs_value, ← abs_value, ← value_of_decode decodedX, ← value_of_decode decodedY, same]
  exact eq_of_decode decodedX decodedY
    ((ux.decode decodedX).trans (uy.decode decodedY).symm) magnitudes

theorem IsUnsigned.value_nonneg (unsigned : IsUnsigned x) : 0 ≤ value x := by
  cases decoded : Binary.decode x with
  | none => rw [value, decoded]
  | some v =>
    rw [value_of_decode decoded, Exact.value, unsigned.decode decoded, ← abs_value]
    exact abs_nonneg _

theorem isUnsigned_of_value_pos (pos : 0 < value x) : IsUnsigned x := by
  cases decoded : decode x with
  | none =>
    rw [value, decoded] at pos
    exact absurd pos (lt_irrefl 0)
  | some v =>
    obtain ⟨s, unpacked⟩ | ⟨s, m, e, _, unpacked, _⟩ :=
      unpack_of_isFinite (isFinite_of_decode decoded)
    · exact absurd (value_of_unpack_zero unpacked) pos.ne'
    · rw [value_of_unpack_finite unpacked] at pos
      unfold IsUnsigned
      rw [unpacked]
      cases s with
      | positive => rfl
      | negative => exact absurd pos (not_lt.mpr (neg_nonpos.mpr (mul_two_zpow_nonneg m e)))

theorem isUnsigned_nearest {v : Exact} (sign : v.negative = false) : IsUnsigned v.nearest := by
  unfold Exact.nearest
  simp only [sign, Bool.false_eq_true, if_false]
  split
  · exact isUnsigned_ofScientific _ _ _
  · exact isUnsigned_pack (unsigned_round _ _ _ _)

theorem isUnsigned_abs (x : Float) : IsUnsigned x.abs := by
  have unsigned : Unsigned x.toModel.unpack.abs := by
    cases x.toModel.unpack <;> trivial
  exact isUnsigned_pack unsigned

theorem value_abs (finite : x.isFinite = true) :
    x.abs.isFinite = true ∧ value x.abs = |value x| := by
  have model : x.abs.toModel = .pack x.toModel.unpack.abs := rfl
  obtain ⟨s, unpacked⟩ | ⟨s, m, e, pos, unpacked, canonical, top⟩ := unpack_of_isFinite finite
  · have zero : x.abs.toModel.unpack = .zero .positive := by
      rw [model, unpacked]
      exact unpack_pack_zero .positive
    refine ⟨isFinite_of_decode (decode_of_unpack_zero zero), ?_⟩
    rw [value_of_unpack_zero zero, value_of_unpack_zero unpacked, abs_zero]
  · have kept : x.abs.toModel.unpack = .finite .positive m e pos := by
      rw [model, unpacked]
      exact unpack_pack_finite pos canonical top
    refine ⟨isFinite_of_decode (decode_of_unpack_finite kept), ?_⟩
    rw [value_of_unpack_finite kept, value_of_unpack_finite unpacked, abs_signed,
      abs_of_nonneg (mul_two_zpow_nonneg m e)]
    rfl

theorem isFinite_abs (x : Float) : x.abs.isFinite = x.isFinite := by
  by_cases finite : x.isFinite = true
  · rw [(value_abs finite).1, finite]
  · have model : x.abs.toModel = .pack x.toModel.unpack.abs := rfl
    rw [Bool.not_eq_true] at finite
    rw [finite]
    change x.abs.toModel.unpack.isFinite = false
    obtain ux | ⟨s, ux⟩ := unpack_of_not_isFinite finite <;> rw [model, ux]
    · rfl
    · cases s <;> rfl

end

end Reckoner.Binary
