import Reckoner.Proofs.Binary.Order

/-! The ends of the range: quotients over zero and over an infinity, products that overflow, and the
infinity above all numbers. -/
namespace Reckoner.Binary

open Float.Model (UnpackedFloat Format)
open Float.Model.UnpackedFloat

section

variable {x y : Float} {s : Sign}

theorem unpack_pack_infinity (s : Sign) :
    (Float.Model.pack (.infinity s)).unpack = .infinity s := by
  cases s <;> rfl

theorem infinite_of_unpack (h : x.toModel.unpack = .infinity s) :
    x.isFinite = false ∧ x.isNaN = false := by
  change x.toModel.unpack.isFinite = false ∧ x.toModel.unpack.isNaN = false
  rw [h]
  exact ⟨rfl, rfl⟩

theorem unpack_of_infinite (infinite : x.isFinite = false) (number : x.isNaN = false) :
    ∃ s, x.toModel.unpack = .infinity s := by
  refine (unpack_of_not_isFinite infinite).resolve_left fun unpacked => ?_
  change x.toModel.unpack.isNaN = false at number
  rw [unpacked] at number
  cases number

theorem div_of_zero (hx : x.isFinite = true) (notZero : value x ≠ 0) (hy : y.isFinite = true)
    (zero : value y = 0) : (x / y).isFinite = false ∧ (x / y).isNaN = false := by
  obtain ⟨s, ux⟩ | ⟨s, m, e, pos, ux, _⟩ := unpack_of_isFinite hx
  · exact absurd (value_of_unpack_zero ux) notZero
  obtain ⟨t, uy⟩ | ⟨t, n, k, pos', uy, _⟩ := unpack_of_isFinite hy
  · have quotient : x / y = .ofModel (.pack (.infinity (s / t))) := by
      change Float.ofModel (.pack (UnpackedFloat.div _ x.toModel.unpack y.toModel.unpack)) = _
      rw [ux, uy]
      rfl
    rw [quotient]
    exact infinite_of_unpack (unpack_pack_infinity _)
  · exact absurd zero (value_of_unpack_finite_ne_zero uy)

theorem div_of_infinite (hx : x.isFinite = true) (infinite : y.isFinite = false)
    (number : y.isNaN = false) : (x / y).isFinite = true ∧ value (x / y) = 0 := by
  obtain ⟨t, uy⟩ := unpack_of_infinite infinite number
  have quotient : ∃ s, x / y = .ofModel (.pack (.zero s)) := by
    change ∃ s, Float.ofModel (.pack (UnpackedFloat.div _ x.toModel.unpack y.toModel.unpack)) = _
    obtain ⟨s, ux⟩ | ⟨s, m, e, pos, ux, _⟩ := unpack_of_isFinite hx <;> rw [ux, uy] <;>
      exact ⟨_, rfl⟩
  obtain ⟨s, same⟩ := quotient
  have unpacked := unpack_pack_zero s
  rw [same]
  exact ⟨isFinite_of_decode (decode_of_unpack_zero unpacked), value_of_unpack_zero unpacked⟩

theorem isNaN_packComponents {e : BitVec 11} (m : BitVec 52) (number : e ≠ -1#11) :
    (unpack Format.binary64 (packComponents Format.binary64 s e m)).isNaN = false := by
  rw [unpack_packComponents, if_neg number]
  split
  · split <;> rfl
  · rfl

theorem isNaN_pack_finite {m : ℕ} {e : ℤ} (pos : 0 < m) :
    (Float.ofModel (.pack (.finite s m e pos))).isNaN = false := by
  change (unpack Format.binary64 (pack Format.binary64 (.finite s m e pos))).isNaN = false
  rw [pack_finite]
  split
  · rw [unpack_packComponents]
    rfl
  split
  · refine isNaN_packComponents _ fun top => ?_
    have biased := congrArg BitVec.toNat top
    rw [BitVec.toNat_ofNat, Nat.mod_eq_of_lt (by omega)] at biased
    change (e + 1075).toNat = 2047 at biased
    omega
  · exact isNaN_packComponents _ (by decide)

theorem isNaN_pack_zero : (Float.ofModel (.pack (.zero s))).isNaN = false := by
  change (Float.Model.pack (.zero s)).unpack.isNaN = false
  rw [unpack_pack_zero]
  rfl

/-- A product of finite doubles is a number, even if it overflows. -/
theorem isNaN_mul (hx : x.isFinite = true) (hy : y.isFinite = true) : (x * y).isNaN = false := by
  change (Float.ofModel (.pack (UnpackedFloat.mul Format.binary64 x.toModel.unpack
    y.toModel.unpack))).isNaN = false
  obtain ⟨s, ux⟩ | ⟨s, m, e, pos, ux, _⟩ := unpack_of_isFinite hx <;>
    obtain ⟨t, uy⟩ | ⟨t, n, k, pos', uy, _⟩ := unpack_of_isFinite hy <;> rw [ux, uy]
  · exact isNaN_pack_zero
  · exact isNaN_pack_zero
  · exact isNaN_pack_zero
  · simp only [UnpackedFloat.mul, roundWithAccuracy]
    split
    · exact isNaN_pack_zero
    · exact isNaN_pack_finite _

theorem unpack_of_overflow (unsigned : IsUnsigned x) (infinite : x.isFinite = false)
    (number : x.isNaN = false) : x.toModel.unpack = .infinity .positive := by
  obtain ⟨s, ux⟩ := unpack_of_infinite infinite number
  rw [IsUnsigned, ux] at unsigned
  cases unsigned
  exact ux

theorem isUnsigned_infinity : IsUnsigned infinity :=
  (isUnsigned_ofScientific _ _ _).div (isUnsigned_ofScientific _ _ _)

/-- There is one infinity without a minus sign. -/
theorem eq_infinity (unsigned : IsUnsigned x) (infinite : x.isFinite = false)
    (number : x.isNaN = false) : x = infinity := by
  have top := unpack_of_overflow isUnsigned_infinity (by decide) (by decide)
  exact eq_of_unpack_eq ((unpack_of_overflow unsigned infinite number).trans top.symm)

theorem mul_eq_infinity (hx : x.isFinite = true) (hy : y.isFinite = true) (posX : 0 < value x)
    (posY : 0 < value y) (infinite : (x * y).isFinite = false) : x * y = infinity :=
  eq_infinity ((isUnsigned_of_value_pos posX).mul (isUnsigned_of_value_pos posY)) infinite
    (isNaN_mul hx hy)

theorem le_abs_of_infinite (hx : x.isFinite = true) (infinite : y.isFinite = false)
    (number : y.isNaN = false) : x ≤ y.abs := by
  obtain ⟨t, uy⟩ := unpack_of_infinite infinite number
  have unpacked : y.abs.toModel.unpack = .infinity .positive := by
    change (Float.Model.pack y.toModel.unpack.abs).unpack = _
    rw [uy]
    exact unpack_pack_infinity _
  have top : extendedValue y.abs = (⊤ : WithTop ℚ) := by
    rw [extendedValue, unpacked]
  rw [le_iff_extendedValue (isNaN_of_isFinite hx) (infinite_of_unpack unpacked).2, top,
    extendedValue_of_isFinite hx]
  exact_mod_cast le_top

end

end Reckoner.Binary
