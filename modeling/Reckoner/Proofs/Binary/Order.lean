import Reckoner.Proofs.Binary.Compare

/-! The order of the doubles that are numbers. Comparison is that of their values, the infinities
being the ends of the rationals; the two zeros have one value. -/
namespace Reckoner.Binary

open Float.Model (UnpackedFloat)

/-- The value of a double, where an infinity is an end of the rationals. NaN has none of its own. -/
def extendedValue (x : Float) : WithBot (WithTop ℚ) :=
  match x.toModel.unpack with
  | .infinity .negative => ⊥
  | .infinity .positive => (⊤ : WithTop ℚ)
  | _ => (value x : WithTop ℚ)

section

variable {x y : Float}

theorem extendedValue_of_isFinite (finite : x.isFinite = true) :
    extendedValue x = (value x : WithTop ℚ) := by
  obtain ⟨s, ux⟩ | ⟨s, m, e, pos, ux, _⟩ := unpack_of_isFinite finite <;> rw [extendedValue, ux]

/-- A number is one of the ends or finite. -/
theorem number_cases (number : x.isNaN = false) :
    (x.toModel.unpack = .infinity .negative ∧ extendedValue x = ⊥) ∨
      (x.toModel.unpack = .infinity .positive ∧ extendedValue x = (⊤ : WithTop ℚ)) ∨
      (x.isFinite = true ∧ extendedValue x = (value x : WithTop ℚ)) := by
  by_cases finite : x.isFinite = true
  · exact .inr (.inr ⟨finite, extendedValue_of_isFinite finite⟩)
  · obtain ux | ⟨s, ux⟩ := unpack_of_not_isFinite (Bool.eq_false_iff.mpr finite)
    · change x.toModel.unpack.isNaN = false at number
      rw [ux] at number
      cases number
    · cases s with
      | negative => exact .inl ⟨ux, by rw [extendedValue, ux]⟩
      | positive => exact .inr (.inl ⟨ux, by rw [extendedValue, ux]⟩)

theorem compare_coe (p q : ℚ) :
    compare ((p : WithTop ℚ) : WithBot (WithTop ℚ)) (q : WithTop ℚ) = compare p q := by
  rcases lt_trichotomy p q with less | same | more
  · rw [compare_lt_iff_lt.mpr less, compare_lt_iff_lt]
    exact_mod_cast less
  · rw [same, compare_eq_iff_eq.mpr rfl, compare_eq_iff_eq.mpr rfl]
  · rw [compare_gt_iff_gt.mpr more, compare_gt_iff_gt]
    exact_mod_cast more

theorem compare_extendedValue (hx : x.isNaN = false) (hy : y.isNaN = false) :
    UnpackedFloat.compare x.toModel.unpack y.toModel.unpack =
      some (compare (extendedValue x) (extendedValue y)) := by
  have low (q : ℚ) : (⊥ : WithBot (WithTop ℚ)) < (q : WithTop ℚ) := WithBot.bot_lt_coe _
  have high (q : ℚ) : ((q : WithTop ℚ) : WithBot (WithTop ℚ)) < (⊤ : WithTop ℚ) :=
    WithBot.coe_lt_coe.mpr (WithTop.coe_lt_top q)
  have ends : (⊥ : WithBot (WithTop ℚ)) < (⊤ : WithTop ℚ) := WithBot.bot_lt_coe _
  obtain ⟨ux, px⟩ | ⟨ux, px⟩ | ⟨fx, px⟩ := number_cases hx <;>
    obtain ⟨uy, py⟩ | ⟨uy, py⟩ | ⟨fy, py⟩ := number_cases hy <;> rw [px, py]
  · rw [ux, uy, compare_eq_iff_eq.mpr rfl]
    rfl
  · rw [ux, uy, compare_lt_iff_lt.mpr ends]
    rfl
  · rw [ux, compare_lt_iff_lt.mpr (low _)]
    obtain ⟨t, uy⟩ | ⟨t, n, k, pos, uy, _⟩ := unpack_of_isFinite fy <;> rw [uy] <;> rfl
  · rw [ux, uy, compare_gt_iff_gt.mpr ends]
    rfl
  · rw [ux, uy, compare_eq_iff_eq.mpr rfl]
    rfl
  · rw [ux, compare_gt_iff_gt.mpr (high _)]
    obtain ⟨t, uy⟩ | ⟨t, n, k, pos, uy, _⟩ := unpack_of_isFinite fy <;> rw [uy] <;> rfl
  · rw [uy, compare_gt_iff_gt.mpr (low _)]
    obtain ⟨t, ux⟩ | ⟨t, n, k, pos, ux, _⟩ := unpack_of_isFinite fx <;> rw [ux] <;> rfl
  · rw [uy, compare_lt_iff_lt.mpr (high _)]
    obtain ⟨t, ux⟩ | ⟨t, n, k, pos, ux, _⟩ := unpack_of_isFinite fx <;> rw [ux] <;> rfl
  · rw [compare_value fx fy, compare_coe]

theorem lt_iff_extendedValue (hx : x.isNaN = false) (hy : y.isNaN = false) :
    x < y ↔ extendedValue x < extendedValue y :=
  lt_iff_of_compare (compare_extendedValue hx hy)

theorem le_iff_extendedValue (hx : x.isNaN = false) (hy : y.isNaN = false) :
    x ≤ y ↔ extendedValue x ≤ extendedValue y :=
  le_iff_of_compare (compare_extendedValue hx hy)

theorem beq_iff_extendedValue (hx : x.isNaN = false) (hy : y.isNaN = false) :
    (x == y) = true ↔ extendedValue x = extendedValue y :=
  beq_iff_of_compare (compare_extendedValue hx hy)

/-- Only numbers are in order. -/
theorem isNaN_of_le (h : x ≤ y) : x.isNaN = false ∧ y.isNaN = false := by
  have ordered : UnpackedFloat.le x.toModel.unpack y.toModel.unpack = true :=
    decide_eq_true_iff.mp h
  constructor <;> by_contra nan <;> rw [Bool.not_eq_false] at nan <;>
    rw [unpack_of_isNaN nan] at ordered
  · cases ordered
  · cases unpacked : x.toModel.unpack <;> rw [unpacked] at ordered <;> cases ordered

theorem not_le_iff (hx : x.isNaN = false) (hy : y.isNaN = false) : ¬y ≤ x ↔ x < y := by
  rw [le_iff_extendedValue hy hx, lt_iff_extendedValue hx hy, not_le]

theorem le_of_le_of_le {z : Float} (hxy : x ≤ y) (hyz : y ≤ z) : x ≤ z := by
  obtain ⟨hx, hy⟩ := isNaN_of_le hxy
  have hz := (isNaN_of_le hyz).2
  rw [le_iff_extendedValue hx hy] at hxy
  rw [le_iff_extendedValue hy hz] at hyz
  rw [le_iff_extendedValue hx hz]
  exact hxy.trans hyz

theorem beq_of_isNaN (nan : x.isNaN = true) : (x == y) = false := by
  change (UnpackedFloat.compare x.toModel.unpack y.toModel.unpack == some .eq) = false
  rw [unpack_of_isNaN nan]
  rfl

end

end Reckoner.Binary
