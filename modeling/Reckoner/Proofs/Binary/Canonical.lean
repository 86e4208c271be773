import Reckoner.Proofs.Binary.Operations

/-! One number, one double: only the zeros share a value. -/
namespace Reckoner.Binary

open Float.Model (UnpackedFloat Format)
open Float.Model.UnpackedFloat

section

variable {m n : ℕ} {e k : ℤ} {x y : Float} {v : Exact} {q : ℚ} {s : Sign} {pos : 0 < m}

theorem quantum_canonical (canonical : IsCanonical m e) (pos : 0 < m) :
    quantum (m * 2 ^ e) = e := by
  have scale := two_zpow_pos e
  have posQ : (0 : ℚ) < m := by exact_mod_cast pos
  have positive : (0 : ℚ) < m * 2 ^ e := mul_pos posQ scale
  have short : (m : ℚ) < 2 ^ 53 := by exact_mod_cast canonical.short
  refine quantum_eq canonical.least ?_ ?_ positive.ne' <;> rw [abs_of_pos positive]
  · exact mul_lt_mul_of_pos_right short scale
  · refine canonical.normal.imp_right fun leading => ?_
    have bound : (2 : ℚ) ^ 52 ≤ m := by exact_mod_cast leading
    exact mul_le_mul_of_nonneg_right bound scale.le

theorem canonical_unique (hm : IsCanonical m e) (hn : IsCanonical n k) (posM : 0 < m) (posN : 0 < n)
    (same : (m : ℚ) * 2 ^ e = n * 2 ^ k) : m = n ∧ e = k := by
  have exponents : e = k := by
    rw [← quantum_canonical hm posM, same, quantum_canonical hn posN]
  rw [exponents] at same
  exact ⟨by exact_mod_cast mul_right_cancel₀ (two_zpow_pos k).ne' same, exponents⟩

theorem eq_of_unpack_eq (h : x.toModel.unpack = y.toModel.unpack) : x = y := by
  have bits := (unpack_inj_of_valid x.toModel.valid y.toModel.valid).mp h
  exact Float.toBits_inj.mp (UInt64.toBitVec_inj.mp bits)

theorem signed_eq_zero_iff : signed s q = 0 ↔ q = 0 := by
  cases s with
  | negative => exact neg_eq_zero
  | positive => rfl

theorem value_of_unpack_finite_ne_zero (h : x.toModel.unpack = .finite s m e pos) :
    value x ≠ 0 := by
  have posQ : (0 : ℚ) < m := by exact_mod_cast pos
  rw [value_of_unpack_finite h, Ne, signed_eq_zero_iff]
  exact (mul_pos posQ (two_zpow_pos e)).ne'

theorem beq_zero_iff (finite : x.isFinite = true) : (x == 0) = true ↔ value x = 0 := by
  change x.toModel.unpack.beq (0 : Float).toModel.unpack = true ↔ _
  rw [unpack_zero]
  obtain ⟨s, ux⟩ | ⟨s, m, e, pos, ux, _⟩ := unpack_of_isFinite finite
  · rw [value_of_unpack_zero ux, ux]
    exact iff_of_true rfl rfl
  · refine iff_of_false ?_ (value_of_unpack_finite_ne_zero ux)
    rw [ux]
    cases s <;> exact Bool.false_ne_true

theorem eq_of_value_eq (hx : x.isFinite = true) (hy : y.isFinite = true)
    (same : value x = value y) (notZero : value x ≠ 0) : x = y := by
  obtain ⟨s, ux⟩ | ⟨s, m, e, pos, ux, canonical, _⟩ := unpack_of_isFinite hx
  · exact absurd (value_of_unpack_zero ux) notZero
  obtain ⟨t, uy⟩ | ⟨t, n, k, pos', uy, canonical', _⟩ := unpack_of_isFinite hy
  · exact absurd (same.trans (value_of_unpack_zero uy)) notZero
  rw [value_of_unpack_finite ux, value_of_unpack_finite uy] at same
  have posM : (0 : ℚ) < m * 2 ^ e := mul_pos (by exact_mod_cast pos) (two_zpow_pos e)
  have posN : (0 : ℚ) < n * 2 ^ k := mul_pos (by exact_mod_cast pos') (two_zpow_pos k)
  have signs : s = t := by
    cases s <;> cases t <;> simp only [signed] at same <;> first | rfl | linarith
  subst signs
  have magnitudes := congrArg (fun r : ℚ => |r|) same
  rw [abs_signed, abs_signed, abs_of_pos posM, abs_of_pos posN] at magnitudes
  obtain ⟨rfl, rfl⟩ := canonical_unique canonical canonical' pos pos' magnitudes
  exact eq_of_unpack_eq (ux.trans uy.symm)

theorem value_of_decode (h : decode x = some v) : value x = v.value := by
  rw [value, h]

theorem abs_value (v : Exact) : |v.value| = v.magnitude := by
  have nonneg : 0 ≤ v.magnitude := mul_nonneg (by positivity) (two_zpow_pos v.exponent).le
  unfold Exact.value
  split
  · rw [abs_neg, abs_of_nonneg nonneg]
  · exact abs_of_nonneg nonneg

theorem Exact.negative_iff (pos : 0 < v.magnitude) : v.negative = true ↔ v.value < 0 := by
  unfold Exact.value
  split
  · rename_i negative
    exact iff_of_true negative (neg_neg_of_pos pos)
  · rename_i positive
    exact iff_of_false positive (not_lt.mpr pos.le)

theorem Exact.magnitude_eq_zero_iff : v.magnitude = 0 ↔ v.mantissa = 0 := by
  rw [Exact.magnitude, mul_eq_zero, Nat.cast_eq_zero, or_iff_left (two_zpow_pos v.exponent).ne']

theorem abs_rounded_withSign (negative : Bool) :
    |rounded (if negative then -q else q)| = |rounded q| := by
  cases negative with
  | false => rfl
  | true => rw [if_pos rfl, rounded_neg, abs_neg]

theorem canonical_of_decode (h : decode x = some v) (pos : 0 < v.mantissa) :
    IsCanonical v.mantissa v.exponent ∧ v.exponent ≤ 971 := by
  obtain ⟨s, ux⟩ | ⟨s, m, e, _, ux, canonical, top⟩ := unpack_of_isFinite (isFinite_of_decode h)
  · rw [decode_of_unpack_zero ux] at h
    cases h
    exact absurd pos (lt_irrefl 0)
  · rw [decode_of_unpack_finite ux] at h
    cases h
    exact ⟨canonical, top⟩

theorem abs_value_lt (x : Float) : |value x| < 2 ^ 1024 := by
  cases decoded : decode x with
  | none =>
    rw [value, decoded, abs_zero]
    positivity
  | some v =>
    obtain ⟨s, ux⟩ | ⟨s, m, e, pos, ux, canonical, top⟩ :=
      unpack_of_isFinite (isFinite_of_decode decoded)
    · rw [value_of_unpack_zero ux, abs_zero]
      positivity
    · have short : (m : ℚ) < 2 ^ 53 := by exact_mod_cast canonical.short
      have exponent : (2 : ℚ) ^ e ≤ 2 ^ (971 : ℤ) := zpow_le_zpow_right₀ (by norm_num) top
      have most : (2 : ℚ) ^ 1024 = 2 ^ 53 * 2 ^ (971 : ℤ) := by
        rw [two_pow_mul_zpow]
        exact (zpow_natCast 2 1024).symm
      have scale := two_zpow_pos e
      rw [value_of_unpack_finite ux, abs_signed, abs_of_nonneg (by positivity), most]
      exact mul_lt_mul short exponent scale (by positivity)

/-- A result that is rounded to a double has the value of that double. -/
theorem IsRounding.value_eq (h : IsRounding q y) (same : rounded q = Binary.value x) :
    y.isFinite = true ∧ Binary.value y = Binary.value x := by
  have finite := h.isFinite (same ▸ abs_value_lt x)
  exact ⟨finite, (h.value finite).trans same⟩

theorem unpack_of_not_isFinite (infinite : x.isFinite = false) :
    x.toModel.unpack = .notANumber ∨ ∃ s, x.toModel.unpack = .infinity s := by
  change x.toModel.unpack.isFinite = false at infinite
  cases unpacked : x.toModel.unpack with
  | notANumber => exact .inl rfl
  | infinity s => exact .inr ⟨s, rfl⟩
  | zero s => rw [unpacked] at infinite; cases infinite
  | finite s m e pos => rw [unpacked] at infinite; cases infinite

theorem unpack_of_isNaN (nan : x.isNaN = true) : x.toModel.unpack = .notANumber := by
  change x.toModel.unpack.isNaN = true at nan
  cases unpacked : x.toModel.unpack with
  | notANumber => rfl
  | infinity s => rw [unpacked] at nan; cases nan
  | zero s => rw [unpacked] at nan; cases nan
  | finite s m e pos => rw [unpacked] at nan; cases nan

theorem isNaN_of_isFinite (finite : x.isFinite = true) : x.isNaN = false := by
  change x.toModel.unpack.isFinite = true at finite
  change x.toModel.unpack.isNaN = false
  cases unpacked : x.toModel.unpack <;> rw [unpacked] at finite <;> first | rfl | cases finite

theorem isInf_of_isFinite (finite : x.isFinite = true) : x.isInf = false := by
  change x.toModel.unpack.isFinite = true at finite
  change x.toModel.unpack.isInf = false
  cases unpacked : x.toModel.unpack <;> rw [unpacked] at finite <;> first | rfl | cases finite

theorem Exact.value_opposite (v : Exact) :
    Exact.value { v with negative := !v.negative } = -v.value := by
  cases v with
  | mk negative m e => cases negative <;> simp [Exact.value, Exact.magnitude]

theorem decode_neg (h : decode x = some v) :
    decode (-x) = some { v with negative := !v.negative } := by
  have model : (-x).toModel = .pack x.toModel.unpack.neg := rfl
  have opposite (s : Sign) : (-s == Sign.negative) = !(s == Sign.negative) := by cases s <;> rfl
  obtain ⟨s, ux⟩ | ⟨s, m, e, pos, ux, canonical, top⟩ := unpack_of_isFinite (isFinite_of_decode h)
  · rw [decode_of_unpack_zero ux] at h
    cases h
    rw [ux] at model
    rw [decode, model, UnpackedFloat.neg, unpack_pack_zero]
    exact congrArg (fun negative => some (Exact.mk negative 0 0)) (opposite s)
  · rw [decode_of_unpack_finite ux] at h
    cases h
    rw [ux] at model
    rw [decode, model, UnpackedFloat.neg, unpack_pack_finite pos canonical top]
    exact congrArg (fun negative => some (Exact.mk negative m e)) (opposite s)

theorem decode_neg_of_none (h : decode x = none) : decode (-x) = none := by
  have model : (-x).toModel = .pack x.toModel.unpack.neg := rfl
  unfold decode at h ⊢
  rw [model]
  cases unpacked : x.toModel.unpack with
  | notANumber => rfl
  | infinity s => cases s <;> rfl
  | zero s => rw [unpacked] at h; cases h
  | finite s m e pos => rw [unpacked] at h; cases h

theorem IsRounding.neg (h : IsRounding q x) : IsRounding (-q) (-x) := by
  cases decoded : decode x with
  | some v =>
    rw [IsRounding, decoded] at h
    rw [IsRounding, decode_neg decoded, rounded_neg, ← h]
    exact v.value_opposite
  | none =>
    rw [IsRounding, decoded] at h
    rw [IsRounding, decode_neg_of_none decoded, rounded_neg, abs_neg]
    exact h

theorem IsRounding.withSign (h : IsRounding q x) (negative : Bool) :
    IsRounding (if negative then -q else q) (if negative then -x else x) := by
  cases negative with
  | false => exact h
  | true => exact h.neg

theorem negative_of_withSign (unsigned : IsUnsigned x) {negative : Bool}
    (h : decode (if negative then -x else x) = some v) : v.negative = negative := by
  cases negative with
  | false => exact unsigned.decode h
  | true =>
    rw [if_pos rfl] at h
    cases decoded : decode x with
    | none => cases h.symm.trans (decode_neg_of_none decoded)
    | some u =>
      rw [decode_neg decoded] at h
      cases h
      rw [unsigned.decode decoded]
      rfl

end

end Reckoner.Binary
