import Reckoner.Proofs.Binary.Unsigned

/-! Comparison of doubles. It is the comparison of their values, and the difference of two of them is
zero only if they are equal, however close they are. -/
namespace Reckoner.Binary

open Float.Model (UnpackedFloat)
open Float.Model.UnpackedFloat

section

variable {x y : Float} {m n : ℕ} {e k : ℤ} {p q : ℚ} {α : Type} [LinearOrder α] {a b : α}

/-- Of two canonical numbers the one with the larger exponent is the larger. -/
theorem canonical_lt (hm : IsCanonical m e) (hn : IsCanonical n k) (less : e < k) :
    (m : ℚ) * 2 ^ e < n * 2 ^ k := by
  have leading : 2 ^ 52 ≤ n := hn.normal.resolve_left (by have := hm.least; omega)
  have short : (m : ℚ) < 2 ^ 53 := by exact_mod_cast hm.short
  have large : (2 : ℚ) ^ 52 ≤ n := by exact_mod_cast leading
  calc (m : ℚ) * 2 ^ e < 2 ^ 53 * 2 ^ e := mul_lt_mul_of_pos_right short (two_zpow_pos e)
    _ = 2 ^ 52 * 2 ^ (e + 1) := by rw [two_zpow_add]; ring
    _ ≤ n * 2 ^ k := mul_le_mul large (zpow_le_zpow_right₀ (by norm_num) less)
        (two_zpow_pos _).le (Nat.cast_nonneg n)

theorem compare_canonical (hm : IsCanonical m e) (hn : IsCanonical n k) :
    (compare e k).then (compare m n) = compare ((m : ℚ) * 2 ^ e) (n * 2 ^ k) := by
  rcases lt_trichotomy e k with less | same | more
  · rw [compare_lt_iff_lt.mpr less, compare_lt_iff_lt.mpr (canonical_lt hm hn less)]
    rfl
  · subst same
    have scale := two_zpow_pos e
    rw [compare_eq_iff_eq.mpr rfl, Ordering.eq_then]
    rcases lt_trichotomy m n with less | same | more
    · have less' : (m : ℚ) * 2 ^ e < n * 2 ^ e :=
        mul_lt_mul_of_pos_right (by exact_mod_cast less) scale
      rw [compare_lt_iff_lt.mpr less, compare_lt_iff_lt.mpr less']
    · rw [same, compare_eq_iff_eq.mpr rfl, compare_eq_iff_eq.mpr rfl]
    · have more' : (n : ℚ) * 2 ^ e < m * 2 ^ e :=
        mul_lt_mul_of_pos_right (by exact_mod_cast more) scale
      rw [compare_gt_iff_gt.mpr more, compare_gt_iff_gt.mpr more']
  · rw [compare_gt_iff_gt.mpr more, compare_gt_iff_gt.mpr (canonical_lt hn hm more)]
    rfl

theorem swap_compare_neg {G : Type} [AddCommGroup G] [LinearOrder G] [IsOrderedAddMonoid G]
    (p q : G) : (compare p q).swap = compare (-p) (-q) := by
  rcases lt_trichotomy p q with less | same | more
  · rw [compare_lt_iff_lt.mpr less, compare_gt_iff_gt.mpr (neg_lt_neg less)]
    rfl
  · rw [compare_eq_iff_eq.mpr same, compare_eq_iff_eq.mpr (congrArg Neg.neg same)]
    rfl
  · rw [compare_gt_iff_gt.mpr more, compare_lt_iff_lt.mpr (neg_lt_neg more)]
    rfl

theorem compare_value (hx : x.isFinite = true) (hy : y.isFinite = true) :
    UnpackedFloat.compare x.toModel.unpack y.toModel.unpack =
      some (compare (value x) (value y)) := by
  obtain ⟨s, ux⟩ | ⟨s, m, e, pos, ux, canonical, _⟩ := unpack_of_isFinite hx <;>
    obtain ⟨t, uy⟩ | ⟨t, n, k, pos', uy, canonical', _⟩ := unpack_of_isFinite hy
  · rw [value_of_unpack_zero ux, value_of_unpack_zero uy, ux, uy, compare_eq_iff_eq.mpr rfl]
    rfl
  · rw [value_of_unpack_zero ux, value_of_unpack_finite uy, ux, uy]
    cases t with
    | positive => rw [signed, compare_lt_iff_lt.mpr (mul_two_zpow_pos pos' k)]; rfl
    | negative => rw [signed, compare_gt_iff_gt.mpr (neg_neg_of_pos (mul_two_zpow_pos pos' k))]; rfl
  · rw [value_of_unpack_finite ux, value_of_unpack_zero uy, ux, uy]
    cases s with
    | positive => rw [signed, compare_gt_iff_gt.mpr (mul_two_zpow_pos pos e)]; rfl
    | negative => rw [signed, compare_lt_iff_lt.mpr (neg_neg_of_pos (mul_two_zpow_pos pos e))]; rfl
  · rw [value_of_unpack_finite ux, value_of_unpack_finite uy, ux, uy]
    cases s <;> cases t
    · rw [signed, signed, ← swap_compare_neg, ← compare_canonical canonical canonical']
      rfl
    · have below := neg_neg_of_pos (mul_two_zpow_pos pos e)
      rw [signed, signed, compare_lt_iff_lt.mpr (below.trans (mul_two_zpow_pos pos' k))]
      rfl
    · have below := neg_neg_of_pos (mul_two_zpow_pos pos' k)
      rw [signed, signed, compare_gt_iff_gt.mpr (below.trans (mul_two_zpow_pos pos e))]
      rfl
    · rw [signed, signed, ← compare_canonical canonical canonical']
      rfl

theorem lt_iff_of_compare
    (same : UnpackedFloat.compare x.toModel.unpack y.toModel.unpack = some (compare a b)) :
    x < y ↔ a < b := by
  rw [lt_iff_compare, same, Option.some.injEq, compare_lt_iff_lt]

theorem le_iff_of_compare
    (same : UnpackedFloat.compare x.toModel.unpack y.toModel.unpack = some (compare a b)) :
    x ≤ y ↔ a ≤ b := by
  have le : x ≤ y ↔ UnpackedFloat.le x.toModel.unpack y.toModel.unpack = true :=
    decide_eq_true_iff
  rw [le, UnpackedFloat.le, same, Option.any_some, Ordering.isLE_iff_ne_gt, ← Ne,
    compare_le_iff_le]

theorem beq_iff_of_compare
    (same : UnpackedFloat.compare x.toModel.unpack y.toModel.unpack = some (compare a b)) :
    (x == y) = true ↔ a = b := by
  change (UnpackedFloat.compare x.toModel.unpack y.toModel.unpack == some .eq) = true ↔ _
  rw [same, beq_iff_eq, Option.some.injEq, compare_eq_iff_eq]

theorem lt_iff_value (hx : x.isFinite = true) (hy : y.isFinite = true) :
    x < y ↔ value x < value y :=
  lt_iff_of_compare (compare_value hx hy)

theorem lt_zero_iff_value (finite : x.isFinite = true) : x < 0 ↔ value x < 0 := by
  rw [lt_iff_value finite (by decide), value_of_unpack_zero unpack_zero]

theorem le_iff_value (hx : x.isFinite = true) (hy : y.isFinite = true) :
    x ≤ y ↔ value x ≤ value y :=
  le_iff_of_compare (compare_value hx hy)

theorem beq_iff_value (hx : x.isFinite = true) (hy : y.isFinite = true) :
    (x == y) = true ↔ value x = value y :=
  beq_iff_of_compare (compare_value hx hy)

theorem value_neg (finite : x.isFinite = true) :
    (-x).isFinite = true ∧ value (-x) = -value x := by
  obtain ⟨v, decoded⟩ := decode_of_isFinite finite
  have opposite := decode_neg decoded
  refine ⟨isFinite_of_decode opposite, ?_⟩
  rw [value_of_decode opposite, value_of_decode decoded, v.value_opposite]

theorem sub_eq_add (hy : y.isFinite = true) : x - y = x + -y := by
  change Float.ofModel (.pack (UnpackedFloat.sub _ x.toModel.unpack y.toModel.unpack)) =
    Float.ofModel (.pack (UnpackedFloat.add _ x.toModel.unpack (-y).toModel.unpack))
  have model : (-y).toModel = .pack y.toModel.unpack.neg := rfl
  congr 2
  obtain ⟨t, uy⟩ | ⟨t, n, k, pos, uy, canonical, top⟩ := unpack_of_isFinite hy
  · rw [model, uy, UnpackedFloat.neg, unpack_pack_zero]
    cases x.toModel.unpack <;> rfl
  · rw [model, uy, UnpackedFloat.neg, unpack_pack_finite pos canonical top]
    cases x.toModel.unpack with
    | notANumber => rfl
    | infinity s => rfl
    | zero s => rfl
    | finite s m e pos =>
      simp only [UnpackedFloat.sub, UnpackedFloat.add]
      congr 1
      cases t with
      | positive => exact Int.sub_eq_add_neg
      | negative => exact sub_neg_eq_add _ _

theorem isRounding_sub (hx : x.isFinite = true) (hy : y.isFinite = true) :
    IsRounding (value x - value y) (x - y) := by
  obtain ⟨negated, opposite⟩ := value_neg hy
  have sum := isRounding_add hx negated
  rw [opposite, ← sub_eq_add_neg] at sum
  rw [sub_eq_add hy]
  exact sum

theorem IsDouble.multiple (double : IsDouble p) : ∃ N : ℤ, p = N * 2 ^ (-1074 : ℤ) := by
  obtain ⟨n, e, _, least, rfl⟩ := double
  refine ⟨n * 2 ^ (e + 1074).toNat, ?_⟩
  rw [Int.cast_mul, Int.cast_pow, Int.cast_ofNat, mul_assoc, two_pow_mul_zpow]
  congr 2
  omega

/-- A difference of doubles is a multiple of the smallest positive one. -/
theorem IsDouble.least_le_abs_sub (hp : IsDouble p) (hq : IsDouble q) (different : p ≠ q) :
    2 ^ (-1074 : ℤ) ≤ |p - q| := by
  obtain ⟨M, rfl⟩ := hp.multiple
  obtain ⟨N, rfl⟩ := hq.multiple
  have counts : M - N ≠ 0 := fun same => different (by rw [sub_eq_zero.mp same])
  have one : (1 : ℚ) ≤ |((M - N : ℤ) : ℚ)| := by exact_mod_cast Int.one_le_abs counts
  rw [← sub_mul, ← Int.cast_sub, abs_mul, abs_of_pos (two_zpow_pos _)]
  exact le_mul_of_one_le_left (two_zpow_pos _).le one

/-- Two doubles less than a whole unit apart have a difference of zero only if they are equal. -/
theorem sub_beq_zero_iff (hx : x.isFinite = true) (hy : y.isFinite = true)
    (near : |value x - value y| ≤ 1) : (x - y == 0) = true ↔ value x = value y := by
  have difference := isRounding_sub hx hy
  have range : |rounded (value x - value y)| < 2 ^ 1024 := by
    have one : IsDouble 1 := ⟨1, 0, by norm_num, by norm_num, by norm_num⟩
    exact (abs_rounded_le one near).trans_lt (one_lt_pow₀ one_lt_two (by norm_num))
  have finite := difference.isFinite range
  rw [beq_zero_iff finite, difference.value finite]
  constructor
  · intro zero
    by_contra different
    have least := le_abs_rounded (isDouble_two_zpow (le_refl _))
      ((isDouble_value x).least_le_abs_sub (isDouble_value y) different)
    rw [zero, abs_zero] at least
    exact absurd least (not_le.mpr (two_zpow_pos _))
  · intro same
    rw [same, sub_self, rounded_zero]

end

end Reckoner.Binary
