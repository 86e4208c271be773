import Reckoner.Proofs.Binary.Multiple

/-! Lower bounds of results that may be too large for a double. What overflows upward is below
nothing, so such a bound holds without a condition on the range. -/
namespace Reckoner.Binary

open Float.Model (UnpackedFloat Format)

section

variable {x y z : Float} {q : ℚ} {k n : ℕ}

theorem isFinite_pack {u : UnpackedFloat} (infinite : u.isFinite = false) :
    (Float.ofModel (.pack u)).isFinite = false := by
  cases u with
  | notANumber => rfl
  | infinity s => cases s <;> rfl
  | zero s => cases infinite
  | finite s m e pos => cases infinite

theorem isFinite_mul (infinite : y.isFinite = false) : (x * y).isFinite = false := by
  apply isFinite_pack
  obtain uy | ⟨s, uy⟩ := unpack_of_not_isFinite infinite <;> rw [uy]
  · cases x.toModel.unpack <;> rfl
  · cases x.toModel.unpack <;> rfl

theorem isFinite_mul_left (infinite : x.isFinite = false) : (x * y).isFinite = false := by
  apply isFinite_pack
  obtain ux | ⟨s, ux⟩ := unpack_of_not_isFinite infinite <;> rw [ux]
  · cases y.toModel.unpack <;> rfl
  · cases y.toModel.unpack <;> rfl

theorem isFinite_div (infinite : x.isFinite = false) : (x / y).isFinite = false := by
  apply isFinite_pack
  obtain ux | ⟨s, ux⟩ := unpack_of_not_isFinite infinite <;> rw [ux]
  · cases y.toModel.unpack <;> rfl
  · cases y.toModel.unpack <;> rfl

theorem IsRounding.overflows {q : ℚ} (h : IsRounding q x) (large : 2 ^ (1024 : ℤ) ≤ |q|) :
    x.isFinite = false := by
  by_contra overflows
  have finite := Bool.eq_true_of_not_eq_false overflows
  have reached := le_abs_rounded (isDouble_two_zpow (by norm_num)) large
  rw [← h.value finite, zpow_ofNat] at reached
  exact absurd reached (not_le.mpr (abs_value_lt x))

/-- A sum with a part that has overflowed upward has done so too. -/
theorem add_of_infinite (hx : x.isFinite = true) (unsigned : IsUnsigned y)
    (infinite : y.isFinite = false) : IsUnsigned (x + y) ∧ (x + y).isFinite = false := by
  have sum : Unsigned (UnpackedFloat.add Format.binary64 x.toModel.unpack y.toModel.unpack) ∧
      (UnpackedFloat.add Format.binary64 x.toModel.unpack y.toModel.unpack).isFinite = false := by
    unfold IsUnsigned at unsigned
    obtain uy | ⟨t, uy⟩ := unpack_of_not_isFinite infinite <;> rw [uy] at unsigned ⊢ <;>
      obtain ⟨s, ux⟩ | ⟨s, m, e, pos, ux, _⟩ := unpack_of_isFinite hx <;> rw [ux]
    · exact ⟨trivial, rfl⟩
    · exact ⟨trivial, rfl⟩
    · exact ⟨unsigned, rfl⟩
    · exact ⟨unsigned, rfl⟩
  exact ⟨isUnsigned_pack sum.1, isFinite_pack sum.2⟩

/-- A positive sum has no minus sign, even if it overflows. -/
theorem isUnsigned_add (hx : x.isFinite = true) (hy : y.isFinite = true)
    (pos : 0 < value x + value y) : IsUnsigned (x + y) := by
  apply isUnsigned_pack
  obtain ⟨s, ux⟩ | ⟨s, m, e, posM, ux, _⟩ := unpack_of_isFinite hx <;>
    obtain ⟨t, uy⟩ | ⟨t, n, k, posN, uy, _⟩ := unpack_of_isFinite hy
  · rw [value_of_unpack_zero ux, value_of_unpack_zero uy, add_zero] at pos
    exact absurd pos (lt_irrefl 0)
  · rw [value_of_unpack_zero ux, zero_add] at pos
    have unsigned := isUnsigned_of_value_pos pos
    rw [IsUnsigned, uy] at unsigned
    rw [ux, uy]
    exact unsigned
  · rw [value_of_unpack_zero uy, add_zero] at pos
    have unsigned := isUnsigned_of_value_pos pos
    rw [IsUnsigned, ux] at unsigned
    rw [ux, uy]
    exact unsigned
  · rw [value_of_unpack_finite ux, value_of_unpack_finite uy,
      ← apply_decreaseExponent s m (min_le_left e k),
      ← apply_decreaseExponent t n (min_le_right e k), ← add_mul] at pos
    have sum := pos_of_mul_pos_left pos (two_zpow_pos (min e k)).le
    rw [ux, uy]
    exact unsigned_normalize _ (by exact_mod_cast sum.le) _

/-- What has overflowed upward, or is NaN, is below nothing. -/
theorem not_lt_of_infinite (unsigned : IsUnsigned x) (infinite : x.isFinite = false) : ¬x < y := by
  rw [lt_iff_compare]
  unfold IsUnsigned at unsigned
  obtain ux | ⟨s, ux⟩ := unpack_of_not_isFinite infinite <;> rw [ux] at unsigned ⊢
  · nofun
  · cases unsigned
    cases y.toModel.unpack with
    | infinity t => cases t <;> nofun
    | notANumber => nofun
    | zero t => nofun
    | finite t m e pos => nofun

theorem IsDouble.mul_two_pow (double : IsDouble q) (k : ℕ) : IsDouble (q * 2 ^ k) := by
  obtain ⟨n, e, small, least, rfl⟩ := double
  refine ⟨n, e + k, small, by omega, ?_⟩
  rw [two_zpow_add, zpow_natCast, mul_assoc]

/-- A multiple is no less than the one by a power of two that its count reaches. -/
theorem le_value_mul_ofNat (hx : x.isFinite = true) (nonneg : 0 ≤ value x) (reached : 2 ^ k ≤ n)
    (finite : (x * Float.ofNat n).isFinite = true) :
    value x * 2 ^ k ≤ value (x * Float.ofNat n) := by
  have count : (Float.ofNat n).isFinite = true := by
    by_contra infinite
    cases (isFinite_mul (Bool.eq_false_iff.mpr infinite)).symm.trans finite
  have power : (2 : ℚ) ^ k ≤ value (Float.ofNat n) := by
    have reachedQ : (2 : ℚ) ^ (k : ℤ) ≤ n := by exact_mod_cast reached
    have double := rounded_of_isDouble (isDouble_two_zpow (by omega : -1074 ≤ (k : ℤ)))
    rw [(isRounding_ofNat n).value count, ← zpow_natCast, ← double]
    exact rounded_mono reachedQ
  rw [(isRounding_mul hx count).value finite,
    ← rounded_of_isDouble ((isDouble_value x).mul_two_pow k)]
  exact rounded_mono (mul_le_mul_of_nonneg_left power nonneg)

/-- Rounding keeps the order. What is at most a number in range is in range. -/
theorem value_le_of_isRounding {p q : ℚ} (hp : IsRounding p x) (hq : IsRounding q y)
    (nonneg : 0 ≤ p) (le : p ≤ q) (finite : y.isFinite = true) :
    x.isFinite = true ∧ value x ≤ value y := by
  have order := rounded_mono le
  have range : |rounded p| < 2 ^ 1024 := by
    rw [abs_of_nonneg (rounded_nonneg nonneg)]
    rw [← hq.value finite] at order
    exact order.trans_lt ((le_abs_self _).trans_lt (abs_value_lt y))
  have finiteX := hp.isFinite range
  exact ⟨finiteX, by rwa [hp.value finiteX, hq.value finite]⟩

/-- Multiples are in the order of their counts. -/
theorem value_mul_ofNat_mono (hx : x.isFinite = true) (nonneg : 0 ≤ value x) (le : k ≤ n)
    (finite : (x * Float.ofNat n).isFinite = true) :
    (x * Float.ofNat k).isFinite = true ∧
      value (x * Float.ofNat k) ≤ value (x * Float.ofNat n) := by
  have countN : (Float.ofNat n).isFinite = true := by
    by_contra infinite
    cases (isFinite_mul (Bool.eq_false_iff.mpr infinite)).symm.trans finite
  have leQ : (k : ℚ) ≤ n := by exact_mod_cast le
  obtain ⟨countK, counts⟩ :=
    value_le_of_isRounding (isRounding_ofNat k) (isRounding_ofNat n) k.cast_nonneg leQ countN
  have nonnegK : 0 ≤ value (Float.ofNat k) := by
    rw [(isRounding_ofNat k).value countK]
    exact rounded_nonneg k.cast_nonneg
  exact value_le_of_isRounding (isRounding_mul hx countK) (isRounding_mul hx countN)
    (mul_nonneg nonneg nonnegK) (mul_le_mul_of_nonneg_left counts nonneg) finite

/-- A sum that overflows does so upward if its second part has no minus sign. -/
theorem isUnsigned_add_of_infinite (hx : x.isFinite = true) (hy : y.isFinite = true)
    (unsigned : IsUnsigned y) (infinite : (x + y).isFinite = false) : IsUnsigned (x + y) := by
  refine isUnsigned_add hx hy ?_
  -- A sum that is not positive is between the first part and zero, so it does not overflow.
  by_contra notPos
  have nonneg := unsigned.value_nonneg
  have bound : |value x + value y| ≤ |value x| := by
    rw [abs_of_nonpos (not_lt.mp notPos), abs_of_nonpos (by linarith)]
    linarith
  have range := (abs_rounded_le (isDouble_value x).abs bound).trans_lt (abs_value_lt x)
  cases infinite.symm.trans ((isRounding_add hx hy).isFinite range)

/-- A sum that reaches a number is not below it. -/
theorem not_add_lt (hx : x.isFinite = true) (hz : z.isFinite = true) (unsigned : IsUnsigned y)
    (reached : y.isFinite = true → value z ≤ value x + value y) : ¬x + y < z := by
  by_cases hy : y.isFinite = true
  · have sum := isRounding_add hx hy
    by_cases finite : (x + y).isFinite = true
    · rw [lt_iff_value finite hz, not_lt, sum.value finite,
        ← rounded_of_isDouble (isDouble_value z)]
      exact rounded_mono (reached hy)
    · have infinite := Bool.eq_false_iff.mpr finite
      exact not_lt_of_infinite (isUnsigned_add_of_infinite hx hy unsigned infinite) infinite
  · have ⟨unsigned', infinite⟩ := add_of_infinite hx unsigned (Bool.eq_false_iff.mpr hy)
    exact not_lt_of_infinite unsigned' infinite

/-- A sum that is below a number is so with a smaller second part as well. -/
theorem add_lt_of_le {y' : Float} (hx : x.isFinite = true) (hz : z.isFinite = true)
    (unsigned : IsUnsigned y) (unsigned' : IsUnsigned y')
    (le : y'.isFinite = true → y.isFinite = true ∧ value y ≤ value y') (below : x + y' < z) :
    x + y < z := by
  have hy' : y'.isFinite = true := by
    by_contra infinite
    obtain ⟨sign, overflow⟩ := add_of_infinite hx unsigned' (Bool.eq_false_iff.mpr infinite)
    exact not_lt_of_infinite sign overflow below
  have hsum' : (x + y').isFinite = true := by
    by_contra overflow
    have infinite := Bool.eq_false_iff.mpr overflow
    exact not_lt_of_infinite (isUnsigned_add_of_infinite hx hy' unsigned' infinite) infinite below
  obtain ⟨hy, order⟩ := le hy'
  have sum := isRounding_add hx hy
  have top : rounded (value x + value y) ≤ value (x + y') := by
    rw [(isRounding_add hx hy').value hsum']
    exact rounded_mono (by linarith)
  have bottom : value x ≤ rounded (value x + value y) := by
    have nonneg := unsigned.value_nonneg
    calc value x = rounded (value x) := (rounded_of_isDouble (isDouble_value x)).symm
      _ ≤ rounded (value x + value y) := rounded_mono (by linarith)
  have rangeX := abs_lt.mp (abs_value_lt x)
  have rangeSum := abs_lt.mp (abs_value_lt (x + y'))
  have hsum := sum.isFinite (abs_lt.mpr ⟨rangeX.1.trans_le bottom, top.trans_lt rangeSum.2⟩)
  rw [lt_iff_value hsum' hz] at below
  rw [lt_iff_value hsum hz, sum.value hsum]
  exact top.trans_lt below

end

end Reckoner.Binary
