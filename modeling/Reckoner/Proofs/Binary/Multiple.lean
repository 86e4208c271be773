import Reckoner.Binary.Integral
import Reckoner.Proofs.Binary.Compare
import Reckoner.Proofs.Binary.Whole
import Reckoner.Proofs.Decimal.Literal

/-! Doubles counted in a unit. A remainder of two of them is exact and counts what is left of the
first count, whatever the unit. With the unit one they are the natural numbers, on which sums and
comparisons of products are exact too, as long as they are small. -/
namespace Reckoner.Binary

structure IsMultiple (unit : ℚ) (k : ℕ) (x : Float) : Prop where
  finite : x.isFinite = true
  unsigned : IsUnsigned x
  value_eq : value x = k * unit

section

variable {u s : ℚ} {i j k m n M N : ℕ} {x y z : Float} {v w : Exact}

theorem isMultiple_abs (finite : x.isFinite = true) (same : |value x| = k * u) :
    IsMultiple u k x.abs :=
  ⟨(value_abs finite).1, isUnsigned_abs x, (value_abs finite).2.trans same⟩

theorem IsMultiple.beq_zero_iff (h : IsMultiple u k x) (pos : 0 < u) :
    (x == 0) = true ↔ k = 0 := by
  rw [Binary.beq_zero_iff h.finite, h.value_eq, mul_eq_zero, Nat.cast_eq_zero, or_iff_left pos.ne']

theorem count_pos (pos : 0 < k) (posU : 0 < u) (same : (k : ℚ) * u = n * s) : 0 < n := by
  have product : (0 : ℚ) < k * u := mul_pos (Nat.cast_pos.mpr pos) posU
  apply Nat.pos_of_ne_zero
  rintro rfl
  simp [same] at product

/-- Counts in two units that stand for the same numbers have remainders that do. -/
theorem mod_mul_eq (pos : 0 < n) (posU : 0 < u) (posS : 0 < s) (first : (m : ℚ) * u = M * s)
    (second : (n : ℚ) * u = N * s) : ((m % n : ℕ) : ℚ) * u = (M % N : ℕ) * s := by
  have posN := count_pos pos posU second
  have cross : N * m = n * M := by
    have scaled : ((N * m : ℕ) : ℚ) * (u * s) = (n * M : ℕ) * (u * s) := by
      push_cast
      linear_combination (N : ℚ) * s * first - (M : ℚ) * s * second
    exact_mod_cast mul_right_cancel₀ (mul_pos posU posS).ne' scaled
  have quotients : m / n = M / N := by
    rw [← Nat.mul_div_mul_left m n posN, cross, Nat.mul_comm N n, Nat.mul_div_mul_left M N pos]
  have left : (m : ℚ) = n * (m / n : ℕ) + (m % n : ℕ) := by exact_mod_cast (Nat.div_add_mod m n).symm
  have right : (M : ℚ) = N * (m / n : ℕ) + (M % N : ℕ) := by
    rw [quotients]
    exact_mod_cast (Nat.div_add_mod M N).symm
  linear_combination first - ((m / n : ℕ) : ℚ) * second - u * left + s * right

theorem bounds_of_decode (h : decode x = some v) : v.mantissa < 2 ^ 53 ∧ -1074 ≤ v.exponent := by
  obtain ⟨s, ux⟩ | ⟨s, m, e, pos, ux, canonical, _⟩ := unpack_of_isFinite (isFinite_of_decode h)
  · rw [decode_of_unpack_zero ux] at h
    cases h
    exact ⟨by norm_num, by norm_num⟩
  · rw [decode_of_unpack_finite ux] at h
    cases h
    exact ⟨canonical.short, canonical.least⟩

theorem Exact.mantissaAt_mul {e : ℤ} (h : e ≤ v.exponent) :
    (v.mantissaAt e : ℚ) * 2 ^ e = v.magnitude := by
  rw [Exact.mantissaAt, Exact.magnitude]
  change ((v.mantissa * 2 ^ (v.exponent - e).toNat : ℕ) : ℚ) * 2 ^ e = _
  rw [Nat.cast_mul, Nat.cast_pow, Nat.cast_ofNat, mul_assoc, two_pow_mul_zpow]
  congr 2
  omega

theorem Exact.mantissaAt_self (v : Exact) : v.mantissaAt v.exponent = v.mantissa := by
  rw [Exact.mantissaAt, sub_self]
  exact Nat.mul_one v.mantissa

theorem Exact.isDouble_value (short : v.mantissa < 2 ^ 53) (least : -1074 ≤ v.exponent) :
    IsDouble v.value := by
  have magnitude : IsDouble v.magnitude :=
    ⟨v.mantissa, v.exponent, by rw [abs_of_nonneg (by positivity)]; exact_mod_cast short, least, rfl⟩
  unfold Exact.value
  split
  · exact magnitude.neg
  · exact magnitude

/-- A remainder is less than the divisor and no more than the dividend, and one of the two has its
grid, so it needs no more bits than they have. -/
theorem Exact.remainder_short (hv : v.mantissa < 2 ^ 53) (hw : w.mantissa < 2 ^ 53)
    (pos : 0 < w.mantissa) : (v.remainder w).mantissa < 2 ^ 53 := by
  change v.mantissaAt _ % w.mantissaAt _ < 2 ^ 53
  rcases le_total v.exponent w.exponent with finer | coarser
  · rw [min_eq_left finer, v.mantissaAt_self]
    exact (Nat.mod_le _ _).trans_lt hv
  · rw [min_eq_right coarser, w.mantissaAt_self]
    exact (Nat.mod_lt _ pos).trans hw

theorem IsRounding.exact {q : ℚ} (h : IsRounding q x) (double : IsDouble q)
    (range : |q| < 2 ^ 1024) : x.isFinite = true ∧ Binary.value x = q := by
  have same := rounded_of_isDouble double
  have finite := h.isFinite (same.symm ▸ range)
  exact ⟨finite, (h.value finite).trans same⟩

theorem IsMultiple.mantissaAt (h : IsMultiple u k x) (decoded : decode x = some v) {e : ℤ}
    (finer : e ≤ v.exponent) : (k : ℚ) * u = v.mantissaAt e * 2 ^ e := by
  rw [Exact.mantissaAt_mul finer, ← h.value_eq, value_of_decode decoded, Exact.value,
    h.unsigned.decode decoded]
  rfl

theorem IsMultiple.mantissa_pos (h : IsMultiple u k x) (decoded : decode x = some v) (posU : 0 < u)
    (pos : 0 < k) : 0 < v.mantissa := by
  have counted := h.mantissaAt decoded le_rfl
  rw [v.mantissaAt_self] at counted
  exact count_pos pos posU counted

/-- The remainder of two doubles is exact. -/
theorem IsMultiple.remainder (hx : IsMultiple u m x) (hy : IsMultiple u n y) (posU : 0 < u)
    (pos : 0 < n) : IsMultiple u (m % n) (Binary.remainder x y) := by
  obtain ⟨v, decodedX⟩ := decode_of_isFinite hx.finite
  obtain ⟨w, decodedY⟩ := decode_of_isFinite hy.finite
  have posW := hy.mantissa_pos decodedY posU pos
  have sign : (v.remainder w).negative = false := by
    change v.negative = false
    exact hx.unsigned.decode decodedX
  have counted : (v.remainder w).value = (m % n : ℕ) * u := by
    rw [mod_mul_eq pos posU (two_zpow_pos _) (hx.mantissaAt decodedX (min_le_left _ _))
      (hy.mantissaAt decodedY (min_le_right _ _)), Exact.value, sign]
    rfl
  have range : |((m % n : ℕ) : ℚ) * u| < 2 ^ 1024 := by
    have fewer : ((m % n : ℕ) : ℚ) ≤ m := by exact_mod_cast Nat.mod_le m n
    have nonneg : (0 : ℚ) ≤ (m % n : ℕ) * u := mul_nonneg (Nat.cast_nonneg _) posU.le
    rw [abs_of_nonneg nonneg]
    refine (mul_le_mul_of_nonneg_right fewer posU.le).trans_lt ?_
    rw [← hx.value_eq]
    exact (le_abs_self _).trans_lt (abs_value_lt x)
  obtain ⟨shortV, leastV⟩ := bounds_of_decode decodedX
  obtain ⟨shortW, leastW⟩ := bounds_of_decode decodedY
  have double := Exact.isDouble_value (v := v.remainder w)
    (Exact.remainder_short shortV shortW posW) (le_min leastV leastW)
  have rounding := isRounding_nearest (v.remainder w)
  rw [counted] at double rounding
  obtain ⟨finite, same⟩ := rounding.exact double range
  have result : Binary.remainder x y = (v.remainder w).nearest := by
    rw [Binary.remainder, decodedX, decodedY]
    exact if_neg posW.ne'
  rw [result]
  exact ⟨finite, isUnsigned_nearest sign, same⟩

end

section Naturals

variable {i j k m n : ℕ} {x y z : Float}

theorem isDouble_natCast (small : k ≤ 2 ^ 53) : IsDouble k := by
  have magnitude : |(k : ℤ)| ≤ 2 ^ 53 := by
    rw [Nat.abs_cast]
    exact_mod_cast small
  exact isDouble_intCast magnitude

theorem abs_natCast_lt {b : ℕ} (h : k ≤ 2 ^ b) (few : b < 1024) : |(k : ℚ)| < 2 ^ 1024 := by
  have bound : (k : ℚ) ≤ 2 ^ b := by exact_mod_cast h
  rw [Nat.abs_cast]
  exact bound.trans_lt (pow_lt_pow_right₀ one_lt_two few)

theorem isRounding_ofNat (n : ℕ) : IsRounding n (Float.ofNat n) := by
  have result : IsRounding (n * 10 ^ (0 : ℤ)) (Float.ofNat n) := Decimal.isRounding_nearest n 0
  rwa [zpow_zero, mul_one] at result

theorem isMultiple_ofNat (small : k ≤ 2 ^ 53) : IsMultiple 1 k (Float.ofNat k) := by
  obtain ⟨finite, same⟩ := (isRounding_ofNat k).exact (isDouble_natCast small) (abs_natCast_lt small (by norm_num))
  exact ⟨finite, isUnsigned_ofScientific _ _ _, same.trans (mul_one _).symm⟩

theorem IsMultiple.add (hx : IsMultiple 1 m x) (hy : IsMultiple 1 n y) (pos : 0 < m + n)
    (small : m + n ≤ 2 ^ 53) : IsMultiple 1 (m + n) (x + y) := by
  have rounding := isRounding_add hx.finite hy.finite
  rw [hx.value_eq, hy.value_eq, ← add_mul, ← Nat.cast_add, mul_one] at rounding
  obtain ⟨finite, same⟩ := rounding.exact (isDouble_natCast small) (abs_natCast_lt small (by norm_num))
  refine ⟨finite, isUnsigned_of_value_pos ?_, same.trans (mul_one _).symm⟩
  rw [same]
  exact_mod_cast pos

theorem IsMultiple.le_iff (hx : IsMultiple 1 m x) (hy : IsMultiple 1 n y) : x ≤ y ↔ m ≤ n := by
  rw [le_iff_value hx.finite hy.finite, hx.value_eq, hy.value_eq, mul_one, mul_one, Nat.cast_le]

/-- A product that is too long for a double is rounded, but not down to a number below it. -/
theorem IsMultiple.mul_le_iff (hx : IsMultiple 1 i x) (hy : IsMultiple 1 j y)
    (hz : IsMultiple 1 n z) (smallX : i ≤ 2 ^ 53) (smallY : j ≤ 2 ^ 53) (smallZ : n < 2 ^ 53) :
    x * y ≤ z ↔ i * j ≤ n := by
  have rounding := isRounding_mul hx.finite hy.finite
  rw [hx.value_eq, hy.value_eq, mul_one, mul_one, ← Nat.cast_mul] at rounding
  have short : i * j ≤ 2 ^ 106 := by
    calc i * j ≤ 2 ^ 53 * 2 ^ 53 := Nat.mul_le_mul smallX smallY
      _ = 2 ^ 106 := by rw [← Nat.pow_add]
  have largest : IsDouble ((2 : ℚ) ^ 106) := by
    have power := isDouble_two_zpow (e := 106) (by norm_num)
    rwa [zpow_ofNat] at power
  have range : |rounded ((i * j : ℕ) : ℚ)| < 2 ^ 1024 := by
    refine (abs_rounded_le largest ?_).trans_lt (pow_lt_pow_right₀ one_lt_two (by norm_num))
    rw [Nat.abs_cast]
    exact_mod_cast short
  have finite := rounding.isFinite range
  rw [le_iff_value finite hz.finite, rounding.value finite, hz.value_eq, mul_one]
  constructor
  · intro below
    by_contra above
    have next : ((n + 1 : ℕ) : ℚ) ≤ (i * j : ℕ) := by exact_mod_cast not_le.mp above
    have kept := rounded_mono next
    rw [rounded_of_isDouble (isDouble_natCast smallZ)] at kept
    have impossible : n + 1 ≤ n := by exact_mod_cast kept.trans below
    omega
  · intro below
    have kept : rounded ((i * j : ℕ) : ℚ) ≤ rounded (n : ℚ) := rounded_mono (by exact_mod_cast below)
    rwa [rounded_of_isDouble (isDouble_natCast smallZ.le)] at kept

/-- A natural number that is a double and has more bits than one keeps is even. -/
theorem even_of_isDouble (double : IsDouble n) (large : 2 ^ 53 ≤ n) : n % 2 = 0 := by
  obtain ⟨k, e, short, _, same⟩ := double
  have magnitude : (2 : ℚ) ^ 53 ≤ |(k : ℚ) * 2 ^ e| := by
    rw [← same, Nat.abs_cast]
    exact_mod_cast large
  have positive : 0 < e := by
    by_contra nonpos
    have unit : (2 : ℚ) ^ e ≤ 1 := zpow_le_one_of_nonpos₀ one_le_two (by omega)
    have shortQ : |(k : ℚ)| < 2 ^ 53 := by exact_mod_cast short
    rw [abs_mul, abs_of_pos (two_zpow_pos e)] at magnitude
    have most : |(k : ℚ)| * 2 ^ e ≤ |(k : ℚ)| := mul_le_of_le_one_right (abs_nonneg _) unit
    linarith
  have factor : (n : ℤ) = 2 * (k * 2 ^ (e - 1).toNat) := by
    have power : (2 : ℚ) ^ e = 2 * 2 ^ (e - 1).toNat := by
      rw [← pow_succ', ← zpow_natCast]
      congr 1
      omega
    have product : (n : ℚ) = 2 * (k * 2 ^ (e - 1).toNat) := by rw [same, power]; ring
    exact_mod_cast product
  omega

end Naturals

end Reckoner.Binary
