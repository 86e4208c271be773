import Reckoner.Proofs.Binary.Integral
import Reckoner.Proofs.Binary.Overflow

/-! Doubles that measure a size, such as squares, sums of squares and their roots. They are not
below zero, and they are zero only if all that they come from is. A root that is not zero is so
large that the product of two of them is not zero either. -/
namespace Reckoner.Binary

open Float.Model (UnpackedFloat Format totalExponent)
open Float.Model.UnpackedFloat

/-- Whether a double is not below zero. One that has overflowed has done so upward, or is NaN. -/
structure IsSize (x : Float) : Prop where
  nonneg : 0 ≤ value x
  unsigned : x.isFinite = false → IsUnsigned x

section

variable {x y : Float} {p q : ℚ} {u v : UnpackedFloat} {m : ℕ} {e : ℤ}

theorem value_of_infinite (infinite : x.isFinite = false) : value x = 0 := by
  rw [value, decode_of_infinite infinite]

theorem beq_zero_iff_finite : (x == 0) = true ↔ x.isFinite = true ∧ value x = 0 := by
  cases finite : x.isFinite with
  | true => simp [beq_zero_iff finite]
  | false =>
    have different : x.toModel.unpack.beq (0 : Float).toModel.unpack = false := by
      rw [unpack_zero]
      obtain ux | ⟨s, ux⟩ := unpack_of_not_isFinite finite
      · rw [ux]
        rfl
      · rw [ux]
        cases s <;> rfl
    change x.toModel.unpack.beq (0 : Float).toModel.unpack = true ↔ _
    simp [different]

/-- What is rounded to a zero is not what overflows. -/
theorem IsRounding.beq_zero_iff (h : IsRounding q x) : (x == 0) = true ↔ rounded q = 0 := by
  rw [beq_zero_iff_finite]
  constructor
  · rintro ⟨finite, none⟩
    rwa [h.value finite] at none
  · intro none
    have finite := h.isFinite (by rw [none]; norm_num)
    exact ⟨finite, (h.value finite).trans none⟩

theorem IsRounding.isSize (h : IsRounding q x) (nonneg : 0 ≤ q)
    (unsigned : x.isFinite = false → IsUnsigned x) : IsSize x := by
  refine ⟨?_, unsigned⟩
  cases finite : x.isFinite with
  | true =>
    rw [h.value finite]
    exact rounded_nonneg nonneg
  | false => exact (value_of_infinite finite).ge

theorem rounded_eq_zero_iff : rounded q = 0 ↔ |q| ≤ 2 ^ (-1075 : ℤ) := by
  have half : (2 : ℚ) ^ (-1074 : ℤ) / 2 = 2 ^ (-1075 : ℤ) := by
    rw [div_eq_iff two_ne_zero, ← zpow_add_one₀ two_ne_zero]
    norm_num
  constructor
  · intro zero
    have near := abs_rounded_sub_le_quantum q
    rw [zero, zero_sub, abs_neg] at near
    by_cases normal : -1074 < quantum q
    · by_cases notZero : q = 0
      · simp [notZero]
      · have large := two_zpow_quantum_le notZero normal
        have scale := two_zpow_pos (quantum q)
        linarith
    · have least : quantum q = -1074 := le_antisymm (not_lt.mp normal) (le_max_right _ _)
      rwa [least, half] at near
  · intro small
    by_cases notZero : q = 0
    · rw [notZero, rounded_zero]
    have scale := two_zpow_pos (-1074)
    have grid : quantum q = -1074 :=
      quantum_eq le_rfl (by linarith) (.inl rfl) notZero
    have nearest : IsNearest (q / 2 ^ (-1074 : ℤ)) 0 := by
      refine ⟨?_, fun _ => Even.zero⟩
      rw [Int.cast_zero, sub_zero, abs_div, abs_of_pos scale, div_le_iff₀ scale]
      linarith
    rw [rounded, grid, nearest.eq, Int.cast_zero, zero_mul]

/-- A sum with an unsigned part that is not finite is like that part, unless the other part has
overflowed downward. -/
theorem unsigned_add_of_infinite (hu : Unsigned u) (infinite : u.isFinite = false)
    (hv : v.isFinite = false → Unsigned v) :
    (Unsigned (.add Format.binary64 u v) ∧
      (UnpackedFloat.add Format.binary64 u v).isFinite = false) ∧
    (Unsigned (.add Format.binary64 v u) ∧
      (UnpackedFloat.add Format.binary64 v u).isFinite = false) := by
  cases u with
  | notANumber => cases v <;> exact ⟨⟨trivial, rfl⟩, ⟨trivial, rfl⟩⟩
  | infinity s =>
    cases hu
    cases v with
    | notANumber => exact ⟨⟨trivial, rfl⟩, ⟨trivial, rfl⟩⟩
    | infinity t =>
      cases hv rfl
      exact ⟨⟨rfl, rfl⟩, ⟨rfl, rfl⟩⟩
    | zero t => exact ⟨⟨rfl, rfl⟩, ⟨rfl, rfl⟩⟩
    | finite t n k pos => exact ⟨⟨rfl, rfl⟩, ⟨rfl, rfl⟩⟩
  | zero s => cases infinite
  | finite s m e pos => cases infinite

theorem isSize_pack_of_infinite (unsigned : Unsigned u) (infinite : u.isFinite = false) :
    IsSize (.ofModel (.pack u)) ∧ (Float.ofModel (.pack u)).isFinite = false := by
  have infinite' := isFinite_pack infinite
  exact ⟨⟨(value_of_infinite infinite').ge, fun _ => isUnsigned_pack unsigned⟩, infinite'⟩

theorem IsSize.add_infinite (hx : IsSize x) (hy : IsSize y) (infinite : y.isFinite = false) :
    (IsSize (x + y) ∧ (x + y).isFinite = false) ∧ (IsSize (y + x) ∧ (y + x).isFinite = false) := by
  obtain ⟨⟨left, left'⟩, right, right'⟩ := unsigned_add_of_infinite (u := y.toModel.unpack)
    (v := x.toModel.unpack) (hy.unsigned infinite) infinite hx.unsigned
  exact ⟨isSize_pack_of_infinite right right', isSize_pack_of_infinite left left'⟩

theorem rounded_add_eq_zero_iff (hp : IsDouble p) (hq : IsDouble q) (nonneg : 0 ≤ p)
    (nonneg' : 0 ≤ q) : rounded (p + q) = 0 ↔ p = 0 ∧ q = 0 := by
  constructor
  · intro none
    have first : rounded p ≤ rounded (p + q) := rounded_mono (le_add_of_nonneg_right nonneg')
    have second : rounded q ≤ rounded (p + q) := rounded_mono (le_add_of_nonneg_left nonneg)
    rw [none, rounded_of_isDouble hp] at first
    rw [none, rounded_of_isDouble hq] at second
    exact ⟨first.antisymm nonneg, second.antisymm nonneg'⟩
  · rintro ⟨rfl, rfl⟩
    rw [add_zero, rounded_zero]

/-- A sum of sizes is a size, and is zero only if both are. -/
theorem IsSize.add (hx : IsSize x) (hy : IsSize y) :
    IsSize (x + y) ∧ ((x + y == 0) = true ↔ (x == 0) = true ∧ (y == 0) = true) := by
  cases fx : x.isFinite with
  | false =>
    obtain ⟨_, size, infinite⟩ := hy.add_infinite hx fx
    exact ⟨size, by simp [beq_zero_iff_finite, infinite, fx]⟩
  | true =>
    cases fy : y.isFinite with
    | false =>
      obtain ⟨⟨size, infinite⟩, _⟩ := hx.add_infinite hy fy
      exact ⟨size, by simp [beq_zero_iff_finite, infinite, fy]⟩
    | true =>
      have sum := isRounding_add fx fy
      have nonneg := add_nonneg hx.nonneg hy.nonneg
      have parts := rounded_add_eq_zero_iff (isDouble_value x) (isDouble_value y) hx.nonneg
        hy.nonneg
      refine ⟨sum.isSize nonneg fun infinite => isUnsigned_add fx fy ?_, ?_⟩
      · refine nonneg.lt_of_ne fun none => ?_
        rw [← none] at sum
        cases infinite.symm.trans (beq_zero_iff_finite.mp (sum.beq_zero_iff.mpr rounded_zero)).1
      · rw [sum.beq_zero_iff, parts, beq_zero_iff fx, beq_zero_iff fy]

/-- A square is a size. It is zero if the exact square is no more than half of the least double. -/
theorem isSize_square (x : Float) :
    IsSize (x * x) ∧ ((x * x == 0) = true ↔ x.isFinite = true ∧ value x ^ 2 ≤ 2 ^ (-1075 : ℤ)) := by
  have unsigned : IsUnsigned (x * x) := by
    apply isUnsigned_pack
    cases x.toModel.unpack with
    | notANumber => trivial
    | infinity s => cases s <;> rfl
    | zero s => cases s <;> rfl
    | finite s m e pos => cases s <;> exact unsigned_round ..
  refine ⟨⟨unsigned.value_nonneg, fun _ => unsigned⟩, ?_⟩
  cases finite : x.isFinite with
  | false => simp [beq_zero_iff_finite, isFinite_mul finite]
  | true =>
    rw [(isRounding_mul finite finite).beq_zero_iff, rounded_eq_zero_iff, ← sq,
      abs_of_nonneg (sq_nonneg _)]
    simp

theorem exists_represents_root (root rest : ℕ) :
    ∃ f : ℚ, 0 ≤ f ∧ Represents (.ofMantissaAndAccuracy root (if rest = 0 then .exact else
      .inexact (if rest ≤ root then .lt else .gt))) (root + f) := by
  have quarter : accuracyOfFraction 1 4 = .inexact .lt := rfl
  have threeQuarters : accuracyOfFraction 3 4 = .inexact .gt := rfl
  split
  · exact ⟨0, le_rfl, by simpa using represents_exact root⟩
  · split
    · rw [← quarter]
      exact ⟨_, by positivity, represents_fraction root (by norm_num)⟩
    · rw [← threeQuarters]
      exact ⟨_, by positivity, represents_fraction root (by norm_num)⟩

/-- The root of a number is shifted so far that it keeps 53 bits or reaches below the least double.
-/
theorem sqrt_eq {s : Sign} {pos : 0 < m} (unpacked : x.toModel.unpack = .finite s m e pos)
    (unsigned : IsUnsigned x) :
    ∃ (t : ℤ) (n : ℕ), (n : ℚ) * 2 ^ (2 * t) = m * 2 ^ e ∧ (2 ^ 52 ≤ n.sqrt ∨ t ≤ -1074) ∧ 0 < n ∧
      x.sqrt = .ofModel (.pack (roundWithAccuracy Format.binary64 .positive n.sqrt t
        (if n - n.sqrt * n.sqrt = 0 then .exact else
          .inexact (if n - n.sqrt * n.sqrt ≤ n.sqrt then .lt else .gt)))) := by
  rw [IsUnsigned, unpacked] at unsigned
  cases unsigned
  obtain ⟨t, chosen⟩ : ∃ t : ℤ, t =
      min (e.ediv 2) (Format.binary64.targetExponent ((totalExponent m e + 1).ediv 2)) := ⟨_, rfl⟩
  have even : 2 * t ≤ e := by
    have half : e.ediv 2 = e / 2 := rfl
    omega
  have enough : t ≤ -1074 ∨ 104 ≤ m.log2 + (e - 2 * t).toNat := by
    have half : (totalExponent m e + 1).ediv 2 = (m.log2 + 1 + e + 1) / 2 := rfl
    simp only [Format.targetExponent, half, Format.mantissaBits, Format.minExponent] at chosen
    norm_num at chosen
    omega
  refine ⟨t, m <<< (e - 2 * t).toNat, ?_, ?_, ?_, ?_⟩
  · rw [Nat.shiftLeft_eq]
    push_cast
    rw [mul_assoc, two_pow_mul_zpow]
    congr 2
    omega
  · refine enough.symm.imp_left fun bits => ?_
    rw [Nat.le_sqrt, ← Nat.pow_add, Nat.shiftLeft_eq]
    calc 2 ^ (52 + 52) ≤ 2 ^ (m.log2 + (e - 2 * t).toNat) := Nat.pow_le_pow_right (by norm_num) bits
      _ ≤ m * 2 ^ (e - 2 * t).toNat := by
        rw [Nat.pow_add]
        exact Nat.mul_le_mul_right _ (Nat.log2_self_le pos.ne')
  · rw [Nat.shiftLeft_eq]
    positivity
  · change Float.ofModel (.pack (UnpackedFloat.sqrt Format.binary64 x.toModel.unpack)) = _
    rw [unpacked, chosen]
    rfl

/-- A square root is the rounding of a number that reaches every power of two below the root. -/
theorem isRounding_sqrt (finite : x.isFinite = true) (pos : 0 < value x) :
    ∃ r, IsRounding r x.sqrt ∧ ∀ k : ℤ, 2 ^ (2 * k) ≤ value x → 2 ^ k ≤ r := by
  obtain ⟨s, ux⟩ | ⟨s, m, e, posM, ux, _⟩ := unpack_of_isFinite finite
  · exact absurd (value_of_unpack_zero ux) pos.ne'
  have unsigned := isUnsigned_of_value_pos pos
  obtain ⟨t, n, same, fits, posN, result⟩ := sqrt_eq ux unsigned
  obtain ⟨f, nonneg, stands⟩ := exists_represents_root n.sqrt (n - n.sqrt * n.sqrt)
  rw [IsUnsigned, ux] at unsigned
  cases unsigned
  have scale := two_zpow_pos t
  have root : 1 ≤ n.sqrt := Nat.le_sqrt.mpr posN
  have rootQ : (1 : ℚ) ≤ n.sqrt := by exact_mod_cast root
  refine ⟨(n.sqrt + f) * 2 ^ t, ?_, fun k reached => ?_⟩
  · rw [result]
    exact isRounding_roundWithAccuracy stands (by positivity) fits .positive
  · have floor : (n.sqrt : ℚ) * 2 ^ t ≤ (n.sqrt + f) * 2 ^ t :=
      mul_le_mul_of_nonneg_right (le_add_of_nonneg_right nonneg) scale.le
    refine le_trans ?_ floor
    rw [value_of_unpack_finite ux, signed, ← same] at reached
    rcases le_total k t with low | high
    · calc (2 : ℚ) ^ k ≤ 2 ^ t := zpow_le_zpow_right₀ (by norm_num) low
        _ ≤ n.sqrt * 2 ^ t := le_mul_of_one_le_left scale.le rootQ
    · obtain ⟨j, rfl⟩ := Int.le.dest high
      have split : (2 : ℚ) ^ (2 * (t + j)) = ((2 ^ j * 2 ^ j : ℕ) : ℚ) * 2 ^ (2 * t) := by
        push_cast
        rw [← pow_add, two_pow_mul_zpow]
        congr 1
        push_cast
        ring
      rw [split] at reached
      have square : 2 ^ j * 2 ^ j ≤ n := by
        exact_mod_cast le_of_mul_le_mul_right reached (two_zpow_pos _)
      have power : (2 : ℚ) ^ j ≤ n.sqrt := by exact_mod_cast Nat.le_sqrt.mpr square
      rw [two_zpow_add, mul_comm, zpow_natCast]
      exact mul_le_mul_of_nonneg_right power scale.le

theorem isUnsigned_sqrt (h : IsUnsigned x) : IsUnsigned x.sqrt := by
  apply isUnsigned_pack
  unfold IsUnsigned at h
  cases unpacked : x.toModel.unpack with
  | notANumber => trivial
  | infinity s =>
    rw [unpacked] at h
    cases h
    rfl
  | zero s =>
    rw [unpacked] at h
    cases h
    rfl
  | finite s m e pos =>
    rw [unpacked] at h
    cases h
    exact unsigned_round ..

/-- Whether a double is a size that is zero or no less than the root of the least double. -/
structure IsRoot (x : Float) : Prop where
  size : IsSize x
  gap : x.isFinite = true → value x ≠ 0 → 2 ^ (-537 : ℤ) ≤ value x

theorem isRoot_sqrt_of_infinite (h : IsSize x) (infinite : x.isFinite = false) :
    IsRoot x.sqrt ∧ x.sqrt.isFinite = false := by
  have unsigned := h.unsigned infinite
  have infinite' : x.sqrt.isFinite = false := by
    apply isFinite_pack
    rw [IsUnsigned] at unsigned
    obtain ux | ⟨s, ux⟩ := unpack_of_not_isFinite infinite <;> rw [ux] at unsigned ⊢
    · rfl
    · cases unsigned
      rfl
  refine ⟨⟨⟨(value_of_infinite infinite').ge, fun _ => isUnsigned_sqrt unsigned⟩, ?_⟩, infinite'⟩
  intro finite
  cases infinite'.symm.trans finite

theorem isRoot_sqrt_of_zero (finite : x.isFinite = true) (none : value x = 0) :
    IsRoot x.sqrt ∧ (x.sqrt == 0) = true := by
  obtain ⟨s, ux⟩ | ⟨s, m, e, pos, ux, _⟩ := unpack_of_isFinite finite
  · have root : x.sqrt.toModel.unpack = .zero s := by
      change (Float.Model.pack (UnpackedFloat.sqrt Format.binary64 x.toModel.unpack)).unpack = _
      rw [ux]
      exact unpack_pack_zero s
    have zero := value_of_unpack_zero root
    have finite' := isFinite_of_decode (decode_of_unpack_zero root)
    refine ⟨⟨⟨zero.ge, fun infinite => ?_⟩, fun _ notZero => absurd zero notZero⟩, ?_⟩
    · cases finite'.symm.trans infinite
    · exact (beq_zero_iff finite').mpr zero
  · exact absurd none (value_of_unpack_finite_ne_zero ux)

theorem isRoot_sqrt_of_pos (finite : x.isFinite = true) (pos : 0 < value x) :
    IsRoot x.sqrt ∧ ¬(x.sqrt == 0) = true := by
  obtain ⟨r, rounding, reaches⟩ := isRounding_sqrt finite pos
  have least : 2 ^ (2 * (-537) : ℤ) ≤ value x := by
    have apart := (isDouble_value x).least_le_abs_sub (q := 0) ⟨0, 0, by norm_num⟩ pos.ne'
    rwa [sub_zero, abs_of_pos pos] at apart
  have positive := two_zpow_pos (-537)
  have kept : 2 ^ (-537 : ℤ) ≤ rounded r := by
    rw [← rounded_of_isDouble (isDouble_two_zpow (by norm_num : (-1074 : ℤ) ≤ -537))]
    exact rounded_mono (reaches _ least)
  have nonneg := positive.le.trans (reaches _ least)
  refine ⟨⟨rounding.isSize nonneg fun _ => isUnsigned_sqrt (isUnsigned_of_value_pos pos), ?_⟩, ?_⟩
  · intro finite' _
    rwa [rounding.value finite']
  · rw [rounding.beq_zero_iff]
    exact (positive.trans_le kept).ne'

theorem IsSize.sqrt (h : IsSize x) : IsRoot x.sqrt ∧ ((x.sqrt == 0) = true ↔ (x == 0) = true) := by
  cases finite : x.isFinite with
  | false =>
    obtain ⟨root, infinite⟩ := isRoot_sqrt_of_infinite h finite
    exact ⟨root, by simp [beq_zero_iff_finite, infinite, finite]⟩
  | true =>
    rw [beq_zero_iff finite]
    rcases h.nonneg.eq_or_lt with none | pos
    · obtain ⟨root, zero⟩ := isRoot_sqrt_of_zero finite none.symm
      exact ⟨root, iff_of_true zero none.symm⟩
    · obtain ⟨root, notZero⟩ := isRoot_sqrt_of_pos finite pos
      exact ⟨root, iff_of_false notZero pos.ne'⟩

/-- The product of two roots is zero only if one of them is. -/
theorem IsRoot.mul_beq_zero_iff (hx : IsRoot x) (hy : IsRoot y) :
    (x * y == 0) = true ↔
      (x == 0) = true ∧ y.isFinite = true ∨ (y == 0) = true ∧ x.isFinite = true := by
  cases fx : x.isFinite with
  | false => simp [beq_zero_iff_finite, isFinite_mul_left fx, fx]
  | true =>
    cases fy : y.isFinite with
    | false => simp [beq_zero_iff_finite, isFinite_mul fy, fy]
    | true =>
      simp only [(isRounding_mul fx fy).beq_zero_iff, beq_zero_iff fx, beq_zero_iff fy, and_true]
      constructor
      · intro none
        by_contra! neither
        have product : 2 ^ (-1074 : ℤ) ≤ value x * value y := by
          calc (2 : ℚ) ^ (-1074 : ℤ) = 2 ^ (-537 : ℤ) * 2 ^ (-537 : ℤ) := by
                rw [← two_zpow_add]
                norm_num
            _ ≤ value x * value y := mul_le_mul (hx.gap fx neither.1) (hy.gap fy neither.2)
                (two_zpow_pos _).le hx.size.nonneg
        have kept := rounded_mono product
        rw [none, rounded_of_isDouble (isDouble_two_zpow le_rfl)] at kept
        exact absurd kept (not_le.mpr (two_zpow_pos _))
      · rintro (none | none) <;> simp [none, rounded_zero]

end

end Reckoner.Binary
