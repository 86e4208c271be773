import Reckoner.Binary.Integral
import Reckoner.Proofs.Binary.Mantissa
import Reckoner.Proofs.Binary.Sign

/-! What the operations on doubles compute: the exact result, rounded once. -/
namespace Reckoner.Binary

open Float.Model (UnpackedFloat Format totalExponent)
open Float.Model.UnpackedFloat

def Exact.magnitude (v : Exact) : ℚ := v.mantissa * 2 ^ v.exponent

def Exact.value (v : Exact) : ℚ := if v.negative then -v.magnitude else v.magnitude

/-- The number that a finite double stands for. -/
def value (x : Float) : ℚ :=
  match decode x with
  | some v => v.value
  | none => 0

/-- Whether a double is the result of an operation on the exact result `q`: rounded once, and an
infinity where there is no double that large. -/
def IsRounding (q : ℚ) (x : Float) : Prop :=
  match decode x with
  | some v => v.value = rounded q
  | none => 2 ^ 1024 ≤ |rounded q|

theorem toNat_append_one {m : ℕ} (leading : 2 ^ 52 ≤ m) (short : m < 2 ^ 53) :
    (1#1 ++ BitVec.ofNat 52 m).toNat = m := by
  have rest : m % 2 ^ 52 = m - 2 ^ 52 := by omega
  rw [BitVec.toNat_append, ← Nat.shiftLeft_add_eq_or_of_lt (BitVec.isLt _), BitVec.toNat_ofNat,
    BitVec.toNat_ofNat, rest, Nat.shiftLeft_eq]
  omega

theorem unpack_packComponents (spec : Format) (s : Sign) (e : BitVec spec.exponentBits)
    (m : BitVec spec.mantissaBitsWithoutImplicit) :
    unpack spec (packComponents spec s e m) =
      if e = -1#_ then (if m = 0#_ then .infinity s else .notANumber)
      else if e = 0#_ then
        (if h : m = 0#_ then .zero s
        else .finite s m.toNat
          (e.toNat - (spec.exponentBias + spec.mantissaBitsWithoutImplicit) + 1)
          (by simpa [BitVec.toNat_pos, BitVec.pos_iff_ne_zero] using h))
      else .finite s (1#1 ++ m).toNat
        (e.toNat - (spec.exponentBias + spec.mantissaBitsWithoutImplicit)) (by simp) := by
  have both : Sign.ofBitVec s.toBitVec = s := by cases s <;> rfl
  simp only [unpack, unpackExponent_packComponents, unpackMantissa_packComponents,
    unpackSign_packComponents, both]

theorem unpack_pack_zero (s : Sign) : (Float.Model.pack (.zero s)).unpack = .zero s := by
  change unpack Format.binary64 (packComponents Format.binary64 s 0 0) = _
  rw [unpack_packComponents]
  rfl

theorem pack_finite (s : Sign) {m : ℕ} {e : ℤ} (pos : 0 < m) :
    pack Format.binary64 (.finite s m e pos) =
      if 972 ≤ e then packComponents Format.binary64 s (-1#11) 0
      else if m.log2 = 52 then
        packComponents Format.binary64 s (BitVec.ofNat 11 (e + 1075).toNat) (BitVec.ofNat 52 m)
      else packComponents Format.binary64 s 0#11 (BitVec.ofNat 52 m) := by
  have biased : e + (Format.binary64.exponentBias : ℤ) + (52 : ℕ) = e + 1075 := by
    simp only [Format.exponentBias]
    omega
  have top : 2 ^ 11 ≤ (e + 1075).toNat + 1 ↔ 972 ≤ e := by omega
  have bits : m.log2 + 1 = Format.binary64.mantissaBits ↔ m.log2 = 52 := by
    simp only [Format.mantissaBits]
    omega
  simp only [pack, biased, top, bits]
  rfl

theorem unpack_pack_finite {s : Sign} {m : ℕ} {e : ℤ} (pos : 0 < m) (canonical : IsCanonical m e)
    (top : e ≤ 971) : (Float.Model.pack (.finite s m e pos)).unpack = .finite s m e pos := by
  obtain ⟨short, least, normal⟩ := canonical
  change unpack Format.binary64 (pack Format.binary64 (.finite s m e pos)) = _
  have biased : (BitVec.ofNat 11 (e + 1075).toNat).toNat = (e + 1075).toNat := by
    rw [BitVec.toNat_ofNat, Nat.mod_eq_of_lt (by omega)]
  rw [pack_finite, if_neg (by omega)]
  by_cases leading : 2 ^ 52 ≤ m
  · have bits : m.log2 = 52 := (Nat.log2_eq_iff pos.ne').mpr ⟨leading, short⟩
    have notTop : BitVec.ofNat 11 (e + 1075).toNat ≠ -1#11 := by
      intro same
      have := congrArg BitVec.toNat same
      rw [biased] at this
      change (e + 1075).toNat = 2047 at this
      omega
    have notZero : BitVec.ofNat 11 (e + 1075).toNat ≠ 0#11 := by
      intro same
      have := congrArg BitVec.toNat same
      rw [biased] at this
      change (e + 1075).toNat = 0 at this
      omega
    have exponent :
        ((e + 1075).toNat : ℤ) - ((Format.binary64.exponentBias : ℤ) + (52 : ℕ)) = e := by
      have bias : Format.binary64.exponentBias = 1023 := rfl
      omega
    rw [if_pos bits, unpack_packComponents, if_neg notTop, if_neg notZero]
    simp only [toNat_append_one leading short, biased, exponent]
  · have smallest : e = -1074 := by omega
    have low : m < 2 ^ 52 := by omega
    have bits : m.log2 ≠ 52 := by
      have := (Nat.log2_lt pos.ne').mpr low
      omega
    have mantissa : (BitVec.ofNat 52 m).toNat = m := by
      rw [BitVec.toNat_ofNat, Nat.mod_eq_of_lt low]
    have notZero : BitVec.ofNat 52 m ≠ 0#52 := by
      intro same
      have := congrArg BitVec.toNat same
      rw [mantissa] at this
      change m = 0 at this
      omega
    rw [if_neg bits, unpack_packComponents, if_neg (by decide), if_pos rfl, dif_neg notZero]
    simp only [mantissa, smallest]
    rfl

theorem unpack_pack_overflow {s : Sign} {m : ℕ} {e : ℤ} (pos : 0 < m) (top : 972 ≤ e) :
    (Float.Model.pack (.finite s m e pos)).unpack = .infinity s := by
  change unpack Format.binary64 (pack Format.binary64 (.finite s m e pos)) = _
  rw [pack_finite, if_pos top, unpack_packComponents]
  rfl

/-- A finite double is a zero, or has the mantissa and the exponent of a double. -/
theorem unpack_of_isFinite {x : Float} (finite : x.isFinite = true) :
    (∃ s, x.toModel.unpack = .zero s) ∨
      ∃ s m e pos, x.toModel.unpack = .finite s m e pos ∧ IsCanonical m e ∧ e ≤ 971 := by
  obtain ⟨s, exponent, mantissa, bits⟩ : ∃ (s : Sign) (exponent : BitVec 11) (mantissa : BitVec 52),
      x.toModel.toBits.toBitVec = packComponents Format.binary64 s exponent mantissa :=
    ⟨_, _, _, (@packComponents_unpackSign_unpackExponent_unpackMantissa Format.binary64
      x.toModel.toBits.toBitVec).symm⟩
  change (unpack Format.binary64 x.toModel.toBits.toBitVec).isFinite = true at finite
  change (∃ s, unpack Format.binary64 x.toModel.toBits.toBitVec = .zero s) ∨ ∃ s m e pos,
    unpack Format.binary64 x.toModel.toBits.toBitVec = .finite s m e pos ∧ IsCanonical m e ∧ e ≤ 971
  rw [bits, unpack_packComponents] at finite ⊢
  have short := mantissa.isLt
  have bias : (Format.binary64.exponentBias : ℤ) + (52 : ℕ) = 1075 := rfl
  by_cases top : exponent = -1#11
  · rw [if_pos top] at finite
    split at finite <;> cases finite
  rw [if_neg top]
  by_cases bottom : exponent = 0#11
  · rw [if_pos bottom]
    split
    · exact .inl ⟨s, rfl⟩
    · rename_i notZero
      have pos : 0 < mantissa.toNat := by
        simpa [BitVec.toNat_pos, BitVec.pos_iff_ne_zero] using notZero
      refine .inr ⟨s, mantissa.toNat, _, pos, rfl, ⟨by omega, ?_, .inl ?_⟩, ?_⟩ <;>
        rw [bottom, bias] <;> norm_num
  · rw [if_neg bottom]
    have whole : (1#1 ++ mantissa).toNat = 2 ^ 52 + mantissa.toNat := by
      rw [BitVec.toNat_append, ← Nat.shiftLeft_add_eq_or_of_lt short]
      rfl
    have least : exponent.toNat ≠ 0 := fun same => bottom (BitVec.eq_of_toNat_eq same)
    have most : exponent.toNat ≠ 2047 := fun same => top (BitVec.eq_of_toNat_eq same)
    have bound := exponent.isLt
    have pos : 0 < (1#1 ++ mantissa).toNat := by omega
    refine .inr ⟨s, _, _, pos, rfl, ⟨?_, ?_, .inr ?_⟩, ?_⟩
    · rw [whole]
      omega
    · rw [bias]
      omega
    · rw [whole]
      omega
    · rw [bias]
      omega

def signed (s : Sign) (q : ℚ) : ℚ :=
  match s with
  | .negative => -q
  | .positive => q

theorem rounded_signed (s : Sign) (q : ℚ) : rounded (signed s q) = signed s (rounded q) := by
  cases s with
  | negative => exact rounded_neg q
  | positive => rfl

theorem abs_signed (s : Sign) (q : ℚ) : |signed s q| = |q| := by
  cases s with
  | negative => exact abs_neg q
  | positive => rfl

theorem signed_mul (s t : Sign) (p q : ℚ) : signed (s * t) (p * q) = signed s p * signed t q := by
  cases s <;> cases t
  · exact (neg_mul_neg p q).symm
  · exact (neg_mul p q).symm
  · exact (mul_neg p q).symm
  · rfl

theorem signed_div (s t : Sign) (p q : ℚ) : signed (s / t) (p / q) = signed s p / signed t q := by
  cases s <;> cases t
  · exact (neg_div_neg_eq p q).symm
  · exact (neg_div q p).symm
  · exact (div_neg p).symm
  · rfl

section

variable {x y : Float} {s : Sign} {m : ℕ} {e : ℤ} {pos : 0 < m} {q : ℚ}

theorem decode_of_unpack_zero (h : x.toModel.unpack = .zero s) :
    decode x = some ⟨s == .negative, 0, 0⟩ := by
  rw [decode, h]

theorem decode_of_unpack_finite (h : x.toModel.unpack = .finite s m e pos) :
    decode x = some ⟨s == .negative, m, e⟩ := by
  rw [decode, h]

theorem value_of_unpack_zero (h : x.toModel.unpack = .zero s) : value x = 0 := by
  rw [value, decode_of_unpack_zero h]
  simp [Exact.value, Exact.magnitude]

theorem value_of_unpack_finite (h : x.toModel.unpack = .finite s m e pos) :
    value x = signed s (m * 2 ^ e) := by
  rw [value, decode_of_unpack_finite h]
  cases s <;> rfl

theorem decode_pack_zero (s : Sign) :
    decode (.ofModel (.pack (.zero s))) = some ⟨s == .negative, 0, 0⟩ :=
  decode_of_unpack_zero (x := .ofModel (.pack (.zero s))) (unpack_pack_zero s)

theorem decode_pack_finite (s : Sign) (pos : 0 < m) (canonical : IsCanonical m e) :
    decode (.ofModel (.pack (.finite s m e pos))) =
      if e ≤ 971 then some ⟨s == .negative, m, e⟩ else none := by
  split
  · rename_i top
    exact decode_of_unpack_finite (x := .ofModel (.pack (.finite s m e pos)))
      (unpack_pack_finite pos canonical top)
  · unfold decode
    rw [unpack_pack_overflow pos (by omega)]

theorem isRounding_zero (s : Sign) : IsRounding 0 (.ofModel (.pack (.zero s))) := by
  rw [IsRounding, decode_pack_zero, rounded_zero]
  simp [Exact.value, Exact.magnitude]

theorem isRounding_finite (canonical : IsCanonical m e) (same : m * 2 ^ e = rounded q) :
    IsRounding (signed s q) (.ofModel (.pack (.finite s m e pos))) := by
  rw [IsRounding, decode_pack_finite s pos canonical, rounded_signed, ← same]
  by_cases top : e ≤ 971
  · rw [if_pos top]
    cases s <;> rfl
  · have leading : (2 : ℚ) ^ 52 ≤ m := by
      have bits : 2 ^ 52 ≤ m := canonical.normal.resolve_left (by omega)
      exact_mod_cast bits
    have exponent : (2 : ℚ) ^ (972 : ℤ) ≤ 2 ^ e := zpow_le_zpow_right₀ (by norm_num) (by omega)
    have least : (2 : ℚ) ^ 1024 = 2 ^ 52 * 2 ^ (972 : ℤ) := by
      rw [two_pow_mul_zpow]
      exact (zpow_natCast 2 1024).symm
    rw [if_neg top, abs_signed, abs_of_nonneg (by positivity), least]
    exact mul_le_mul leading exponent (two_zpow_pos 972).le (by positivity)

theorem isRounding_roundWithAccuracy {accuracy : Accuracy} {r : ℚ}
    (stands : Represents (ExtendedMantissa.ofMantissaAndAccuracy m accuracy) r) (pos : 0 < r)
    (fits : 2 ^ 52 ≤ m ∨ e ≤ -1074) (s : Sign) :
    IsRounding (signed s (r * 2 ^ e))
      (.ofModel (.pack (roundWithAccuracy Format.binary64 s m e accuracy))) := by
  obtain ⟨n, k, canonical, same, result⟩ := roundWithAccuracy_eq stands pos fits s
  rw [result]
  split
  · rename_i zero
    have none : rounded (r * 2 ^ e) = 0 := by
      rw [← same, zero]
      simp
    rw [IsRounding, decode_pack_zero, rounded_signed, none]
    cases s <;> simp [Exact.value, Exact.magnitude, signed]
  · exact isRounding_finite canonical same

theorem isRounding_mul (hx : x.isFinite = true) (hy : y.isFinite = true) :
    IsRounding (value x * value y) (x * y) := by
  change IsRounding _ (.ofModel (.pack (UnpackedFloat.mul Format.binary64 x.toModel.unpack
    y.toModel.unpack)))
  obtain ⟨s, ux⟩ | ⟨s, m, e, pos, ux, canonical, _⟩ := unpack_of_isFinite hx <;>
    obtain ⟨t, uy⟩ | ⟨t, n, k, pos', uy, canonical', _⟩ := unpack_of_isFinite hy
  · rw [value_of_unpack_zero ux, zero_mul, ux, uy]
    exact isRounding_zero _
  · rw [value_of_unpack_zero ux, zero_mul, ux, uy]
    exact isRounding_zero _
  · rw [value_of_unpack_zero uy, mul_zero, ux, uy]
    exact isRounding_zero _
  · have fits : 2 ^ 52 ≤ m * n ∨ e + k ≤ -1074 := by
      rcases canonical.normal with least | leading
      · rcases canonical'.normal with least' | leading'
        · omega
        · exact .inl (leading'.trans (Nat.le_mul_of_pos_left n pos))
      · exact .inl (leading.trans (Nat.le_mul_of_pos_right m pos'))
    have product : ((m * n : ℕ) : ℚ) * 2 ^ (e + k) = m * 2 ^ e * (n * 2 ^ k) := by
      rw [two_zpow_add]
      push_cast
      ring
    have positive : (0 : ℚ) < (m * n : ℕ) := by exact_mod_cast Nat.mul_pos pos pos'
    have result := isRounding_roundWithAccuracy (represents_exact (m * n)) positive fits (s * t)
    rw [product, signed_mul] at result
    rw [value_of_unpack_finite ux, value_of_unpack_finite uy, ux, uy]
    exact result

theorem isRounding_quotient {n : ℕ} {k : ℤ} (s : Sign) (hm : 0 < m) (hn : 0 < n) :
    IsRounding (signed s (m * 2 ^ e / (n * 2 ^ k)))
      (.ofModel (.pack (roundWithAccuracy Format.binary64 s (divCore Format.binary64 m e n k).1
        (divCore Format.binary64 m e n k).2.1 (divCore Format.binary64 m e n k).2.2))) := by
  -- The quotient keeps 53 bits or reaches below the smallest double.
  obtain ⟨t, within, enough, core⟩ : ∃ t : ℤ, t ≤ e - k ∧
      (t ≤ -1074 ∨ t ≤ m.log2 + e - (n.log2 + k) - 53) ∧
      divCore Format.binary64 m e n k =
        (m <<< (e - k - t).toNat / n, t, accuracyOfFraction (m <<< (e - k - t).toNat % n) n) := by
    refine ⟨_, min_le_left _ _, ?_, rfl⟩
    simp only [Format.targetExponent, totalExponent, Format.mantissaBits, Format.minExponent]
    norm_num
    omega
  rw [core]
  generalize shift : (e - k - t).toNat = i
  rw [Nat.shiftLeft_eq]
  have positive : (0 : ℚ) < n := by exact_mod_cast hn
  have whole : ((m * 2 ^ i / n : ℕ) : ℚ) + (m * 2 ^ i % n : ℕ) / n = m * 2 ^ i / n := by
    rw [eq_div_iff positive.ne', add_mul, div_mul_cancel₀ _ positive.ne']
    exact_mod_cast Nat.div_add_mod' (m * 2 ^ i) n
  have stands := represents_fraction (m * 2 ^ i / n) (Nat.mod_lt (m * 2 ^ i) hn)
  rw [whole] at stands
  have fits : 2 ^ 52 ≤ m * 2 ^ i / n ∨ t ≤ -1074 := by
    refine enough.symm.imp_left fun below => ?_
    have upper : n < 2 ^ (n.log2 + 1) := Nat.lt_log2_self
    have lower : 2 ^ m.log2 ≤ m := Nat.log2_self_le hm.ne'
    rw [Nat.le_div_iff_mul_le hn]
    calc 2 ^ 52 * n ≤ 2 ^ 52 * 2 ^ (n.log2 + 1) := Nat.mul_le_mul_left _ upper.le
      _ = 2 ^ (n.log2 + 53) := by rw [← Nat.pow_add]; congr 1; omega
      _ ≤ 2 ^ (m.log2 + i) := Nat.pow_le_pow_right (by norm_num) (by omega)
      _ ≤ m * 2 ^ i := by rw [Nat.pow_add]; exact Nat.mul_le_mul_right _ lower
  have quotient : (m : ℚ) * 2 ^ i / n * 2 ^ t = m * 2 ^ e / (n * 2 ^ k) := by
    have scale := two_zpow_pos k
    have exponent : (2 : ℚ) ^ i * 2 ^ t * 2 ^ k = 2 ^ e := by
      rw [two_pow_mul_zpow, ← two_zpow_add]
      congr 1
      omega
    rw [eq_div_iff (by positivity), ← exponent]
    field_simp
  rw [← quotient]
  exact isRounding_roundWithAccuracy stands (by positivity) fits s

theorem isRounding_div (hx : x.isFinite = true) (hy : y.isFinite = true) (notZero : value y ≠ 0) :
    IsRounding (value x / value y) (x / y) := by
  change IsRounding _ (.ofModel (.pack (UnpackedFloat.div Format.binary64 x.toModel.unpack
    y.toModel.unpack)))
  obtain ⟨t, uy⟩ | ⟨t, n, k, pos', uy, _, _⟩ := unpack_of_isFinite hy
  · exact absurd (value_of_unpack_zero uy) notZero
  obtain ⟨s, ux⟩ | ⟨s, m, e, pos, ux, _, _⟩ := unpack_of_isFinite hx
  · rw [value_of_unpack_zero ux, zero_div, ux, uy]
    exact isRounding_zero _
  · have result := isRounding_quotient (s / t) pos pos' (e := e) (k := k)
    rw [signed_div] at result
    rw [value_of_unpack_finite ux, value_of_unpack_finite uy, ux, uy]
    exact result

theorem isRounding_round (s : Sign) (hm : 0 < m) (e : ℤ) :
    IsRounding (signed s (m * 2 ^ e)) (.ofModel (.pack (round Format.binary64 s m e))) := by
  obtain ⟨t, same, result⟩ : ∃ t : ℤ, t = max (m.log2 + e - 52) (-1074) ∧
      round Format.binary64 s m e = roundWithAccuracy Format.binary64 s (m <<< (e - t).toNat)
        (e - (e - t).toNat) .exact :=
    ⟨_, targetExponent_eq m e, rfl⟩
  rw [result]
  generalize shift : (e - t).toNat = i
  rw [Nat.shiftLeft_eq]
  have lower : 2 ^ m.log2 ≤ m := Nat.log2_self_le hm.ne'
  have fits : 2 ^ 52 ≤ m * 2 ^ i ∨ e - i ≤ -1074 := by
    by_cases least : e - i ≤ -1074
    · exact .inr least
    · refine .inl ?_
      calc 2 ^ 52 ≤ 2 ^ (m.log2 + i) := Nat.pow_le_pow_right (by norm_num) (by omega)
        _ ≤ m * 2 ^ i := by rw [Nat.pow_add]; exact Nat.mul_le_mul_right _ lower
  have kept : ((m * 2 ^ i : ℕ) : ℚ) * 2 ^ (e - i) = m * 2 ^ e := by
    push_cast
    rw [mul_assoc, two_pow_mul_zpow]
    congr 2
    omega
  have positive : (0 : ℚ) < (m * 2 ^ i : ℕ) := by exact_mod_cast Nat.mul_pos hm (Nat.two_pow_pos i)
  rw [← kept]
  exact isRounding_roundWithAccuracy (represents_exact _) positive fits s

theorem isRounding_normalize (n e : ℤ) (zero : Sign) :
    IsRounding (n * 2 ^ e)
      (.ofModel (.pack (UnpackedFloat.normalize Format.binary64 n e zero))) := by
  unfold UnpackedFloat.normalize
  cases order : compare n 0 with
  | lt =>
    have below := Int.compare_eq_lt.mp order
    have magnitude : ((-n).toNat : ℚ) = -n := by
      exact_mod_cast Int.toNat_of_nonneg (by omega : 0 ≤ -n)
    have result := isRounding_round .negative (by omega : 0 < (-n).toNat) e
    rw [magnitude, signed, neg_mul, neg_neg] at result
    exact result
  | eq =>
    rw [Int.compare_eq_eq.mp order, Int.cast_zero, zero_mul]
    exact isRounding_zero zero
  | gt =>
    have above := Int.compare_eq_gt.mp order
    have magnitude : (n.toNat : ℚ) = n := by exact_mod_cast Int.toNat_of_nonneg above.le
    have result := isRounding_round .positive (by omega : 0 < n.toNat) e
    rw [magnitude, signed] at result
    exact result

theorem isDouble_signed (s : Sign) (canonical : IsCanonical m e) :
    IsDouble (signed s (m * 2 ^ e)) := by
  have short : |(m : ℤ)| < 2 ^ 53 := by
    rw [abs_of_nonneg (by positivity)]
    exact_mod_cast canonical.short
  cases s with
  | negative => exact ⟨-m, e, by rwa [abs_neg], canonical.least, by simp [signed]⟩
  | positive => exact ⟨m, e, short, canonical.least, by simp [signed]⟩

theorem isDouble_value (x : Float) : IsDouble (value x) := by
  by_cases finite : x.isFinite = true
  · obtain ⟨s, ux⟩ | ⟨s, m, e, pos, ux, canonical, _⟩ := unpack_of_isFinite finite
    · rw [value_of_unpack_zero ux]
      exact ⟨0, 0, by norm_num, by norm_num, by norm_num⟩
    · rw [value_of_unpack_finite ux]
      exact isDouble_signed s canonical
  · have none : decode x = none := by
      change ¬x.toModel.unpack.isFinite = true at finite
      unfold decode
      cases unpacked : x.toModel.unpack with
      | notANumber => rfl
      | infinity s => rfl
      | zero s => exact absurd (by rw [unpacked]; rfl) finite
      | finite s m e pos => exact absurd (by rw [unpacked]; rfl) finite
    rw [value, none]
    exact ⟨0, 0, by norm_num, by norm_num, by norm_num⟩

theorem isRounding_kept (canonical : IsCanonical m e) (pos : 0 < m) (s : Sign) :
    IsRounding (signed s (m * 2 ^ e)) (.ofModel (.pack (.finite s m e pos))) :=
  isRounding_finite canonical
    (rounded_of_isDouble (isDouble_signed .positive canonical)).symm

theorem apply_decreaseExponent (s : Sign) (m : ℕ) {e t : ℤ} (h : t ≤ e) :
    ((s.apply (decreaseExponent m e t).1 : ℤ) : ℚ) * 2 ^ t = signed s (m * 2 ^ e) := by
  have exponent : (m : ℚ) * 2 ^ e = (m <<< (e - t).toNat : ℕ) * 2 ^ t := by
    rw [Nat.shiftLeft_eq]
    push_cast
    rw [mul_assoc, two_pow_mul_zpow]
    congr 2
    omega
  rw [exponent]
  cases s with
  | negative =>
    change ((-((m <<< (e - t).toNat : ℕ) : ℤ) : ℤ) : ℚ) * 2 ^ t = -_
    rw [Int.cast_neg, Int.cast_natCast, neg_mul]
  | positive =>
    change (((m <<< (e - t).toNat : ℕ) : ℤ) : ℚ) * 2 ^ t = _
    rw [Int.cast_natCast]
    rfl

theorem isRounding_add (hx : x.isFinite = true) (hy : y.isFinite = true) :
    IsRounding (value x + value y) (x + y) := by
  change IsRounding _ (.ofModel (.pack (UnpackedFloat.add Format.binary64 x.toModel.unpack
    y.toModel.unpack)))
  obtain ⟨s, ux⟩ | ⟨s, m, e, pos, ux, canonical, _⟩ := unpack_of_isFinite hx <;>
    obtain ⟨t, uy⟩ | ⟨t, n, k, pos', uy, canonical', _⟩ := unpack_of_isFinite hy
  · rw [value_of_unpack_zero ux, value_of_unpack_zero uy, add_zero, ux, uy]
    unfold UnpackedFloat.add
    dsimp only
    split <;> exact isRounding_zero _
  · rw [value_of_unpack_zero ux, value_of_unpack_finite uy, zero_add, ux, uy]
    exact isRounding_kept canonical' pos' t
  · rw [value_of_unpack_finite ux, value_of_unpack_zero uy, add_zero, ux, uy]
    exact isRounding_kept canonical pos s
  · have result := isRounding_normalize (s.apply (decreaseExponent m e (min e k)).1 +
      t.apply (decreaseExponent n k (min e k)).1) (min e k) .positive
    rw [Int.cast_add, add_mul, apply_decreaseExponent s m (min_le_left e k),
      apply_decreaseExponent t n (min_le_right e k)] at result
    rw [value_of_unpack_finite ux, value_of_unpack_finite uy, ux, uy]
    exact result

theorem isRounding_nearest (v : Exact) : IsRounding v.value v.nearest := by
  unfold Exact.nearest
  split
  · rename_i zero
    have none : v.value = 0 := by simp [Exact.value, Exact.magnitude, zero]
    rw [none]
    split
    · exact isRounding_zero .negative
    · exact isRounding_zero .positive
  · rename_i notZero
    have result := isRounding_round (if v.negative then .negative else .positive)
      (Nat.pos_of_ne_zero notZero) v.exponent
    unfold Exact.value
    cases sign : v.negative with
    | false =>
      rw [sign] at result
      exact result
    | true =>
      rw [sign] at result
      exact result

theorem isFinite_of_decode {v : Exact} (h : decode x = some v) : x.isFinite = true := by
  change x.toModel.unpack.isFinite = true
  unfold decode at h
  cases unpacked : x.toModel.unpack with
  | notANumber => rw [unpacked] at h; cases h
  | infinity s => rw [unpacked] at h; cases h
  | zero s => rfl
  | finite s m e pos => rfl

theorem IsRounding.value (h : IsRounding q x) (finite : x.isFinite = true) :
    value x = rounded q := by
  obtain ⟨v, decoded⟩ := decode_of_isFinite finite
  rw [IsRounding, decoded] at h
  rw [Binary.value, decoded]
  exact h

theorem IsRounding.isFinite (h : IsRounding q x) (range : |rounded q| < 2 ^ 1024) :
    x.isFinite = true := by
  cases decoded : decode x with
  | none =>
    rw [IsRounding, decoded] at h
    exact absurd h (not_le.mpr range)
  | some v => exact isFinite_of_decode decoded

end

end Reckoner.Binary
