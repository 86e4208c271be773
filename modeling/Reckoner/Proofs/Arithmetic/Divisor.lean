import Reckoner.Arithmetic.Divisor
import Reckoner.Proofs.Binary.Integral
import Reckoner.Proofs.Binary.Multiple

/-! Greatest common divisors of doubles. Two finite doubles are whole multiples of a power of two, and
Euclid's algorithm keeps to its multiples, so its divisions are exact and it ends as it does on the
two counts. -/
namespace Reckoner.Arithmetic

open Binary

/-- Whether `g` goes into two numbers a whole number of times, and so does in it every number that
goes into both. -/
structure IsGreatestDivisor (p q g : ℚ) : Prop where
  nonneg : 0 ≤ g
  left : ∃ k : ℤ, p = k * g
  right : ∃ k : ℤ, q = k * g
  greatest (d : ℚ) : (∃ k : ℤ, p = k * d) → (∃ k : ℤ, q = k * d) → ∃ k : ℤ, g = k * d

section

variable {u : ℚ} {m n : ℕ} {a b : Float}

theorem isGreatestDivisor_counts (nonneg : 0 ≤ u) :
    IsGreatestDivisor (m * u) (n * u) (Nat.gcd m n * u) where
  nonneg := mul_nonneg (Nat.cast_nonneg _) nonneg
  left := by
    obtain ⟨k, first⟩ := Nat.gcd_dvd_left m n
    have cast : (m : ℚ) = Nat.gcd m n * k := by exact_mod_cast first
    refine ⟨k, ?_⟩
    rw [cast, Int.cast_natCast]
    ring
  right := by
    obtain ⟨k, second⟩ := Nat.gcd_dvd_right m n
    have cast : (n : ℚ) = Nat.gcd m n * k := by exact_mod_cast second
    refine ⟨k, ?_⟩
    rw [cast, Int.cast_natCast]
    ring
  greatest d := by
    rintro ⟨i, first⟩ ⟨j, second⟩
    have combined : (Nat.gcd m n : ℚ) = m * Nat.gcdA m n + n * Nat.gcdB m n := by
      exact_mod_cast Nat.gcd_eq_gcd_ab m n
    refine ⟨i * Nat.gcdA m n + j * Nat.gcdB m n, ?_⟩
    push_cast
    rw [combined]
    linear_combination (Nat.gcdA m n : ℚ) * first + (Nat.gcdB m n : ℚ) * second

/-- On two multiples of a unit Euclid's algorithm ends, with the greatest common divisor of the
counts. The second count falls with every division, so it bounds their number. -/
theorem euclid_multiples (posU : 0 < u) (ha : IsMultiple u m a) (hb : IsMultiple u n b) :
    ∃ g, (∀ steps > n, euclidWithin steps a b = some g) ∧ IsMultiple u (Nat.gcd m n) g := by
  induction n using Nat.strong_induction_on generalizing m a b with
  | _ n ih =>
    rcases Nat.eq_zero_or_pos n with zero | pos
    · subst zero
      refine ⟨a, ?_, by rwa [Nat.gcd_zero_right]⟩
      intro steps more
      obtain ⟨rest, rfl⟩ := Nat.exists_eq_add_one.mpr more
      rw [euclidWithin, if_pos ((hb.beq_zero_iff posU).mpr rfl)]
    · have less := Nat.mod_lt m pos
      obtain ⟨g, ends, counted⟩ := ih (m % n) less hb (ha.remainder hb posU pos)
      rw [Nat.gcd_comm, ← Nat.gcd_rec, Nat.gcd_comm] at counted
      refine ⟨g, ?_, counted⟩
      intro steps more
      obtain ⟨rest, rfl⟩ := Nat.exists_eq_add_one.mpr (pos.trans more)
      rw [euclidWithin, if_neg (mt (hb.beq_zero_iff posU).mp pos.ne')]
      exact ends rest (by omega)

theorem abs_value_onGrid {v : Exact} {e : ℤ} (decoded : decode a = some v) (finer : e ≤ v.exponent) :
    |value a| = v.mantissaAt e * 2 ^ e := by
  rw [value_of_decode decoded, abs_value, Exact.mantissaAt_mul finer]

/-- The common divisor of the two mantissas on one grid is what the divisions come to. -/
theorem euclid_abs (ha : a.isFinite = true) (hb : b.isFinite = true) :
    ∃ k, ∀ steps > k, euclidWithin steps a.abs b.abs = some (gcd a b) := by
  obtain ⟨v, decodedA⟩ := decode_of_isFinite ha
  obtain ⟨w, decodedB⟩ := decode_of_isFinite hb
  obtain ⟨g, ends, counted⟩ := euclid_multiples (two_zpow_pos _)
    (isMultiple_abs ha (abs_value_onGrid decodedA (min_le_left _ w.exponent)))
    (isMultiple_abs hb (abs_value_onGrid decodedB (min_le_right v.exponent _)))
  have same : (commonDivisor v w).value = value g := counted.value_eq.symm
  have rounding := isRounding_nearest (commonDivisor v w)
  rw [same] at rounding
  obtain ⟨finite, kept⟩ := rounding.exact (isDouble_value g) (abs_value_lt g)
  have nearest : (commonDivisor v w).nearest = g :=
    (isUnsigned_nearest rfl).eq_of_value_eq counted.unsigned finite counted.finite kept
  have result : gcd a b = g := by simp only [gcd, decodedA, decodedB, nearest]
  exact ⟨_, result ▸ ends⟩

theorem isMultiple_gcd (posU : 0 < u) (ha : a.isFinite = true) (hb : b.isFinite = true)
    (first : |value a| = m * u) (second : |value b| = n * u) :
    IsMultiple u (Nat.gcd m n) (gcd a b) := by
  obtain ⟨g, ends, counted⟩ :=
    euclid_multiples posU (isMultiple_abs ha first) (isMultiple_abs hb second)
  obtain ⟨k, found⟩ := euclid_abs ha hb
  have same : some g = some (gcd a b) := by
    rw [← ends (max k n + 1) (by omega), found (max k n + 1) (by omega)]
  cases same
  exact counted

/-- Two finite doubles are whole multiples of the finer one of their two grids. -/
theorem exists_unit (ha : a.isFinite = true) (hb : b.isFinite = true) :
    ∃ (u : ℚ) (m n : ℕ), 0 < u ∧ |value a| = m * u ∧ |value b| = n * u := by
  obtain ⟨v, decodedA⟩ := decode_of_isFinite ha
  obtain ⟨w, decodedB⟩ := decode_of_isFinite hb
  exact ⟨_, _, _, two_zpow_pos _, abs_value_onGrid decodedA (min_le_left _ w.exponent),
    abs_value_onGrid decodedB (min_le_right v.exponent _)⟩

theorem gcd_of_infinite (h : a.isFinite = false ∨ b.isFinite = false) : gcd a b = nan := by
  unfold gcd
  rcases h with infinite | infinite
  · simp only [decode_of_infinite infinite]
  · cases decode a <;> simp only [decode_of_infinite infinite]

end

/-- Euclid's algorithm on doubles ends, with the exact greatest common divisor of two finite ones,
fractions included, and with no number if one of them is not finite. -/
theorem isGreatestDivisor_gcd (a b : Float) :
    (∃ k, ∀ steps > k, gcdWithin steps a b = some (gcd a b)) ∧
      (a.isFinite = true ∧ b.isFinite = true →
        (gcd a b).isFinite = true ∧
          IsGreatestDivisor |value a| |value b| (value (gcd a b)) ∧
            (value (gcd a b) = 0 ↔ value a = 0 ∧ value b = 0) ∧
              ∀ m n : ℤ, value a = m → value b = n → value (gcd a b) = Int.gcd m n) ∧
      (a.isFinite = false ∨ b.isFinite = false → gcd a b = nan) := by
  refine ⟨?_, ?_, gcd_of_infinite⟩
  · unfold gcdWithin
    simp only [isFinite_abs, Bool.and_eq_true]
    split
    · rename_i finite
      exact euclid_abs finite.1 finite.2
    · rename_i infinite
      rw [not_and_or, Bool.not_eq_true, Bool.not_eq_true] at infinite
      exact ⟨0, fun _ _ => by rw [gcd_of_infinite infinite]⟩
  · rintro ⟨ha, hb⟩
    obtain ⟨u, m, n, posU, first, second⟩ := exists_unit ha hb
    have counted := isMultiple_gcd posU ha hb first second
    have zero {k : ℕ} : (k : ℚ) * u = 0 ↔ k = 0 := by simp [posU.ne']
    refine ⟨counted.finite, ?_, ?_, ?_⟩
    · rw [first, second, counted.value_eq]
      exact isGreatestDivisor_counts posU.le
    · have zeroA : value a = 0 ↔ m = 0 := by rw [← abs_eq_zero, first, zero]
      have zeroB : value b = 0 ↔ n = 0 := by rw [← abs_eq_zero, second, zero]
      rw [counted.value_eq, zero, Nat.gcd_eq_zero_iff, zeroA, zeroB]
    · intro i j wholeA wholeB
      have natAbs (k : ℤ) : |(k : ℚ)| = k.natAbs * 1 := by simp
      have whole := isMultiple_gcd one_pos ha hb (wholeA ▸ natAbs i) (wholeB ▸ natAbs j)
      exact whole.value_eq.trans (mul_one _)

theorem isGreatestDivisor_gcd_fortyEight :
    ((48 : Float).isFinite = true ∧ (-18 : Float).isFinite = true) ∧
      value 48 = (48 : ℤ) ∧ value (-18) = (-18 : ℤ) ∧ value (gcd 48 (-18)) = Int.gcd 48 (-18) ∧
        IsGreatestDivisor |value 48| |value (-18)| (value (gcd 48 (-18))) ∧
          infinity.isFinite = false ∧ gcd 0.75 infinity = nan := by
  have fortyEight : IsMultiple 1 48 (48 : Float) := isMultiple_ofNat (by norm_num)
  have eighteen : IsMultiple 1 18 (18 : Float) := isMultiple_ofNat (by norm_num)
  obtain ⟨finite, opposite⟩ := value_neg eighteen.finite
  have first : value 48 = (48 : ℤ) := by simpa using fortyEight.value_eq
  have second : value (-18) = (-18 : ℤ) := by simpa [eighteen.value_eq] using opposite
  obtain ⟨_, greatest, _, whole⟩ := (isGreatestDivisor_gcd 48 (-18)).2.1 ⟨fortyEight.finite, finite⟩
  have infinite : infinity.isFinite = false := by decide
  exact ⟨⟨fortyEight.finite, finite⟩, first, second, whole 48 (-18) first second, greatest,
    infinite, (isGreatestDivisor_gcd 0.75 infinity).2.2 (.inr infinite)⟩

example : gcd 0.75 (-0.5) = 0.25 := by decide

end Reckoner.Arithmetic
