import Mathlib.Data.Nat.Prime.Basic
import Reckoner.Arithmetic.Prime
import Reckoner.Proofs.Binary.Integral
import Reckoner.Proofs.Binary.Multiple

/-! Primes among the doubles. The neighbours of the multiples of six are enough to find a divisor, and
in floating point every step of the search is exact: a double with more bits than it can keep is even,
so it is refused before the search begins. -/
namespace Reckoner.Arithmetic

open Binary

section

variable {n i : ℕ}

/-- A number without the divisors two and three has a neighbour of a multiple of six as its least
divisor. -/
theorem minFac_mod_six (two : n % 2 ≠ 0) (three : n % 3 ≠ 0) :
    n.minFac % 6 = 1 ∨ n.minFac % 6 = 5 := by
  have divides := Nat.minFac_dvd n
  have notTwo : ¬2 ∣ n.minFac := fun h => two (Nat.mod_eq_zero_of_dvd (h.trans divides))
  have notThree : ¬3 ∣ n.minFac := fun h => three (Nat.mod_eq_zero_of_dvd (h.trans divides))
  omega

theorem not_prime_of_mod {d : ℕ} (more : 1 < d) (less : d < n) (divides : n % d = 0) :
    ¬n.Prime := by
  intro prime
  rcases (Nat.dvd_prime prime).mp (Nat.dvd_of_mod_eq_zero divides) with one | same <;> omega

/-- The search goes on as long as the least divisor is not behind it. -/
theorem undivided_eq_true_iff (two : n % 2 ≠ 0) (three : n % 3 ≠ 0) (more : 1 < n)
    (start : i % 6 = 5) (least : i ≤ n.minFac) : undivided n i = true ↔ n.Prime := by
  fun_induction undivided n i with
  | case1 i within found =>
    have five : 5 ≤ i := by omega
    have square : 5 * i ≤ n := (Nat.mul_le_mul_right i five).trans within.1
    simp only [Bool.or_eq_true, decide_eq_true_eq] at found
    simp only [Bool.false_eq_true, false_iff]
    rcases found with divides | divides
    · exact not_prime_of_mod (by omega) (by omega) divides
    · exact not_prime_of_mod (by omega) (by omega) divides
  | case2 i within missed ih =>
    simp only [Bool.or_eq_true, decide_eq_true_eq, not_or] at missed
    have divides := Nat.mod_eq_zero_of_dvd (Nat.minFac_dvd n)
    have notHere : n.minFac ≠ i := fun same => missed.1 (same ▸ divides)
    have notNext : n.minFac ≠ i + 2 := fun same => missed.2 (same ▸ divides)
    have neighbour := minFac_mod_six two three
    exact ih (by omega) (by omega)
  | case3 i past =>
    simp only [true_iff]
    by_contra composite
    have square := Nat.minFac_sq_le_self (by omega) composite
    rw [sq] at square
    exact past ⟨(Nat.mul_le_mul least least).trans square, by omega⟩

theorem isPrimeNat_eq_true_iff (n : ℕ) : isPrimeNat n = true ↔ n.Prime := by
  unfold isPrimeNat
  split
  · rename_i small
    simp only [Bool.false_eq_true, false_iff]
    exact fun prime => absurd prime.two_le (by omega)
  split
  · rename_i more small
    have cases : n = 2 ∨ n = 3 := by omega
    rcases cases with rfl | rfl <;> decide
  split
  · rename_i more large divides
    simp only [Bool.or_eq_true, decide_eq_true_eq] at divides
    simp only [Bool.false_eq_true, false_iff]
    rcases divides with two | three
    · exact not_prime_of_mod (by norm_num) (by omega) two
    · exact not_prime_of_mod (by norm_num) (by omega) three
  · rename_i more large missed
    simp only [Bool.or_eq_true, decide_eq_true_eq, not_or] at missed
    apply undivided_eq_true_iff missed.1 missed.2 (by omega) rfl
    have least := (Nat.minFac_prime (by omega : n ≠ 1)).two_le
    have neighbour := minFac_mod_six missed.1 missed.2
    omega

end

section

variable {n i : ℕ} {x y : Float}

theorem remainder_beq_zero_iff (hx : IsMultiple 1 n x) (hy : IsMultiple 1 i y) (pos : 0 < i) :
    (remainder x y == 0) = true ↔ n % i = 0 :=
  (hx.remainder hy one_pos pos).beq_zero_iff one_pos

theorem lt_of_square_le (square : i * i ≤ n) (few : n < 2 ^ 53) : i < 2 ^ 27 := by
  by_contra large
  have squares := Nat.mul_le_mul (not_lt.mp large) (not_lt.mp large)
  omega

/-- The step of the search tries the same two divisors in floating point. -/
theorem tried_eq (hx : IsMultiple 1 n x) (hy : IsMultiple 1 i y) (pos : 0 < i)
    (small : i < 2 ^ 27) : (remainder x y == 0 || remainder x (y + 2) == 0) =
      (decide (n % i = 0) || decide (n % (i + 2) = 0)) := by
  have next : IsMultiple 1 (i + 2) (y + 2) :=
    hy.add (isMultiple_ofNat (by norm_num)) (by omega) (by omega)
  rw [Bool.eq_iff_iff]
  simp only [Bool.or_eq_true, decide_eq_true_eq, remainder_beq_zero_iff hx hy pos,
    remainder_beq_zero_iff hx next (by omega : 0 < i + 2)]

/-- In floating point the search ends as it does on natural numbers, as long as they are small. A step
leaves fewer numbers ahead, so they bound the steps. -/
theorem undividedWithin_eq {steps : ℕ} (hx : IsMultiple 1 n x) (hy : IsMultiple 1 i y)
    (few : n < 2 ^ 53) (pos : 0 < i) (small : i ≤ 2 ^ 53) (more : n + 1 - i < steps) :
    undividedWithin steps x y = some (undivided n i) := by
  have square := hy.mul_le_iff hy hx small small few
  induction i using undivided.induct n generalizing y steps with
  | case1 i within found =>
    have tried := tried_eq hx hy pos (lt_of_square_le within.1 few)
    obtain ⟨rest, rfl⟩ := Nat.exists_eq_add_one_of_ne_zero (by omega : steps ≠ 0)
    rw [undividedWithin, undivided, if_pos (square.mpr within.1), dif_pos within, tried,
      if_pos found, if_pos found]
  | case2 i within missed ih =>
    have bound := lt_of_square_le within.1 few
    have tried := tried_eq hx hy pos bound
    have next : IsMultiple 1 (i + 6) (y + 6) :=
      hy.add (isMultiple_ofNat (by norm_num)) (by omega) (by omega)
    have small' : i + 6 ≤ 2 ^ 53 := by omega
    have ahead : i ≤ n := (Nat.le_mul_of_pos_left i pos).trans within.1
    obtain ⟨rest, rfl⟩ := Nat.exists_eq_add_one_of_ne_zero (by omega : steps ≠ 0)
    rw [undividedWithin, undivided, if_pos (square.mpr within.1), dif_pos within, tried,
      if_neg missed, if_neg missed]
    exact ih next (by omega) small' (by omega) (next.mul_le_iff next hx small' small' few)
  | case3 i past =>
    have above : ¬y * y ≤ x := fun le => past ⟨square.mp le, pos⟩
    obtain ⟨rest, rfl⟩ := Nat.exists_eq_add_one_of_ne_zero (by omega : steps ≠ 0)
    rw [undividedWithin, undivided, if_neg above, dif_neg past]

end

section

variable {x : Float} {n : ℕ}

theorem isPrime_of_value (finite : x.isFinite = true) {k : ℤ} (whole : value x = k) :
    isPrime x = isPrimeNat k.toNat := by
  simp only [isPrime, integer_of_value finite whole]

theorem isPrime_of_fraction (fraction : value x ≠ ⌊value x⌋) : isPrime x = false := by
  simp only [isPrime, integer_of_fraction fraction]

theorem isPrime_of_infinite (infinite : x.isFinite = false) : isPrime x = false := by
  simp only [isPrime, integer_of_infinite infinite]

theorem isPrime_eq_true_iff :
    isPrime x = true ↔ x.isFinite = true ∧ ∃ p : ℕ, p.Prime ∧ value x = p := by
  cases finite : x.isFinite with
  | false => simp [isPrime_of_infinite finite]
  | true =>
    simp only [true_and]
    by_cases whole : value x = ⌊value x⌋
    · rw [isPrime_of_value finite whole, isPrimeNat_eq_true_iff]
      constructor
      · intro prime
        have two := prime.two_le
        refine ⟨_, prime, whole.trans ?_⟩
        have cast : ⌊value x⌋ = (⌊value x⌋.toNat : ℤ) := by omega
        exact_mod_cast cast
      · rintro ⟨p, prime, same⟩
        simpa [same] using prime
    · simp only [isPrime_of_fraction whole, Bool.false_eq_true, false_iff]
      rintro ⟨p, _, same⟩
      exact whole (by simp [same])

/-- A double is larger than the numbers of its bits only if it is even. -/
theorem lt_of_odd (hx : IsMultiple 1 n x) (odd : n % 2 ≠ 0) : n < 2 ^ 53 := by
  by_contra large
  have double := isDouble_value x
  rw [hx.value_eq, mul_one] at double
  exact odd (even_of_isDouble double (not_lt.mp large))

theorem sub_truncate_beq_zero_iff (finite : x.isFinite = true) (pos : 0 < value x) :
    (x - truncate x == 0) = true ↔ value x = ⌊value x⌋ := by
  obtain ⟨whole, same⟩ := value_floor finite
  have near : |value x - value (floor x)| ≤ 1 := by
    rw [same, abs_of_nonneg (sub_nonneg.mpr (Int.floor_le _))]
    have above := Int.lt_floor_add_one (value x)
    linarith
  rw [truncate_of_isUnsigned (isUnsigned_of_value_pos pos), sub_beq_zero_iff finite whole near, same]

theorem isPrimeWithin_of_isMultiple {steps : ℕ} (hx : IsMultiple 1 n x) (large : 1 < n)
    (more : n < steps) : isPrimeWithin steps x = some (isPrimeNat n) := by
  have positive : 0 < value x := by
    rw [hx.value_eq, mul_one]
    exact_mod_cast (by omega : 0 < n)
  have whole : (x - truncate x == 0) = true := by
    simp [sub_truncate_beq_zero_iff hx.finite positive, hx.value_eq]
  have one : IsMultiple 1 1 (1 : Float) := isMultiple_ofNat (by norm_num)
  have two : IsMultiple 1 2 (2 : Float) := isMultiple_ofNat (by norm_num)
  have three : IsMultiple 1 3 (3 : Float) := isMultiple_ofNat (by norm_num)
  have five : IsMultiple 1 5 (5 : Float) := isMultiple_ofNat (by norm_num)
  have divided : (remainder x 2 == 0 || remainder x 3 == 0) =
      (decide (n % 2 = 0) || decide (n % 3 = 0)) := by
    rw [Bool.eq_iff_iff]
    simp only [Bool.or_eq_true, decide_eq_true_eq, remainder_beq_zero_iff hx two two_pos,
      remainder_beq_zero_iff hx three three_pos]
  unfold isPrimeWithin isPrimeNat
  simp only [hx.finite, bne, whole, hx.le_iff one, hx.le_iff three, divided, not_le.mpr large,
    Bool.not_true, Bool.false_or, decide_false, Bool.false_eq_true, if_false]
  by_cases small : n ≤ 3
  · simp only [small, if_true]
  by_cases found : (decide (n % 2 = 0) || decide (n % 3 = 0)) = true
  · simp only [small, found, if_true, if_false]
  · have odd : n % 2 ≠ 0 := fun even => found (by simp [even])
    simp only [small, found, if_false]
    exact undividedWithin_eq hx five (lt_of_odd hx odd) (by norm_num) (by norm_num) (by omega)

theorem le_one_iff (finite : x.isFinite = true) : x ≤ 1 ↔ value x ≤ 1 := by
  have one : IsMultiple 1 1 (1 : Float) := isMultiple_ofNat (by norm_num)
  rw [le_iff_value finite one.finite, one.value_eq, Nat.cast_one, mul_one]

theorem isMultiple_of_whole (finite : x.isFinite = true) (whole : value x = ⌊value x⌋)
    (pos : 0 < value x) : IsMultiple 1 ⌊value x⌋.toNat x := by
  have nonneg : 0 ≤ ⌊value x⌋ := Int.floor_nonneg.mpr pos.le
  have count : ((⌊value x⌋.toNat : ℤ) : ℚ) = value x := by rw [Int.toNat_of_nonneg nonneg, ← whole]
  exact ⟨finite, isUnsigned_of_value_pos pos, by rw [mul_one]; exact_mod_cast count.symm⟩

/-- The test in floating point ends on every double, with the answer of the test on integers. -/
theorem isPrimeWithin_eq (x : Float) :
    ∃ k, ∀ steps > k, isPrimeWithin steps x = some (isPrime x) := by
  cases finite : x.isFinite with
  | false => exact ⟨0, by simp [isPrimeWithin, finite, isPrime_of_infinite finite]⟩
  | true =>
    rcases le_or_gt (value x) 1 with small | more
    · have refused : isPrime x = false := by
        rw [← Bool.not_eq_true, isPrime_eq_true_iff]
        rintro ⟨_, p, prime, same⟩
        rw [same] at small
        have one : p ≤ 1 := by exact_mod_cast small
        exact absurd prime.two_le (by omega)
      exact ⟨0, by simp [isPrimeWithin, (le_one_iff finite).mpr small, refused]⟩
    have pos := one_pos.trans more
    by_cases whole : value x = ⌊value x⌋
    · have counted := isMultiple_of_whole finite whole pos
      have large : 1 < ⌊value x⌋.toNat := by
        rw [counted.value_eq, mul_one] at more
        exact_mod_cast more
      rw [isPrime_of_value finite whole]
      exact ⟨_, fun _ => isPrimeWithin_of_isMultiple counted large⟩
    · have difference := mt (sub_truncate_beq_zero_iff finite pos).mp whole
      exact ⟨0, by simp [isPrimeWithin, bne, difference, isPrime_of_fraction whole]⟩

end

/-- A double is found to be prime if its exact value is, and only then, by the test on integers and
by the one that takes every step in floating point. -/
theorem isPrime_exact (x : Float) :
    (∃ k, ∀ steps > k, isPrimeWithin steps x = some (isPrime x)) ∧
      (isPrime x = true ↔ x.isFinite = true ∧ ∃ p : ℕ, p.Prime ∧ value x = p) :=
  ⟨isPrimeWithin_eq x, isPrime_eq_true_iff⟩

example : isPrime 97 = true ∧ isPrime 91 = false ∧ isPrime 1e300 = false := by decide +kernel

end Reckoner.Arithmetic
