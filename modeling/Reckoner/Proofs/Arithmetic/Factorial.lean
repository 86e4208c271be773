import Reckoner.Proofs.Arithmetic.Counting
import Reckoner.Proofs.Binary.Infinite
import Reckoner.Proofs.Binary.Integral

/-! Factorials of all doubles. A factor that is counted up in floating point would stand still at
`2 ^ 53`, but the product is infinite after the factor 171 and ends there. Up to then every factor is
exact, so the product is the one over the natural numbers. -/
namespace Reckoner.Arithmetic

open Binary

structure IsLastFactor (x : Float) (m : ℕ) : Prop where
  le : m ≤ 171
  reached : ∀ j ≤ 171, Float.ofNat j ≤ x ↔ j ≤ m

section

variable {i j m n steps : ℕ} {p x : Float}

theorem ofNat_le_iff (small : j ≤ 2 ^ 53) (finite : x.isFinite = true) :
    Float.ofNat j ≤ x ↔ (j : ℚ) ≤ value x := by
  have count := isMultiple_ofNat small
  rw [le_iff_value count.finite finite, count.value_eq, mul_one]

theorem ofNat_le_floor_iff (small : j ≤ 2 ^ 53) :
    Float.ofNat j ≤ floor x ↔ Float.ofNat j ≤ x := by
  cases finite : x.isFinite with
  | true =>
    obtain ⟨whole, same⟩ := value_floor finite
    rw [ofNat_le_iff small whole, ofNat_le_iff small finite, same]
    exact_mod_cast Int.le_floor (z := j) (a := value x)
  | false => simp only [floor, toWhole, decode_of_infinite finite]

theorem ofNat_add_one (small : i + 1 ≤ 2 ^ 53) : Float.ofNat i + 1 = Float.ofNat (i + 1) := by
  have one : IsMultiple 1 1 (1 : Float) := isMultiple_ofNat (by norm_num)
  have sum := (isMultiple_ofNat (by omega : i ≤ 2 ^ 53)).add one i.succ_pos small
  have next := isMultiple_ofNat small
  exact sum.unsigned.eq_of_value_eq next.unsigned sum.finite next.finite
    (sum.value_eq.trans next.value_eq.symm)

theorem isLastFactor_floor (h : IsLastFactor x m) : IsLastFactor (floor x) m :=
  ⟨h.le, fun j le => (ofNat_le_floor_iff (by omega)).trans (h.reached j le)⟩

theorem IsLastFactor.unique (hm : IsLastFactor x m) (hn : IsLastFactor x n) : m = n := by
  have left := (hn.reached m hm.le).mp ((hm.reached m hm.le).mpr le_rfl)
  have right := (hm.reached n hn.le).mp ((hn.reached n hn.le).mpr le_rfl)
  exact left.antisymm right

theorem IsLastFactor.nonneg (h : IsLastFactor x m) : 0 ≤ x :=
  (h.reached 0 (Nat.zero_le _)).mpr (Nat.zero_le m)

theorem isLastFactor_of_isFinite (finite : x.isFinite = true) (nonneg : 0 ≤ value x) :
    IsLastFactor x (min ⌊value x⌋.toNat 171) := by
  refine ⟨min_le_right _ _, fun j le => ?_⟩
  have floored : (j : ℚ) ≤ value x ↔ (j : ℤ) ≤ ⌊value x⌋ := by
    rw [Int.le_floor, Int.cast_natCast]
  have whole : 0 ≤ ⌊value x⌋ := Int.floor_nonneg.mpr nonneg
  rw [ofNat_le_iff (by omega) finite, floored]
  omega

theorem isLastFactor_infinity : IsLastFactor infinity 171 := by
  have infinite : infinity.isFinite = false := by decide
  have number : infinity.isNaN = false := by decide
  refine ⟨le_rfl, fun j le => iff_of_true ?_ le⟩
  have size : infinity.abs = infinity := by decide
  rw [← size]
  exact le_abs_of_infinite (isMultiple_ofNat (by omega)).finite infinite number

/-- A number that is not below zero is one from zero on; NaN is neither. -/
theorem isNaN_or_lt_zero_iff : (x.isNaN || decide (x < 0)) = true ↔ ¬0 ≤ x := by
  cases number : x.isNaN with
  | true =>
    refine iff_of_true rfl fun nonneg => ?_
    cases number.symm.trans (isNaN_of_le nonneg).2
  | false =>
    rw [not_le_iff number (by decide), Bool.false_or, decide_eq_true_iff]

theorem factorial_of_not_nonneg (below : ¬0 ≤ x) : factorial x = nan :=
  if_pos (isNaN_or_lt_zero_iff.mpr below)

theorem factorial_of_nonneg (nonneg : 0 ≤ x) :
    factorial x = (factors x).foldl (fun p i => p * Float.ofNat i) 1 :=
  if_neg (mt isNaN_or_lt_zero_iff.mp (not_not.mpr nonneg))

/-- Every double from zero on has a last factor, and its factorial is the product up to it. -/
theorem exists_isLastFactor (nonneg : 0 ≤ x) :
    ∃ m, IsLastFactor x m ∧ factorial x = product m := by
  have number := (isNaN_of_le nonneg).2
  rw [factorial_of_nonneg nonneg]
  cases finite : x.isFinite with
  | true =>
    have least : ((0 : ℕ) : ℚ) ≤ value x := (ofNat_le_iff (Nat.zero_le _) finite).mp nonneg
    obtain ⟨v, decoded⟩ := decode_of_isFinite finite
    refine ⟨_, isLastFactor_of_isFinite finite (by exact_mod_cast least), ?_⟩
    rw [value_of_decode decoded, ← Exact.floor_eq]
    simp only [factors, decoded, product]
  | false =>
    have unsigned : IsUnsigned x := by
      apply isUnsigned_of_not_lt
      · exact fun negative => (not_le_iff number (by decide)).mpr negative nonneg
      · intro negativeZero
        cases finite.symm.trans (isFinite_of_decode negativeZero)
    refine ⟨171, eq_infinity unsigned finite number ▸ isLastFactor_infinity, ?_⟩
    simp only [factors, decode_of_infinite finite, product]

theorem factorial_of_isLastFactor (h : IsLastFactor x m) : factorial x = product m := by
  obtain ⟨n, last, same⟩ := exists_isLastFactor h.nonneg
  rw [same, last.unique h]

theorem product_finite (few : m ≤ 170) : (product m).isFinite = true ∧ 0 < value (product m) := by
  have close := approximates_product few
  exact ⟨close.finite, close.close.pos (by exact_mod_cast m.factorial_pos)⟩

theorem product_eq_mul (more : 1 < i) : product i = product (i - 1) * Float.ofNat i := by
  have step := product_succ (n := i - 1) (by omega)
  rwa [Nat.sub_add_cancel more.le] at step

theorem product_eq_infinity : product 171 = infinity := by
  obtain ⟨finite, positive⟩ := product_finite (le_refl 170)
  have factor := isMultiple_ofNat (k := 171) (by norm_num)
  have factor_pos : 0 < value (Float.ofNat 171) := by
    rw [factor.value_eq]
    norm_num
  have infinite := product_infinite
  rw [product_eq_mul (by norm_num)] at infinite ⊢
  exact mul_eq_infinity finite factor.finite positive factor_pos infinite

theorem multiplyWithin_end (past : ¬Float.ofNat i ≤ x) :
    multiplyWithin (steps + 1) x (Float.ofNat i) p = some (p, 0) := by
  rw [multiplyWithin, if_neg past]

theorem multiplyWithin_step (reached : Float.ofNat i ≤ x) (more : 1 < i) (small : i + 1 ≤ 2 ^ 53) :
    multiplyWithin (steps + 1) x (Float.ofNat i) (product (i - 1)) =
      if (product i).isInf then some (product i, 1)
      else (multiplyWithin steps x (Float.ofNat (i + 1)) (product i)).map
        fun (result, count) => (result, count + 1) := by
  rw [multiplyWithin, if_pos reached, ← product_eq_mul more, ofNat_add_one small]

/-- The multiplication takes one factor after the other and ends with the last one, because the next
is not reached or because the product is infinite. -/
theorem multiplyWithin_eq (last : IsLastFactor x m) (more : 1 < i) (within : i ≤ 171)
    (ahead : i + n = m + 1) (enough : n < steps) :
    multiplyWithin steps x (Float.ofNat i) (product (i - 1)) = some (product m, n) := by
  obtain ⟨rest, rfl⟩ := Nat.exists_eq_add_one.mpr (Nat.zero_lt_of_lt enough)
  induction n generalizing i rest with
  | zero =>
    have past : ¬Float.ofNat i ≤ x := mt (last.reached i within).mp (by omega)
    have previous : i - 1 = m := by omega
    rw [multiplyWithin_end past, previous]
  | succ n ih =>
    have reached : Float.ofNat i ≤ x := (last.reached i within).mpr (by omega)
    have bound := last.le
    rw [multiplyWithin_step reached more (by omega)]
    by_cases top : i = 171
    · have same : m = 171 := by omega
      have none : n = 0 := by omega
      have infinite : infinity.isInf = true := by decide
      subst top same none
      rw [product_eq_infinity, if_pos infinite]
    · have finite := isInf_of_isFinite (product_finite (m := i) (by omega)).1
      obtain ⟨rest, rfl⟩ := Nat.exists_eq_add_one.mpr (by omega : 0 < rest)
      have following := ih (i := i + 1) (by omega) (by omega) (by omega) rest (by omega)
      rw [Nat.add_sub_cancel] at following
      rw [if_neg (Bool.eq_false_iff.mp finite), following]
      rfl

theorem IsLastFactor.not_beq (h : IsLastFactor x m) (few : j < m) :
    ¬(x == Float.ofNat j) = true := by
  intro same
  have bound := h.le
  have next : Float.ofNat (j + 1) ≤ x := (h.reached (j + 1) (by omega)).mpr few
  have count := isMultiple_ofNat (by omega : j ≤ 2 ^ 53)
  have larger := isMultiple_ofNat (by omega : j + 1 ≤ 2 ^ 53)
  obtain ⟨left, right⟩ := isNaN_of_le next
  have number := isNaN_of_isFinite count.finite
  rw [le_iff_extendedValue left right, (beq_iff_extendedValue right number).mp same,
    ← le_iff_extendedValue left number, larger.le_iff count] at next
  omega

/-- In floating point the factorial takes one multiplication for each factor after the first. -/
theorem IsLastFactor.factorialWithin_eq (h : IsLastFactor x m) (enough : m - 1 < steps) :
    factorialWithin steps x = some (product m, m - 1) := by
  have guard := mt isNaN_or_lt_zero_iff.mp (not_not.mpr h.nonneg)
  have whole := isLastFactor_floor h
  obtain ⟨rest, rfl⟩ := Nat.exists_eq_add_one.mpr (Nat.zero_lt_of_lt enough)
  unfold factorialWithin
  rw [if_neg guard]
  dsimp only
  by_cases few : m ≤ 1
  · have one : product m = 1 ∧ m - 1 = 0 := by
      interval_cases m <;> exact ⟨rfl, rfl⟩
    have past : ¬Float.ofNat 2 ≤ floor x := mt (whole.reached 2 (by norm_num)).mp (by omega)
    have ended : multiplyWithin (rest + 1) (floor x) 2 1 = some (1, 0) := multiplyWithin_end past
    rw [one.1, one.2, ended, ite_self]
  · have early : ¬(floor x == 0 || floor x == 1) = true := by
      rw [Bool.or_eq_true]
      exact not_or.mpr ⟨whole.not_beq (j := 0) (by omega), whole.not_beq (j := 1) (by omega)⟩
    have start : product (2 - 1) = 1 := rfl
    rw [if_neg early, ← start]
    exact multiplyWithin_eq (i := 2) whole one_lt_two (by norm_num) (by omega) enough

theorem factorialWithin_of_not_nonneg (below : ¬0 ≤ x) :
    factorialWithin steps x = some (nan, 0) :=
  if_pos (isNaN_or_lt_zero_iff.mpr below)

theorem exists_multiplications (x : Float) :
    ∃ count ≤ 170, ∀ steps > count, factorialWithin steps x = some (factorial x, count) := by
  by_cases nonneg : 0 ≤ x
  · obtain ⟨m, last, same⟩ := exists_isLastFactor nonneg
    have bound := last.le
    rw [same]
    exact ⟨m - 1, by omega, fun _ => last.factorialWithin_eq⟩
  · rw [factorial_of_not_nonneg nonneg]
    exact ⟨0, by omega, fun _ _ => factorialWithin_of_not_nonneg nonneg⟩

theorem factorial_floor (x : Float) : factorial (floor x) = factorial x := by
  by_cases nonneg : 0 ≤ x
  · obtain ⟨m, last, same⟩ := exists_isLastFactor nonneg
    rw [factorial_of_isLastFactor (isLastFactor_floor last), same]
  · have below : ¬0 ≤ floor x := mt (ofNat_le_floor_iff (Nat.zero_le _)).mp nonneg
    rw [factorial_of_not_nonneg nonneg, factorial_of_not_nonneg below]

/-- A factorial is NaN, infinite or positive, as the number is below zero, from 171 on or between. -/
theorem factorial_cases (x : Float) :
    (¬0 ≤ x ∧ ¬171 ≤ x ∧ factorial x = nan) ∨ (0 ≤ x ∧ 171 ≤ x ∧ factorial x = infinity) ∨
      (0 ≤ x ∧ ¬171 ≤ x ∧ (factorial x).isFinite = true ∧ 0 < value (factorial x)) := by
  by_cases nonneg : 0 ≤ x
  · obtain ⟨m, last, same⟩ := exists_isLastFactor nonneg
    have bound := last.le
    have large : 171 ≤ x ↔ 171 ≤ m := last.reached 171 le_rfl
    rw [same, large]
    by_cases top : m = 171
    · exact .inr (.inl ⟨nonneg, top.ge, top ▸ product_eq_infinity⟩)
    · exact .inr (.inr ⟨nonneg, by omega, product_finite (by omega)⟩)
  · have small : ¬171 ≤ x := fun large => nonneg (le_of_le_of_le (by decide) large)
    exact .inl ⟨nonneg, small, factorial_of_not_nonneg nonneg⟩

theorem isNaN_factorial_iff : (factorial x).isNaN = true ↔ x.isNaN = true ∨ x < 0 := by
  have undefined : x.isNaN = true ∨ x < 0 ↔ ¬0 ≤ x := by
    rw [← isNaN_or_lt_zero_iff, Bool.or_eq_true, decide_eq_true_iff]
  rw [undefined]
  rcases factorial_cases x with ⟨below, _, same⟩ | ⟨nonneg, _, same⟩ | ⟨nonneg, _, finite, _⟩
  · rw [same]
    exact iff_of_true (by decide) below
  · rw [same]
    exact iff_of_false (by decide) (not_not.mpr nonneg)
  · exact iff_of_false (Bool.eq_false_iff.mp (isNaN_of_isFinite finite)) (not_not.mpr nonneg)

theorem factorial_eq_infinity_iff : factorial x = infinity ↔ 171 ≤ x := by
  have infinite : infinity.isFinite = false := by decide
  rcases factorial_cases x with ⟨_, small, same⟩ | ⟨_, large, same⟩ | ⟨_, small, finite, _⟩
  · rw [same]
    exact iff_of_false (by decide) small
  · exact iff_of_true same large
  · refine iff_of_false (fun top => ?_) small
    cases infinite.symm.trans (top ▸ finite)

theorem factorial_finite_iff :
    (factorial x).isFinite = true ∧ 0 < value (factorial x) ↔ 0 ≤ x ∧ x < 171 := by
  have range : 0 ≤ x ∧ x < 171 ↔ 0 ≤ x ∧ ¬171 ≤ x :=
    and_congr_right fun nonneg => (not_le_iff (isNaN_of_le nonneg).2 (by decide)).symm
  rw [range]
  rcases factorial_cases x with ⟨below, _, same⟩ | ⟨_, large, same⟩ | ⟨nonneg, small, positive⟩
  · rw [same]
    exact iff_of_false (fun finite => absurd finite.1 (by decide)) fun inside => below inside.1
  · rw [same]
    exact iff_of_false (fun finite => absurd finite.1 (by decide)) fun inside => inside.2 large
  · exact iff_of_true positive ⟨nonneg, small⟩

/-- The factorial ends after at most 170 multiplications. It is that of the whole part, infinite from
171 on, finite and positive below, and NaN only where there is no factorial. -/
theorem factorialWithin_ends (x : Float) :
    (∃ count ≤ 170, ∀ steps > count, factorialWithin steps x = some (factorial x, count)) ∧
      ((factorial x).isNaN = true ↔ x.isNaN = true ∨ x < 0) ∧
      factorial (floor x) = factorial x ∧
      (factorial x = infinity ↔ 171 ≤ x) ∧
      ((factorial x).isFinite = true ∧ 0 < value (factorial x) ↔ 0 ≤ x ∧ x < 171) :=
  ⟨exists_multiplications x, isNaN_factorial_iff, factorial_floor x, factorial_eq_infinity_iff,
    factorial_finite_iff⟩

example : factorialWithin 5 5.7 = some (120, 4) := by decide +kernel

end

end Reckoner.Arithmetic
