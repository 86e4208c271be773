import Mathlib.Data.Int.Log
import Mathlib.Data.Rat.Floor

/-! Rounding a rational number to a double: the grid of the doubles around it, the point of that
grid that is taken, and why no double is nearer. The range is not bounded from above here, so an overflow
is a matter of the operation that rounds. -/
namespace Reckoner.Binary

/-- Whether an integer is the one nearest to a rational, the even one of two that are equally
near. -/
structure IsNearest (q : ℚ) (n : ℤ) : Prop where
  close : |q - n| ≤ 1 / 2
  even : |q - n| = 1 / 2 → Even n

def nearestEven (q : ℚ) : ℤ :=
  if |q - round q| = 1 / 2 ∧ Odd (round q) then round q - 1 else round q

section

variable {q : ℚ} {n : ℤ}

theorem isNearest_nearestEven (q : ℚ) : IsNearest q (nearestEven q) := by
  have close := abs_sub_round q
  unfold nearestEven
  split
  · rename_i tie
    obtain ⟨half, odd⟩ := tie
    -- The half goes up in `round`, so the other neighbour is one below.
    have up : q - round q = -(1 / 2) := by
      have floor := Int.lt_floor_add_one (q + 1 / 2)
      have above := Int.floor_le (q + 1 / 2)
      rw [← round_eq] at floor above
      rcases abs_eq (by norm_num : (0 : ℚ) ≤ 1 / 2) |>.mp half with h | h
      · linarith
      · exact h
    refine ⟨?_, fun _ => odd.sub_odd odd_one⟩
    push_cast
    rw [abs_le]
    constructor <;> linarith
  · rename_i noTie
    refine ⟨close, fun half => ?_⟩
    by_contra odd
    exact noTie ⟨half, Int.not_even_iff_odd.mp odd⟩

theorem IsNearest.unique {k : ℤ} (hn : IsNearest q n) (hk : IsNearest q k) : n = k := by
  have closeN := abs_le.mp hn.close
  have closeK := abs_le.mp hk.close
  have below : (n : ℚ) ≤ k + 1 := by linarith
  have above : (k : ℚ) ≤ n + 1 := by linarith
  norm_cast at below above
  by_contra apart
  -- Two integers this close differ by one, and then both are even.
  obtain next | next : k = n + 1 ∨ n = k + 1 := by omega
  · have half : q - n = 1 / 2 := by
      rw [next] at closeK
      push_cast at closeK
      linarith
    have evenN := hn.even (by rw [half]; norm_num)
    have evenK := hk.even (by rw [next]; push_cast; rw [← sub_sub, half]; norm_num)
    rw [next] at evenK
    exact (Int.even_add_one.mp evenK) evenN
  · have half : q - k = 1 / 2 := by
      rw [next] at closeN
      push_cast at closeN
      linarith
    have evenK := hk.even (by rw [half]; norm_num)
    have evenN := hn.even (by rw [next]; push_cast; rw [← sub_sub, half]; norm_num)
    rw [next] at evenN
    exact (Int.even_add_one.mp evenN) evenK

theorem IsNearest.eq (h : IsNearest q n) : nearestEven q = n :=
  (isNearest_nearestEven q).unique h

theorem IsNearest.neg (h : IsNearest q n) : IsNearest (-q) (-n) := by
  have same : |-q - (-n : ℤ)| = |q - n| := by
    push_cast
    rw [← abs_neg]
    ring_nf
  exact ⟨by rw [same]; exact h.close, fun half => (h.even (same ▸ half)).neg⟩

theorem nearestEven_neg (q : ℚ) : nearestEven (-q) = -nearestEven q :=
  (isNearest_nearestEven q).neg.eq

theorem isNearest_intCast (n : ℤ) : IsNearest n n := by
  constructor <;> simp

theorem IsNearest.mono {p : ℚ} {k : ℤ} (hk : IsNearest p k) (hn : IsNearest q n) (h : p ≤ q) :
    k ≤ n := by
  rcases h.eq_or_lt with rfl | less
  · exact (hk.unique hn).le
  have closeK := abs_le.mp hk.close
  have closeN := abs_le.mp hn.close
  have next : (k : ℚ) < n + 1 := by linarith
  norm_cast at next
  omega

/-- What is no further from an integer than a number that is nearest to it is nearest to it too. -/
theorem IsNearest.of_closer {p : ℚ} (h : IsNearest q n) (closer : |p - n| ≤ |q - n|) :
    IsNearest p n :=
  ⟨closer.trans h.close, fun tie => h.even (le_antisymm h.close (tie ▸ closer))⟩

/-- No integer is nearer than the nearest. -/
theorem IsNearest.nearest (h : IsNearest q n) (k : ℤ) : |q - n| ≤ |q - k| := by
  by_cases same : n = k
  · rw [same]
  have apart : (1 : ℚ) ≤ |(n : ℚ) - k| := by
    have step : 1 ≤ |n - k| := Int.one_le_abs (sub_ne_zero.mpr same)
    exact_mod_cast step
  have triangle := abs_sub_le (n : ℚ) q k
  rw [abs_sub_comm (n : ℚ) q] at triangle
  have close := h.close
  linarith

end

/-- The exponent of the grid of doubles around a number: 53 bits, but no finer than the smallest
double. -/
def quantum (q : ℚ) : ℤ := max (Int.log 2 |q| - 52) (-1074)

/-- The double nearest to a number, the even one of two that are equally near, if there were no
largest double. -/
def rounded (q : ℚ) : ℚ := nearestEven (q / 2 ^ quantum q) * 2 ^ quantum q

/-- Whether a number is a double, if there were no largest one. -/
def IsDouble (y : ℚ) : Prop := ∃ (n e : ℤ), |n| < 2 ^ 53 ∧ -1074 ≤ e ∧ y = n * 2 ^ e

section

variable {q y : ℚ}

/-- Distances are counted in units. -/
theorem abs_sub_mul {u : ℚ} (pos : 0 < u) (r k : ℚ) : |r - k * u| = |r / u - k| * u := by
  rw [← abs_of_pos pos, ← abs_mul, abs_of_pos pos, sub_mul, div_mul_cancel₀ _ pos.ne']

theorem two_zpow_pos (e : ℤ) : (0 : ℚ) < 2 ^ e := zpow_pos (by norm_num) e

theorem mul_two_zpow_pos {m : ℕ} (pos : 0 < m) (e : ℤ) : (0 : ℚ) < m * 2 ^ e :=
  mul_pos (Nat.cast_pos.mpr pos) (two_zpow_pos e)

theorem mul_two_zpow_nonneg (m : ℕ) (e : ℤ) : (0 : ℚ) ≤ m * 2 ^ e :=
  mul_nonneg m.cast_nonneg (two_zpow_pos e).le

theorem two_zpow_add (a b : ℤ) : (2 : ℚ) ^ (a + b) = 2 ^ a * 2 ^ b := zpow_add₀ (by norm_num) a b

theorem two_pow_mul_zpow (k : ℕ) (e : ℤ) : (2 : ℚ) ^ k * 2 ^ e = 2 ^ (k + e) := by
  rw [two_zpow_add, zpow_natCast]

theorem quantum_neg (q : ℚ) : quantum (-q) = quantum q := by
  rw [quantum, abs_neg, quantum]

theorem rounded_neg (q : ℚ) : rounded (-q) = -rounded q := by
  rw [rounded, quantum_neg, neg_div, nearestEven_neg, Int.cast_neg, neg_mul, rounded]

theorem abs_lt_two_zpow_quantum (q : ℚ) : |q| < 2 ^ 53 * 2 ^ quantum q := by
  rw [two_pow_mul_zpow]
  refine (Int.lt_zpow_succ_log_self Nat.one_lt_two |q|).trans_le ?_
  refine zpow_le_zpow_right₀ (by norm_num) ?_
  unfold quantum
  omega

theorem two_zpow_quantum_le (hq : q ≠ 0) (normal : -1074 < quantum q) :
    2 ^ 52 * 2 ^ quantum q ≤ |q| := by
  have exponent : (52 : ℕ) + quantum q = Int.log 2 |q| := by
    unfold quantum at normal ⊢
    omega
  rw [two_pow_mul_zpow, exponent]
  exact_mod_cast Int.zpow_log_le_self Nat.one_lt_two (abs_pos.mpr hq)

theorem quantum_eq {t : ℤ} (least : -1074 ≤ t) (short : |q| < 2 ^ 53 * 2 ^ t)
    (normal : t = -1074 ∨ 2 ^ 52 * 2 ^ t ≤ |q|) (notZero : q ≠ 0) : quantum q = t := by
  have pos := abs_pos.mpr notZero
  have above : Int.log 2 |q| < 53 + t := by
    refine (Int.lt_zpow_iff_log_lt Nat.one_lt_two pos).mp ?_
    rwa [two_pow_mul_zpow] at short
  unfold quantum
  rcases normal with smallest | leading
  · omega
  · have below : 52 + t ≤ Int.log 2 |q| := by
      refine (Int.zpow_le_iff_le_log Nat.one_lt_two pos).mp ?_
      rwa [two_pow_mul_zpow] at leading
    omega

theorem abs_rounded_sub_le_quantum (q : ℚ) : |rounded q - q| ≤ 2 ^ quantum q / 2 := by
  have close := (isNearest_nearestEven (q / 2 ^ quantum q)).close
  have scale := two_zpow_pos (quantum q)
  have split : rounded q - q =
      -((q / 2 ^ quantum q - nearestEven (q / 2 ^ quantum q)) * 2 ^ quantum q) := by
    unfold rounded
    field_simp
    ring
  rw [split, abs_neg, abs_mul, abs_of_pos scale]
  linarith [mul_le_mul_of_nonneg_right close scale.le]

theorem isDouble_rounded (q : ℚ) : IsDouble (rounded q) := by
  have scale := two_zpow_pos (quantum q)
  have least : -1074 ≤ quantum q := le_max_right _ _
  have small : |q / 2 ^ quantum q| < 2 ^ 53 := by
    rw [abs_div, abs_of_pos scale, div_lt_iff₀ scale]
    exact abs_lt_two_zpow_quantum q
  have bound : |nearestEven (q / 2 ^ quantum q)| ≤ 2 ^ 53 := by
    have close := abs_le.mp (isNearest_nearestEven (q / 2 ^ quantum q)).close
    have inside := abs_lt.mp small
    have below : (nearestEven (q / 2 ^ quantum q) : ℚ) < 2 ^ 53 + 1 := by linarith
    have above : -(2 ^ 53 + 1 : ℚ) < nearestEven (q / 2 ^ quantum q) := by linarith
    norm_cast at below above
    rw [abs_le]
    constructor <;> omega
  rcases bound.lt_or_eq with strict | top
  · exact ⟨_, _, strict, least, rfl⟩
  -- A carry into the next power of two leaves a mantissa of one bit.
  · obtain ⟨n, same, size⟩ : ∃ n : ℤ, nearestEven (q / 2 ^ quantum q) = n * 2 ∧ |n| < 2 ^ 53 := by
      rcases (abs_eq (by norm_num)).mp top with h | h
      · exact ⟨2 ^ 52, by rw [h]; norm_num, by norm_num⟩
      · exact ⟨-2 ^ 52, by rw [h]; norm_num, by norm_num⟩
    refine ⟨n, quantum q + 1, size, by omega, ?_⟩
    rw [rounded, same, two_zpow_add]
    push_cast
    ring

/-- No double is nearer than the one that is taken. Doubles off the grid are below the power of two
that begins it, so that power is at least as near as they are. -/
theorem abs_rounded_sub_le (q : ℚ) (double : IsDouble y) : |rounded q - q| ≤ |y - q| := by
  by_cases zero : q = 0
  · have center : rounded 0 = 0 := by
      rw [rounded, zero_div, show (0 : ℚ) = (0 : ℤ) by norm_num, (isNearest_intCast 0).eq]
      simp
    rw [zero, center, sub_self, abs_zero]
    exact abs_nonneg _
  have scale := two_zpow_pos (quantum q)
  -- It is enough to beat the points of the grid.
  have onGrid (k : ℤ) : |rounded q - q| ≤ |k * 2 ^ quantum q - q| := by
    have best := (isNearest_nearestEven (q / 2 ^ quantum q)).nearest k
    rw [rounded, abs_sub_comm, abs_sub_comm _ q, abs_sub_mul scale, abs_sub_mul scale]
    exact mul_le_mul_of_nonneg_right best scale.le
  obtain ⟨n, e, size, least, rfl⟩ := double
  by_cases coarse : quantum q ≤ e
  · have multiple : (n : ℚ) * 2 ^ e = (n * 2 ^ (e - quantum q).toNat : ℤ) * 2 ^ quantum q := by
      push_cast
      rw [mul_assoc, ← zpow_natCast, ← two_zpow_add]
      congr 2
      omega
    rw [multiple]
    exact onGrid _
  · have normal : -1074 < quantum q := by omega
    have start := two_zpow_quantum_le zero normal
    have finer : |(n : ℚ) * 2 ^ e| ≤ 2 ^ 52 * 2 ^ quantum q := by
      have mantissa : |(n : ℚ)| ≤ 2 ^ 53 := by exact_mod_cast size.le
      have exponent : (2 : ℚ) ^ e ≤ 2 ^ (quantum q - 1) :=
        zpow_le_zpow_right₀ (by norm_num) (by omega)
      rw [abs_mul, abs_of_pos (two_zpow_pos e)]
      calc |(n : ℚ)| * 2 ^ e ≤ 2 ^ 53 * 2 ^ (quantum q - 1) :=
            mul_le_mul mantissa exponent (two_zpow_pos e).le (by norm_num)
        _ = 2 ^ 52 * 2 ^ quantum q := by
            rw [two_pow_mul_zpow, two_pow_mul_zpow]
            congr 1
            push_cast
            ring
    have inside := abs_le.mp finer
    rcases lt_or_gt_of_ne zero with negative | positive
    · refine (onGrid (-2 ^ 52)).trans ?_
      rw [abs_of_neg negative] at start
      push_cast
      rw [abs_of_nonneg (by linarith), abs_of_nonneg (by linarith)]
      linarith
    · refine (onGrid (2 ^ 52)).trans ?_
      rw [abs_of_pos positive] at start
      push_cast
      rw [abs_of_nonpos (by linarith), abs_of_nonpos (by linarith)]
      linarith

theorem rounded_of_isDouble (double : IsDouble y) : rounded y = y := by
  have none := abs_rounded_sub_le y double
  rw [sub_self, abs_zero] at none
  exact sub_eq_zero.mp (abs_eq_zero.mp (le_antisymm none (abs_nonneg _)))

theorem rounded_zero : rounded 0 = 0 :=
  rounded_of_isDouble ⟨0, 0, by norm_num, by norm_num, by norm_num⟩

theorem rounded_mono {p q : ℚ} (h : p ≤ q) : rounded p ≤ rounded q := by
  rcases h.eq_or_lt with rfl | less
  · exact le_refl _
  by_contra crossed
  rw [not_le] at crossed
  -- Two doubles that are swapped would each have to be the nearer one on the wrong side.
  have left := abs_rounded_sub_le p (isDouble_rounded q)
  have right := abs_rounded_sub_le q (isDouble_rounded p)
  rw [← sq_le_sq] at left right
  nlinarith

theorem rounded_nonneg (h : 0 ≤ q) : 0 ≤ rounded q := by
  rw [← rounded_zero]
  exact rounded_mono h

theorem rounded_lt_zero_iff (notZero : rounded q ≠ 0) : rounded q < 0 ↔ q < 0 := by
  constructor
  · intro negative
    by_contra positive
    exact not_lt.mpr (rounded_nonneg (not_lt.mp positive)) negative
  · intro negative
    refine lt_of_le_of_ne ?_ notZero
    rw [← rounded_zero]
    exact rounded_mono negative.le

theorem abs_rounded (q : ℚ) : |rounded q| = rounded |q| := by
  rcases le_total 0 q with positive | negative
  · rw [abs_of_nonneg positive, abs_of_nonneg (rounded_nonneg positive)]
  · rw [abs_of_nonpos negative, ← abs_neg, ← rounded_neg, abs_of_nonneg]
    exact rounded_nonneg (neg_nonneg.mpr negative)

theorem isDouble_intCast {n : ℤ} (small : |n| ≤ 2 ^ 53) : IsDouble n := by
  rcases small.lt_or_eq with strict | top
  · exact ⟨n, 0, strict, by norm_num, by simp⟩
  · rcases (abs_eq (by norm_num)).mp top with h | h
    · exact ⟨2 ^ 52, 1, by norm_num, by norm_num, by rw [h]; norm_num⟩
    · exact ⟨-2 ^ 52, 1, by norm_num, by norm_num, by rw [h]; norm_num⟩

theorem isDouble_two_zpow {e : ℤ} (least : -1074 ≤ e) : IsDouble (2 ^ e) :=
  ⟨1, e, by norm_num, least, by simp⟩

theorem IsDouble.neg (double : IsDouble y) : IsDouble (-y) := by
  obtain ⟨n, e, small, least, rfl⟩ := double
  exact ⟨-n, e, by rwa [abs_neg], least, by push_cast; ring⟩

theorem IsDouble.abs (double : IsDouble y) : IsDouble |y| := by
  rcases abs_choice y with same | opposite
  · rwa [same]
  · rw [opposite]
    exact double.neg

theorem abs_rounded_le {b : ℚ} (double : IsDouble b) (h : |q| ≤ b) : |rounded q| ≤ b := by
  obtain ⟨low, high⟩ := abs_le.mp h
  rw [abs_le, ← rounded_of_isDouble double, ← rounded_neg]
  exact ⟨rounded_mono low, rounded_mono high⟩

theorem le_abs_rounded {b : ℚ} (double : IsDouble b) (h : b ≤ |q|) : b ≤ |rounded q| := by
  rw [← rounded_of_isDouble double]
  rcases le_abs.mp h with above | below
  · exact (rounded_mono above).trans (le_abs_self _)
  · refine (rounded_mono below).trans ?_
    rw [rounded_neg]
    exact neg_le_abs _

/-- What is less than half of the smallest double is rounded to nothing. -/
theorem rounded_eq_zero (h : |q| < 2 ^ (-1075 : ℤ)) : rounded q = 0 := by
  have half : (2 : ℚ) ^ (-1074 : ℤ) = 2 * 2 ^ (-1075 : ℤ) := by
    rw [← zpow_one_add₀ (by norm_num)]
    norm_num
  have near := abs_rounded_sub_le q (y := 0) ⟨0, 0, by norm_num, by norm_num, by norm_num⟩
  rw [zero_sub, abs_neg] at near
  have small : |rounded q| < 2 ^ (-1074 : ℤ) := by
    have triangle := abs_sub_abs_le_abs_sub (rounded q) q
    linarith
  obtain ⟨n, e, _, least, same⟩ := isDouble_rounded q
  have scale : (2 : ℚ) ^ (-1074 : ℤ) ≤ 2 ^ e := zpow_le_zpow_right₀ (by norm_num) least
  by_contra notZero
  have step : (1 : ℚ) ≤ |(n : ℚ)| := by
    have nonzero : n ≠ 0 := fun zero => notZero (by rw [same, zero]; simp)
    exact_mod_cast Int.one_le_abs nonzero
  rw [same, abs_mul, abs_of_pos (two_zpow_pos e)] at small
  have least := mul_le_mul_of_nonneg_right step (two_zpow_pos e).le
  linarith

end

end Reckoner.Binary
