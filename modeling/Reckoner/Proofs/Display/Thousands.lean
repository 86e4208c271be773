import Mathlib.Analysis.SpecialFunctions.Log.Base
import Reckoner.Proofs.Arithmetic.Counting
import Reckoner.Proofs.Binary.Infinite
import Reckoner.Proofs.Binary.Integral
import Reckoner.Proofs.Display.Engineering
import Reckoner.Proofs.Display.FeedBack

/-! Text with a power of a thousand: which numbers are shown with a mantissa from one up to a thousand.
The power comes from a logarithm, of which little is assumed. A mantissa that carries to a thousand when
it is rounded is shown as a thousand, and below `10 ^ (-306)` the power that is needed is zero. -/
namespace Reckoner

open Arithmetic (tenTo approximates_tenTo)
open Binary
open Display

namespace Display

/-- Whether a double is the decimal logarithm of the size of a number, or off by one at most. -/
structure IsNearLog (l x : Float) : Prop where
  finite : l.isFinite = true
  near : |(value l : ℝ) - Real.logb 10 (|value x| : ℚ)| ≤ 1

section

variable {log10 : Float → Float} {l x y : Float} {v : ℚ} {a b k : ℤ} {places : ℕ}

theorem logb_mem (low : 10 ^ a ≤ v) (high : v ≤ 10 ^ b) :
    (a : ℝ) ≤ Real.logb 10 v ∧ Real.logb 10 v ≤ b := by
  have lowR : (((10 : ℚ) ^ a : ℚ) : ℝ) ≤ v := Rat.cast_le.mpr low
  have highR : (v : ℝ) ≤ ((10 : ℚ) ^ b : ℚ) := Rat.cast_le.mpr high
  rw [Rat.cast_zpow, Rat.cast_ofNat] at lowR highR
  have positive : (0 : ℝ) < v := (zpow_pos (by norm_num) a).trans_le lowR
  constructor
  · rwa [Real.le_logb_iff_rpow_le (by norm_num) positive, Real.rpow_intCast]
  · rwa [Real.logb_le_iff_le_rpow (by norm_num) positive, Real.rpow_intCast]

theorem IsNearLog.mem (h : IsNearLog l x) (low : 10 ^ a ≤ |value x|) (high : |value x| ≤ 10 ^ b) :
    (a : ℚ) - 1 ≤ value l ∧ value l ≤ b + 1 := by
  obtain ⟨above, below⟩ := logb_mem low high
  obtain ⟨left, right⟩ := abs_le.mp h.near
  have lowR : (a : ℝ) - 1 ≤ value l := by linarith
  have highR : (value l : ℝ) ≤ b + 1 := by linarith
  exact ⟨by exact_mod_cast lowR, by exact_mod_cast highR⟩

theorem isNearLog_of_mem (finite : l.isFinite = true) (low : 10 ^ a ≤ |value x|)
    (high : |value x| ≤ 10 ^ b) (above : (b : ℚ) - 1 ≤ value l) (below : value l ≤ a + 1) :
    IsNearLog l x := by
  obtain ⟨least, most⟩ := logb_mem low high
  have aboveR : ((b - 1 : ℚ) : ℝ) ≤ value l := Rat.cast_le.mpr above
  have belowR : (value l : ℝ) ≤ ((a + 1 : ℚ) : ℝ) := Rat.cast_le.mpr below
  push_cast at aboveR belowR
  refine ⟨finite, ?_⟩
  rw [abs_le]
  constructor <;> linarith

/-- No double is so small or so large that its logarithm has more than four digits. -/
theorem IsNearLog.size_le (h : IsNearLog l x) (notZero : value x ≠ 0) : |value l| ≤ 1100 := by
  have least : (10 : ℚ) ^ (-1074 : ℤ) ≤ |value x| := by
    have double : IsDouble 0 := ⟨0, 0, by norm_num, by norm_num, by norm_num⟩
    have away := (isDouble_value x).least_le_abs_sub double notZero
    rw [sub_zero] at away
    refine le_trans ?_ away
    rw [zpow_neg, zpow_neg]
    exact inv_anti₀ (by positivity) (zpow_le_zpow_left₀ (by norm_num) (by norm_num) (by norm_num))
  have most : |value x| ≤ (10 : ℚ) ^ (1024 : ℤ) := by
    refine (abs_value_lt x).le.trans ?_
    exact_mod_cast pow_le_pow_left₀ (by norm_num : (0 : ℚ) ≤ 2) (by norm_num : (2 : ℚ) ≤ 10) 1024
  obtain ⟨low, high⟩ := h.mem least most
  push_cast at low high
  rw [abs_le]
  constructor <;> linarith

theorem value_thousand : (1000 : Float).isFinite = true ∧ value 1000 = 1000 :=
  Arithmetic.isWhole_ofNat (n := 1000) (by norm_num)

theorem thousand_le_abs_iff (finite : y.isFinite = true) : 1000 ≤ y.abs ↔ 1000 ≤ |value y| := by
  obtain ⟨shown, size⟩ := value_abs finite
  rw [le_iff_value value_thousand.1 shown, size, value_thousand.2]

theorem abs_lt_one_iff_value (finite : y.isFinite = true) : y.abs < 1 ↔ |value y| < 1 := by
  obtain ⟨one, same⟩ : (1 : Float).isFinite = true ∧ value 1 = 1 :=
    Arithmetic.isWhole_ofNat (n := 1) (by norm_num)
  obtain ⟨shown, size⟩ := value_abs finite
  rw [lt_iff_value shown one, size, same]

/-- The guess, on the values. -/
theorem guessedPower_eq (finite : l.isFinite = true) (range : |value l| ≤ 1100) :
    guessedPower l = ⌊rounded (value l / 3)⌋ * 3 := by
  obtain ⟨three, same⟩ : (3 : Float).isFinite = true ∧ value 3 = 3 :=
    Arithmetic.isWhole_ofNat (n := 3) (by norm_num)
  have division := isRounding_div finite three (by rw [same]; norm_num)
  rw [same] at division
  have third : |value l / 3| ≤ 2 ^ (9 : ℤ) := by
    rw [abs_div, abs_of_pos (by norm_num : (0 : ℚ) < 3)]
    norm_num
    linarith
  have size := abs_rounded_le (isDouble_two_zpow (by norm_num)) third
  have top : (2 : ℚ) ^ (9 : ℤ) < 2 ^ 1024 := pow_lt_pow_right₀ one_lt_two (by norm_num : 9 < 1024)
  obtain ⟨whole, floored⟩ := value_floor (division.isFinite (size.trans_lt top))
  rw [division.value (division.isFinite (size.trans_lt top))] at floored
  have few : |⌊rounded (value l / 3)⌋ * 3| ≤ 2 ^ 53 := by
    obtain ⟨low, high⟩ := abs_le.mp size
    have above : -512 ≤ ⌊rounded (value l / 3)⌋ := Int.le_floor.mpr (by norm_num at low ⊢; linarith)
    have below : ⌊rounded (value l / 3)⌋ ≤ 512 := by
      have := (Int.floor_le _).trans high
      norm_num at this
      exact_mod_cast this
    rw [abs_le]
    constructor <;> linarith
  have product := isRounding_mul whole three
  rw [floored, same] at product
  generalize ⌊rounded (value l / 3)⌋ = n at few product ⊢
  have double := isDouble_intCast few
  have small : |((n * 3 : ℤ) : ℚ)| ≤ 2 ^ 53 := by exact_mod_cast few
  have inside : (2 : ℚ) ^ 53 < 2 ^ 1024 := pow_lt_pow_right₀ one_lt_two (by norm_num)
  rw [← Int.cast_ofNat (n := 3), ← Int.cast_mul] at product
  obtain ⟨finite', tripled⟩ := product.exact double (small.trans_lt inside)
  rw [guessedPower, integer_of_value finite' tripled]
  rfl

/-- A third that is within two of an integer rounds down to it or to a neighbour. -/
theorem floor_rounded_mem {q : ℚ} {n : ℤ} (small : |n| ≤ 1000) (low : n - 1 ≤ q)
    (high : q ≤ n + 7 / 4) :
    ⌊rounded q⌋ = n - 1 ∨ ⌊rounded q⌋ = n ∨ ⌊rounded q⌋ = n + 1 := by
  obtain ⟨below, above⟩ := abs_le.mp small
  have double : IsDouble ((n - 1 : ℤ) : ℚ) :=
    isDouble_intCast (by rw [abs_le]; constructor <;> linarith)
  have quarters : IsDouble ((n : ℚ) + 7 / 4) := by
    refine ⟨4 * n + 7, -2, by rw [abs_lt]; constructor <;> linarith, by norm_num, ?_⟩
    push_cast
    norm_num
    ring
  have reached := rounded_mono (p := ((n - 1 : ℤ) : ℚ)) (q := q) (by push_cast; exact low)
  have kept := rounded_mono high
  rw [rounded_of_isDouble double] at reached
  rw [rounded_of_isDouble quarters] at kept
  have least := Int.le_floor.mpr reached
  have most : ⌊rounded q⌋ < n + 2 := by
    rw [Int.floor_lt]
    push_cast
    linarith
  omega

/-- The guess is next to a power of a thousand that the number is near. -/
theorem IsNearLog.guess_mem (h : IsNearLog l x) (notZero : value x ≠ 0) (thousands : 3 ∣ k)
    (small : |k| ≤ 1000) (low : 10 ^ (k - 1) ≤ |value x|) (high : |value x| ≤ 10 ^ (k + 4)) :
    guessedPower l = k - 3 ∨ guessedPower l = k ∨ guessedPower l = k + 3 := by
  obtain ⟨n, rfl⟩ := thousands
  obtain ⟨above, below⟩ := h.mem low high
  push_cast at above below
  have third := floor_rounded_mem (q := value l / 3) (n := n)
    (by rw [abs_le] at small ⊢; omega) (by linarith) (by linarith)
  rw [guessedPower_eq h.finite (h.size_le notZero)]
  omega

/-- Whatever the number, the exponent is a multiple of three. -/
theorem IsNearLog.three_dvd (near : IsNearLog (log10 x.abs) x) (notZero : value x ≠ 0) :
    3 ∣ engineeringPowerBy log10 x := by
  have guess : 3 ∣ guessedPower (log10 x.abs) := by
    rw [guessedPower_eq near.finite (near.size_le notZero)]
    exact dvd_mul_left _ _
  unfold engineeringPowerBy
  dsimp only
  split
  · exact dvd_add guess (dvd_refl 3)
  split
  · exact dvd_sub guess (dvd_refl 3)
  · exact guess

/-- Whether a power of a thousand goes with a number, as far as the doubles can tell: the mantissa is
from one up to a thousand and does not carry to a thousand when it is rounded, and the powers next to
it are seen to be too high and too low. -/
structure HasPower (x : Float) (k : ℤ) (places : ℕ) : Prop where
  thousands : 3 ∣ k
  low : -306 ≤ k
  high : k ≤ 306
  finite : (x / tenTo k).isFinite = true
  least : 1 ≤ |value (x / tenTo k)|
  most : |value (x / tenTo k)| < 1000 - 1 / 2 / 10 ^ places
  reached : 1000 ≤ (x / tenTo (k - 3)).abs
  notPassed : (x / tenTo (k + 3)).abs < 1

theorem HasPower.lt_thousand (h : HasPower x k places) : |value (x / tenTo k)| < 1000 :=
  h.most.trans (sub_lt_self _ (by positivity))

theorem value_tenTo_mem (low : -306 ≤ k) (high : k ≤ 306) :
    (tenTo k).isFinite = true ∧ 10 ^ k * (9 / 10) ≤ value (tenTo k) ∧
      value (tenTo k) * (9 / 10) ≤ 10 ^ k := by
  have power := approximates_tenTo (n := k) (by omega) (by omega)
  have positive := Decimal.ten_zpow_pos k
  have close := power.close.mono (k := 310) (by split <;> omega) positive
  have most : (9 / 10 : ℚ) ≤ kept ^ 310 := le_trans (by norm_num) (le_kept_pow 310)
  have pos := close.pos positive
  exact ⟨power.finite, (mul_le_mul_of_nonneg_left most positive.le).trans close.low,
    (mul_le_mul_of_nonneg_left most pos.le).trans close.high⟩

/-- A mantissa in range means that the number is near the power. -/
theorem HasPower.abs_value_mem (h : HasPower x k places) (finite : x.isFinite = true) :
    10 ^ (k - 1) ≤ |value x| ∧ |value x| ≤ 10 ^ (k + 4) := by
  obtain ⟨power, low, high⟩ := value_tenTo_mem h.low h.high
  have scale := Decimal.ten_zpow_pos k
  have positive : 0 < value (tenTo k) := lt_of_lt_of_le (by positivity) low
  have division := (isRounding_div finite power positive.ne').value h.finite
  have least := h.least
  have most := h.lt_thousand
  rw [division] at least most
  have half : 1 / 2 < |value x / value (tenTo k)| := by
    by_contra below
    have double : IsDouble (1 / 2) := ⟨1, -1, by norm_num, by norm_num, by norm_num⟩
    linarith [abs_rounded_le double (not_lt.mp below)]
  have thousand : |value x / value (tenTo k)| < 1000 := by
    by_contra above
    have double : IsDouble (1000 : ℤ) := isDouble_intCast (by norm_num)
    exact most.not_ge (le_abs_rounded (by exact_mod_cast double) (not_lt.mp above))
  rw [abs_div, abs_of_pos positive] at half thousand
  rw [lt_div_iff₀ positive] at half
  rw [div_lt_iff₀ positive] at thousand
  rw [zpow_sub₀ (by norm_num), zpow_add₀ (by norm_num)]
  norm_num
  constructor <;> linarith

theorem not_thousand_le_of_lt (small : y.abs < 1) : ¬1000 ≤ y.abs := by
  by_cases finite : y.isFinite = true
  · rw [abs_lt_one_iff_value finite] at small
    rw [thousand_le_abs_iff finite]
    linarith
  · rw [← isFinite_abs] at finite
    exact absurd small (not_lt_of_infinite (isUnsigned_abs y) (Bool.eq_false_iff.mpr finite))

theorem engineeringPowerBy_eq (h : HasPower x k places) (finite : x.isFinite = true)
    (notZero : value x ≠ 0) (near : IsNearLog (log10 x.abs) x) :
    engineeringPowerBy log10 x = k := by
  obtain ⟨low, high⟩ := h.abs_value_mem finite
  have small : |k| ≤ 1000 := by
    have := h.low
    have := h.high
    rw [abs_le]
    omega
  have least : ¬(x / tenTo k).abs < 1 := mt (abs_lt_one_iff_value h.finite).mp h.least.not_gt
  have most : ¬1000 ≤ (x / tenTo k).abs :=
    mt (thousand_le_abs_iff h.finite).mp h.lt_thousand.not_ge
  unfold engineeringPowerBy
  rcases near.guess_mem notZero h.thousands small low high with below | same | above
  · rw [below]
    dsimp only
    rw [if_pos h.reached, sub_add_cancel]
  · rw [same]
    dsimp only
    rw [if_neg most, if_neg least]
  · have notReached := not_thousand_le_of_lt h.notPassed
    rw [above]
    dsimp only
    rw [if_neg notReached, if_pos h.notPassed, add_sub_cancel_right]

/-- The quotient has the sign of the number, the power of ten being positive. -/
theorem value_div_tenTo_lt_zero_iff (hx : x.isFinite = true) (low : -306 ≤ k) (high : k ≤ 306)
    (finite : (x / tenTo k).isFinite = true) (notZero : value (x / tenTo k) ≠ 0) :
    value (x / tenTo k) < 0 ↔ value x < 0 := by
  obtain ⟨power, least, _⟩ := value_tenTo_mem low high
  have positive : 0 < value (tenTo k) :=
    (mul_pos (Decimal.ten_zpow_pos k) (by norm_num)).trans_le least
  have division := (isRounding_div hx power positive.ne').value finite
  rw [division] at notZero ⊢
  rw [rounded_lt_zero_iff notZero, div_lt_iff₀ positive, zero_mul]

def powerText (negative : Bool) (digits places : ℕ) (k : ℤ) : String :=
  (if negative then "-" else "") ++ Decimal.pointed digits.repr places ++ "e" ++
    Decimal.signedPower k

theorem HasPower.text (h : HasPower x k places) (finite : x.isFinite = true)
    (notZero : value x ≠ 0) (near : IsNearLog (log10 x.abs) x) :
    ∃ digits : ℕ, engineeringBy log10 x places =
        powerText (decide (value x < 0)) digits places k ∧
      10 ^ places ≤ digits ∧ digits < 1000 * 10 ^ places ∧
        IsNearest (|value (x / tenTo k)| * 10 ^ places) digits := by
  have power := engineeringPowerBy_eq h finite notZero near
  obtain ⟨v, decoded⟩ := decode_of_isFinite h.finite
  have unit : (0 : ℚ) < 10 ^ places := by positivity
  have size : |value (x / tenTo k)| = v.magnitude := by rw [value_of_decode decoded, abs_value]
  have least := h.least
  have most := h.most
  have nearest := isNearest_digitsAt v places
  rw [← size] at nearest
  refine ⟨digitsAt v places, ?_, ?_, ?_, nearest⟩
  · have sign : v.negative = decide (value x < 0) := by
      have positive : 0 < v.magnitude := size ▸ one_pos.trans_le least
      have quotient := abs_pos.mp (one_pos.trans_le least)
      rw [Bool.eq_iff_iff, decide_eq_true_iff, Exact.negative_iff positive,
        ← value_of_decode decoded, value_div_tenTo_lt_zero_iff finite h.low h.high h.finite quotient]
    rw [engineeringBy_eq (mt (beq_zero_iff finite).mp notZero) (power ▸ decoded), power, sign]
    simp only [powerText, Decimal.Scientific.withPower, sub_add_cancel, String.append_assoc]
  · have one : ((10 ^ places : ℕ) : ℤ) ≤ digitsAt v places := by
      refine (isNearest_intCast _).mono nearest ?_
      push_cast
      exact le_mul_of_one_le_left unit.le least
    exact_mod_cast one
  · have below : (digitsAt v places : ℚ) < 1000 * 10 ^ places := by
      have carried := mul_lt_mul_of_pos_right most unit
      rw [sub_mul, div_mul_cancel₀ _ unit.ne'] at carried
      have close := (abs_le.mp nearest.close).1
      push_cast at close
      linarith
    exact_mod_cast below

theorem quotient_mem {m : ℚ} (finite : x.isFinite = true) (same : |value x| = m * 10 ^ k)
    (low : -307 ≤ k) (high : k ≤ 308) (least : 1 / 10 ^ 3 ≤ m) (most : m ≤ 10 ^ 6) :
    (x / tenTo k).isFinite = true ∧ m * (1 - 310 / 2 ^ 53) ≤ |value (x / tenTo k)| ∧
      |value (x / tenTo k)| * (1 - 310 / 2 ^ 53) ≤ m := by
  have posM : 0 < m := lt_of_lt_of_le (by positivity) least
  have positive := mul_pos posM (Decimal.ten_zpow_pos k)
  have least' : 1 / 10 ^ 307 ≤ m :=
    (one_div_pow_le_one_div_pow_of_le (by norm_num) (by norm_num)).trans least
  have most' : m ≤ 10 ^ 308 := most.trans (pow_le_pow_right₀ (by norm_num) (by norm_num))
  have close : IsClose 1 (m * 10 ^ k) |value x| := by
    rw [same]
    exact (IsClose.refl _).mono zero_le_one positive
  obtain ⟨w, decoded, _, quotient⟩ := decode_div_tenTo finite close low high least' most'
  have kept := le_kept_pow 310
  rw [← abs_value, ← value_of_decode decoded] at quotient
  push_cast at kept
  exact ⟨isFinite_of_decode decoded, (mul_le_mul_of_nonneg_left kept posM.le).trans quotient.low,
    (mul_le_mul_of_nonneg_left kept (abs_nonneg _)).trans quotient.high⟩

theorem two_pow_le : (2 : ℚ) ^ 1024 ≤ 10 ^ (309 : ℤ) := by
  have powers : 2 ^ 1024 ≤ 10 ^ 309 := by decide +kernel
  rw [show (309 : ℤ) = (309 : ℕ) from rfl, zpow_natCast]
  exact_mod_cast powers

/-- The first power of a thousand below the range is zero, being one over an infinity. -/
theorem value_tenTo_below :
    (tenTo (-306 - 3)).isFinite = true ∧ value (tenTo (-306 - 3)) = 0 := by
  decide +kernel

theorem tenTo_above : (tenTo (306 + 3)).isFinite = false ∧ (tenTo (306 + 3)).isNaN = false := by
  decide +kernel

/-- Numbers that are not within one part in `10 ^ 13` of the ends have a power of a thousand, from
`10 ^ (-306)` to the largest double. -/
theorem hasPower_of_between (finite : x.isFinite = true) (thousands : 3 ∣ k) (low : -306 ≤ k)
    (least : 10 ^ k * (1 + 1 / 10 ^ 13) ≤ |value x|)
    (most : |value x| ≤ (1000 - 1 / 2 / 10 ^ places) * (10 ^ k * (1 - 1 / 10 ^ 13))) :
    HasPower x k places := by
  have scale := Decimal.ten_zpow_pos k
  have top : k ≤ 306 := by
    by_contra above
    have large : (10 : ℚ) ^ (309 : ℤ) ≤ 10 ^ k := zpow_le_zpow_right₀ (by norm_num) (by omega)
    have reached := (le_mul_of_one_le_right scale.le (by norm_num)).trans least
    exact ((two_pow_le.trans large).trans reached).not_gt (abs_value_lt x)
  obtain ⟨m, same⟩ : ∃ m, |value x| = m * 10 ^ k :=
    ⟨|value x| / 10 ^ k, (div_mul_cancel₀ _ scale.ne').symm⟩
  obtain ⟨δ, carry, positive, half⟩ :
      ∃ δ : ℚ, 1 / 2 / 10 ^ places = δ ∧ 0 < δ ∧ δ ≤ 1 / 2 :=
    ⟨_, rfl, by positivity, div_le_self (by norm_num) (one_le_pow₀ (by norm_num))⟩
  have leastM : 1 + 1 / 10 ^ 13 ≤ m := by
    rw [same, mul_comm] at least
    exact le_of_mul_le_mul_right least scale
  have mostM : m ≤ (1000 - δ) * (1 - 1 / 10 ^ 13) := by
    rw [same, carry, mul_left_comm, mul_comm (10 ^ k)] at most
    exact le_of_mul_le_mul_right most scale
  have notZero : value x ≠ 0 := by
    rw [← abs_pos, same]
    positivity
  obtain ⟨finite', atLeast, atMost⟩ :=
    quotient_mem finite same (by omega) (by omega) (by linarith) (by linarith)
  refine ⟨thousands, low, top, finite', by linarith, ?_, ?_, ?_⟩
  · rw [carry]
    linarith
  · by_cases last : k = -306
    · obtain ⟨power, zero⟩ := value_tenTo_below
      rw [last]
      obtain ⟨infinite, number⟩ := div_of_zero finite notZero power zero
      exact le_abs_of_infinite value_thousand.1 infinite number
    · have same' : |value x| = m * 1000 * 10 ^ (k - 3) := by
        rw [same, zpow_sub₀ (by norm_num)]
        norm_num
        ring
      obtain ⟨finite', atLeast, _⟩ :=
        quotient_mem finite same' (by omega) (by omega) (by linarith) (by linarith)
      rw [thousand_le_abs_iff finite']
      linarith
  · by_cases last : k = 306
    · obtain ⟨infinite, number⟩ := tenTo_above
      rw [last]
      obtain ⟨finite', zero⟩ := div_of_infinite finite infinite number
      rw [abs_lt_one_iff_value finite', zero, abs_zero]
      exact one_pos
    · have same' : |value x| = m / 1000 * 10 ^ (k + 3) := by
        rw [same, zpow_add₀ (by norm_num)]
        norm_num
        ring
      obtain ⟨finite', _, atMost⟩ :=
        quotient_mem finite same' (by omega) (by omega) (by linarith) (by linarith)
      rw [abs_lt_one_iff_value finite']
      linarith

/-- A mantissa below a thousand has up to three digits before the point. -/
theorem length_pointed_le {digits : ℕ} (short : digits < 1000 * 10 ^ places) :
    (Decimal.pointed digits.repr places).length ≤ places + 4 := by
  have few : digits.repr.length ≤ places + 3 :=
    Nat.repr_length _ _ (by omega) (by rwa [pow_add, mul_comm])
  unfold Decimal.pointed
  split
  · omega
  · have point : ".".length = 1 := rfl
    simp only [Decimal.zeros, String.length_append, String.length_ofList, List.length_take,
      List.length_drop, String.length_toList, List.length_replicate]
    omega

/-- What stands before the `e` is the mantissa. -/
theorem takeWhile_powerText (digits places : ℕ) (k : ℤ) :
    (powerText false digits places k).toList.takeWhile Scan.isLiteral =
      (Decimal.pointed digits.repr places).toList := by
  have literal := Decimal.isLiteral_pointed (Decimal.isLiteral_repr digits) places
  have text : (powerText false digits places k).toList =
      (Decimal.pointed digits.repr places).toList ++ 'e' :: (Decimal.signedPower k).toList := by
    simp [powerText]
  rw [text]
  refine Scan.takeWhile_append_of_stop ?_ literal
  rintro c ⟨⟩
  rfl

end

end Display

namespace DisplayMode

/-- The exponent is a multiple of three. With the power of a thousand that goes with the number, the
mantissa is from one up to a thousand as it is printed, and it is the computed mantissa rounded to the
places. Only numbers within one part in `10 ^ 13` of a power of a thousand, those whose mantissa carries
to a thousand and those below `10 ^ (-306)` can lack such a power. -/
theorem format_engineering_thousands (log10 : Float → Float) (x : Float) (places : ℕ)
    (finite : x.isFinite = true) (notZero : value x ≠ 0) (near : IsNearLog (log10 x.abs) x) :
    engineering.format places x = engineeringBy Float.log10 x (min places maxPlaces) ∧
      (∃ k, 3 ∣ k ∧ engineeringBy log10 x places =
        Decimal.fixed places (x / tenTo k) ++ "e" ++ Decimal.signedPower k) ∧
      (∀ k, HasPower x k places → ∃ digits : ℕ,
        engineeringBy log10 x places = powerText (decide (value x < 0)) digits places k ∧
          10 ^ places ≤ digits ∧ digits < 1000 * 10 ^ places ∧
            IsNearest (|value (x / tenTo k)| * 10 ^ places) digits) ∧
      ∀ k, 3 ∣ k → -306 ≤ k → 10 ^ k * (1 + 1 / 10 ^ 13) ≤ |value x| →
        |value x| ≤ (1000 - 1 / 2 / 10 ^ places) * (10 ^ k * (1 - 1 / 10 ^ 13)) →
          HasPower x k places := by
  refine ⟨format_of_isFinite finite, ⟨_, near.three_dvd notZero, ?_⟩, ?_, ?_⟩
  · exact if_neg (mt (beq_zero_iff finite).mp notZero)
  · exact fun k power => power.text finite notZero near
  · exact fun k thousands low least most => hasPower_of_between finite thousands low least most

/-- The logarithm of a thousand may come out a hair low. -/
theorem format_engineering_thousands_hairLow :
    HasPower 1000 3 2 ∧ ∃ digits : ℕ,
      engineeringBy (fun _ => 2.9999999999999996) 1000 2 = powerText false digits 2 3 ∧
        10 ^ 2 ≤ digits ∧ digits < 1000 * 10 ^ 2 := by
  have finite := value_thousand.1
  have size : |value 1000| = 10 ^ (3 : ℤ) := by
    rw [value_thousand.2]
    norm_num
  have power : HasPower 1000 3 2 :=
    ⟨by decide, by decide, by decide, by decide +kernel, by decide +kernel, by decide +kernel,
      by decide +kernel, by decide +kernel⟩
  have near : IsNearLog 2.9999999999999996 1000 :=
    isNearLog_of_mem (by decide +kernel) size.ge size.le (by decide +kernel) (by decide +kernel)
  have notZero : value 1000 ≠ 0 := by decide +kernel
  obtain ⟨-, -, written, -⟩ :=
    format_engineering_thousands (fun _ => 2.9999999999999996) 1000 2 finite notZero near
  obtain ⟨digits, text, least, most, -⟩ := written 3 power
  have sign : decide (value 1000 < 0) = false := by decide +kernel
  exact ⟨power, digits, sign ▸ text, least, most⟩

/-- The mantissa is rounded after the power was chosen, so it can be shown as a thousand. -/
theorem format_engineering_besides_thousands :
    ¬∀ (log10 : Float → Float) (x : Float) (places : ℕ), x.isFinite = true → value x ≠ 0 →
      IsNearLog (log10 x.abs) x → ∃ (negative : Bool) (digits : ℕ) (k : ℤ),
        engineeringBy log10 x places = powerText negative digits places k ∧
          10 ^ places ≤ digits ∧ digits < 1000 * 10 ^ places ∧ 3 ∣ k := by
  intro normalized
  have low : 10 ^ (2 : ℤ) ≤ |value 999.9999| := by
    norm_num
    decide +kernel
  have high : |value 999.9999| ≤ 10 ^ (3 : ℤ) := by
    norm_num
    decide +kernel
  have near : IsNearLog 2.9999999565705496 999.9999 :=
    isNearLog_of_mem (by decide +kernel) low high (by decide +kernel) (by decide +kernel)
  obtain ⟨negative, digits, k, text, -, short, -⟩ :=
    normalized (fun _ => 2.9999999565705496) 999.9999 2 (by decide +kernel) (by decide +kernel) near
  have shown : engineeringBy (fun _ => 2.9999999565705496) 999.9999 2 = "1000.00e+0" := by
    decide +kernel
  rw [shown] at text
  cases negative with
  | true =>
    have first := congrArg (fun s => s.toList.head?) text
    simp [powerText] at first
  | false =>
    have mantissa := congrArg (fun s => (s.toList.takeWhile Scan.isLiteral).length) text
    rw [takeWhile_powerText, String.length_toList] at mantissa
    have seven : ("1000.00e+0".toList.takeWhile Scan.isLiteral).length = 7 := by decide
    have six := length_pointed_le short
    omega

end DisplayMode

end Reckoner
