import Reckoner.Proofs.Binary.Compare
import Reckoner.Proofs.Binary.Overflow
import Reckoner.Proofs.Binary.Product
import Reckoner.Proofs.Decimal.Integer
import Reckoner.Proofs.Display.FeedBack

/-! Integers with a fixed number of decimal places. Scaling by the power of ten and back can lead to a
double beside the integer, and without places rounding half up moves an odd integer of 53 bits. -/
namespace Reckoner.Display

open Arithmetic (tenTo approximates_tenTo)
open Binary

theorem repr_eq_natAbs (n : ℤ) : n.repr = (if n < 0 then "-" else "") ++ n.natAbs.repr := by
  cases n with
  | ofNat k =>
    rw [if_neg (by simp), String.empty_append]
    rfl
  | negSucc k =>
    rw [if_pos (Int.negSucc_lt_zero k)]
    rfl

section

variable {x : Float} {n : ℤ} {places : ℕ}

theorem value_plainLimit : value 1e21 = 10 ^ 21 := by
  rw [value_of_decode (by decide : decode 1e21 = some ⟨false, 7629394531250000, 17⟩)]
  norm_num [Exact.value, Exact.magnitude]

theorem value_integerLimit : value 9007199254740992.0 = 2 ^ 53 := by
  rw [value_of_decode (by decide : decode 9007199254740992.0 = some ⟨false, 2 ^ 52, 1⟩)]
  norm_num [Exact.value, Exact.magnitude]

/-- An integer up to `2 ^ 53` is shown by its own digits. -/
theorem shortest_integer (finite : x.isFinite = true) (whole : value x = n)
    (small : |n| ≤ 2 ^ 53) : shortest x = n.repr := by
  have smallQ : |(n : ℚ)| ≤ 2 ^ 53 := by exact_mod_cast small
  unfold shortest
  by_cases zero : n = 0
  · rw [if_pos ((beq_zero_iff finite).mpr (by rw [whole, zero, Int.cast_zero])), zero]
    rfl
  have notZero : ¬(x == 0) = true := by
    rw [beq_zero_iff finite, whole]
    exact_mod_cast zero
  have plain : ¬1e21 ≤ x.abs := by
    rw [le_iff_value (by decide) (value_abs finite).1, (value_abs finite).2, whole, value_plainLimit]
    linarith
  have short : n.natAbs ≤ 2 ^ 53 := by
    rw [Int.abs_eq_natAbs] at small
    exact_mod_cast small
  obtain ⟨v, decoded⟩ := decode_of_isFinite finite
  have magnitude : v.magnitude = n.natAbs := by
    rw [← abs_value, ← value_of_decode decoded, whole, Nat.cast_natAbs, Int.cast_abs]
  have positive : 0 < v.magnitude := by
    rw [magnitude]
    exact_mod_cast Int.natAbs_pos.mpr zero
  have pos : 0 < v.mantissa := by
    rw [Nat.pos_iff_ne_zero]
    exact fun none => positive.ne' (Exact.magnitude_eq_zero_iff.mpr none)
  have sign : (v.negative = true) = (n < 0) := by
    rw [propext (Exact.negative_iff positive), ← value_of_decode decoded, whole, Int.cast_lt_zero]
  rw [if_neg notZero, if_neg plain, Decimal.plain, Decimal.write, decoded, repr_eq_natAbs]
  dsimp only
  rw [Decimal.positional_shortest (canonical_of_decode decoded pos).1 pos short magnitude]
  simp only [sign]

/-- Text is that of an integer only if the double that is shown is the integer. -/
theorem shortest_eq_repr_iff {y : Float} (finite : x.isFinite = true) (whole : value x = n)
    (small : |n| ≤ 2 ^ 53) (finite' : y.isFinite = true) : shortest y = n.repr ↔ value y = n := by
  constructor
  · intro text
    obtain ⟨u, readX, _, sameX⟩ := evaluateText_shortest finite .radian .repair
    obtain ⟨w, readY, _, sameY⟩ := evaluateText_shortest finite' .radian .repair
    rw [shortest_integer finite whole small] at readX
    rw [text, readX] at readY
    cases readY
    rw [← sameY, sameX, whole]
  · intro same
    exact shortest_integer finite' same small

theorem tenTo_exact (few : places ≤ 22) : value (tenTo places) = 10 ^ places := by
  have table : ∀ p < 23, value (tenTo (p : ℕ)) = 10 ^ p := by decide +kernel
  exact table places (by omega)

/-- Scaling does not overflow, so the integer takes all steps. -/
theorem value_atPlaces_integer (finite : x.isFinite = true) (whole : value x = n)
    (small : |n| < 2 ^ 53) (h : places ≤ maxPlaces) :
    value (atPlaces x places) =
      rounded (⌊rounded (rounded (n * value (tenTo places)) + 1 / 2)⌋ / value (tenTo places)) := by
  have smallQ : |(n : ℚ)| < 2 ^ 53 := by exact_mod_cast small
  have power := isFinite_tenTo h
  have positive : 0 < value (tenTo places) := one_pos.trans_le (one_le_value_tenTo h)
  have notLarge : ¬9007199254740992.0 ≤ x.abs := by
    rw [le_iff_value (by decide) (value_abs finite).1, (value_abs finite).2, whole,
      value_integerLimit]
    exact not_le.mpr smallQ
  have scaled : (x * tenTo places).isFinite = true := by
    refine (isRounding_mul finite power).isFinite ?_
    have bound : |value x * value (tenTo places)| ≤ 2 ^ (453 : ℤ) := by
      rw [abs_mul, whole, abs_of_pos positive]
      calc |(n : ℚ)| * value (tenTo places) ≤ 2 ^ 53 * 2 ^ (400 : ℤ) :=
            mul_le_mul smallQ.le (value_tenTo_le h) positive.le (by norm_num)
        _ = 2 ^ (453 : ℤ) := two_pow_mul_zpow 53 400
    refine (abs_rounded_le (isDouble_two_zpow (by norm_num)) bound).trans_lt ?_
    exact (zpow_lt_zpow_right₀ (by norm_num) (by norm_num)).trans_eq (zpow_natCast 2 1024)
  have steps : atPlaces x places = roundHalfUp (x * tenTo places) / tenTo places := by
    rw [atPlaces, if_neg notLarge, scaled, power, Bool.and_self, if_pos rfl]
  rw [steps, (value_roundHalfUp_div scaled finite h).2, whole]

theorem abs_moved_le (small : |n| < 2 ^ 53) :
    |if Even n ∨ |n| ≤ 2 ^ 52 then n else n + 1| ≤ 2 ^ 53 := by
  rw [abs_lt] at small
  rw [abs_le]
  split <;> constructor <;> omega

theorem value_atPlaces_zero (finite : x.isFinite = true) (whole : value x = n)
    (small : |n| < 2 ^ 53) :
    value (atPlaces x 0) = (if Even n ∨ |n| ≤ 2 ^ 52 then n else n + 1 : ℤ) := by
  have one : value (tenTo (0 : ℕ)) = 1 := tenTo_exact (Nat.zero_le _)
  rw [value_atPlaces_integer finite whole small (Nat.zero_le _), one, mul_one, div_one,
    rounded_of_isDouble (isDouble_intCast small.le), floor_rounded_add_half small,
    rounded_of_isDouble (isDouble_intCast (abs_moved_le small))]

/-- With places the scaled integer is even or has more than 53 bits, and rounding half up leaves it. -/
theorem floor_rounded_scaled (n : ℤ) (pos : 0 < places) (h : places ≤ maxPlaces) :
    (⌊rounded (rounded (n * value (tenTo places)) + 1 / 2)⌋ : ℚ) =
      rounded (n * value (tenTo places)) := by
  by_cases large : 2 ^ 53 ≤ |n * value (tenTo places)|
  · have reached : 2 ^ 53 ≤ |rounded (n * value (tenTo places))| := by
      rw [← zpow_natCast] at large ⊢
      exact le_abs_rounded (isDouble_two_zpow (by norm_num)) large
    rw [rounded_add_half (isDouble_rounded _) reached,
      (isDouble_rounded _).floor_eq (le_trans (by norm_num) reached)]
  · obtain ⟨N, even, product⟩ : ∃ N : ℤ, Even N ∧ n * value (tenTo places) = N := by
      by_cases few : places ≤ 22
      · refine ⟨n * 10 ^ places, ?_, ?_⟩
        · exact ((by decide : Even (10 : ℤ)).pow_of_ne_zero pos.ne').mul_left n
        · rw [tenTo_exact few]
          push_cast
          rfl
      · refine ⟨0, Even.zero, ?_⟩
        by_contra notZero
        have one : (1 : ℚ) ≤ |(n : ℚ)| := by
          have nonzero : n ≠ 0 := by
            rintro rfl
            exact notZero (by simp)
          exact_mod_cast Int.one_le_abs nonzero
        have power : (2 : ℚ) ^ 53 ≤ value (tenTo places) :=
          calc (2 : ℚ) ^ 53 ≤ 9 ^ 23 := by norm_num
            _ ≤ 9 ^ places := pow_le_pow_right₀ (by norm_num) (by omega)
            _ ≤ value (tenTo places) := nine_pow_le_value_tenTo h
        refine large ?_
        rw [abs_mul]
        exact power.trans ((le_abs_self _).trans (le_mul_of_one_le_left (abs_nonneg _) one))
    have short : |N| < 2 ^ 53 := by
      rw [product, not_le] at large
      exact_mod_cast large
    rw [product, rounded_of_isDouble (isDouble_intCast short.le), floor_rounded_add_half short,
      if_pos (.inl even)]

theorem value_atPlaces_pos (finite : x.isFinite = true) (whole : value x = n)
    (small : |n| < 2 ^ 53) (pos : 0 < places) (h : places ≤ maxPlaces) :
    value (atPlaces x places) =
      rounded (rounded (n * value (tenTo places)) / value (tenTo places)) := by
  rw [value_atPlaces_integer finite whole small h, floor_rounded_scaled n pos h]

/-- A multiple of a power of ten is one of the power of five, on a coarser grid. -/
theorem isDouble_scaled (short : |n| * 5 ^ places ≤ 2 ^ 53) :
    IsDouble (n * value (tenTo (min places maxPlaces : ℕ))) := by
  by_cases zero : n = 0
  · rw [zero, Int.cast_zero, zero_mul]
    exact isDouble_intCast (n := 0) (by norm_num)
  have few : places ≤ 22 := by
    by_contra many
    have power : (5 : ℤ) ^ 23 ≤ |n| * 5 ^ places :=
      calc (5 : ℤ) ^ 23 ≤ 5 ^ places := pow_le_pow_right₀ (by norm_num) (by omega)
        _ ≤ |n| * 5 ^ places := le_mul_of_one_le_left (by positivity) (Int.one_le_abs zero)
    norm_num at power short
    linarith
  have double : IsDouble ((n * 5 ^ places : ℤ) : ℚ) := by
    refine isDouble_intCast ?_
    rwa [abs_mul, abs_of_pos (by positivity : (0 : ℤ) < 5 ^ places)]
  have factors : (n : ℚ) * 10 ^ places = (n * 5 ^ places : ℤ) * 2 ^ places := by
    push_cast
    rw [mul_assoc, ← mul_pow]
    norm_num
  rw [min_eq_left (few.trans (by decide)), tenTo_exact few, factors]
  exact double.mul_two_pow places

/-- Scaling to the places and back leads at most one part in `2 ^ 52` away from the integer. -/
theorem abs_atPlaces_sub_le (finite : x.isFinite = true) (whole : value x = n)
    (small : |n| < 2 ^ 53) (pos : 0 < places) (h : places ≤ maxPlaces) :
    |value (atPlaces x places) - n| ≤ |(n : ℚ)| / 2 ^ 52 := by
  have one := (one_le_value_tenTo h).trans (le_abs_self _)
  rw [value_atPlaces_pos finite whole small pos h]
  by_cases zero : n = 0
  · simp [zero, rounded_zero]
  · have oneN : (1 : ℚ) ≤ |(n : ℚ)| := by exact_mod_cast Int.one_le_abs zero
    exact abs_rounded_mul_div_sub_le (isDouble_intCast small.le) oneN one

theorem value_atPlaces_kept (finite : x.isFinite = true) (whole : value x = n)
    (small : |n| < 2 ^ 53) (pos : 0 < places) (h : places ≤ maxPlaces)
    (kept : IsDouble (n * value (tenTo places)) ∨ NoCarry n (value (tenTo places))) :
    value (atPlaces x places) = n := by
  have one := (one_le_value_tenTo h).trans (le_abs_self _)
  rw [value_atPlaces_pos finite whole small pos h]
  by_cases zero : n = 0
  · simp [zero, rounded_zero]
  · have oneN : (1 : ℚ) ≤ |(n : ℚ)| := by exact_mod_cast Int.one_le_abs zero
    exact rounded_mul_div (isDouble_intCast small.le) (isDouble_value _) oneN one kept

end

end Reckoner.Display

namespace Reckoner.DisplayMode

open Arithmetic (tenTo)
open Binary Display

/-- Without decimal places an integer below `2 ^ 53` is shown by its digits if it is even or has at
most 52 bits. With places it is if its product with the power of ten is a double or does not
carry; otherwise what is shown is a double that is off by one part in `2 ^ 52` at most. -/
theorem format_fixed_integer (x : Float) (n : ℤ) (places : ℕ) (finite : x.isFinite = true)
    (whole : value x = n) (small : |n| < 2 ^ 53) :
    (places = 0 →
      fixed.format places x = (if Even n ∨ |n| ≤ 2 ^ 52 then n else n + 1).repr) ∧
    (0 < places →
      (|n| * 5 ^ places ≤ 2 ^ 53 ∨ IsDouble (n * value (tenTo (min places maxPlaces : ℕ))) ∨
          NoCarry n (value (tenTo (min places maxPlaces : ℕ))) →
        fixed.format places x = n.repr) ∧
      ∃ y : Float, y.isFinite = true ∧ |value y - n| ≤ |(n : ℚ)| / 2 ^ 52 ∧
        fixed.format places x = shortest y ∧ (shortest y = n.repr ↔ value y = n)) := by
  have few : min places maxPlaces ≤ maxPlaces := min_le_right _ _
  have finite' := isFinite_atPlaces finite few
  have shown : fixed.format places x = shortest (atPlaces x (min places maxPlaces)) :=
    (format_of_isFinite finite).trans (fixed_eq x _)
  constructor
  · rintro rfl
    have moved : |if Even n ∨ |n| ≤ 2 ^ 52 then n else n + 1| ≤ 2 ^ 53 := abs_moved_le small
    rw [shown]
    exact shortest_integer finite' (value_atPlaces_zero finite whole small) moved
  · intro pos
    have pos' : 0 < min places maxPlaces := lt_min pos (by decide)
    refine ⟨fun kept => ?_, _, finite', abs_atPlaces_sub_le finite whole small pos' few, shown,
      shortest_eq_repr_iff finite whole small.le finite'⟩
    rw [shown]
    refine shortest_integer finite' ?_ small.le
    exact value_atPlaces_kept finite whole small pos' few
      (kept.elim (fun short => .inl (isDouble_scaled short)) id)

theorem format_fixed_integer_tenPlaces :
    (-12000 : Float).isFinite = true ∧ value (-12000) = (-12000 : ℤ) ∧
      |(-12000 : ℤ)| * 5 ^ 10 ≤ 2 ^ 53 ∧ fixed.format 10 (-12000) = "-12000" ∧
      (4503599627370497 : Float).isFinite = true ∧
      value 4503599627370497 = (4503599627370497 : ℤ) ∧
      fixed.format 0 4503599627370497 = "4503599627370498" := by
  have finite : (-12000 : Float).isFinite = true := by decide
  have whole : value (-12000) = (-12000 : ℤ) := by
    rw [value_of_decode (by decide : decode (-12000) = some ⟨true, 12000 * 2 ^ 39, -39⟩)]
    norm_num [Exact.value, Exact.magnitude]
  have short : |(-12000 : ℤ)| * 5 ^ 10 ≤ 2 ^ 53 := by decide
  have finite' : (4503599627370497 : Float).isFinite = true := by decide
  have whole' : value 4503599627370497 = (4503599627370497 : ℤ) := by
    rw [value_of_decode (by decide : decode 4503599627370497 = some ⟨false, 2 ^ 52 + 1, 0⟩)]
    norm_num [Exact.value, Exact.magnitude]
  have large : ¬(Even (4503599627370497 : ℤ) ∨ |(4503599627370497 : ℤ)| ≤ 2 ^ 52) := by decide
  have moved := (format_fixed_integer 4503599627370497 4503599627370497 0 finite' whole'
    (by decide)).1 rfl
  rw [if_neg large] at moved
  exact ⟨finite, whole, short,
    ((format_fixed_integer (-12000) (-12000) 10 finite whole (by decide)).2 (by norm_num)).1
      (.inl short),
    finite', whole', moved⟩

/-- An integer of 30 bits is shown with a fraction at ten places, and without places an integer of 53
bits is shown as the next one. -/
theorem format_fixed_besides_integer :
    (922337205 : Float).isFinite = true ∧ value 922337205 = (922337205 : ℤ) ∧
      fixed.format 10 922337205 = "922337204.9999999" ∧
      value 4503599627370497 = (4503599627370497 : ℤ) ∧
      fixed.format 0 4503599627370497 ≠ "4503599627370497" := by
  refine ⟨?_, ?_, ?_, ?_, ?_⟩ <;> decide +kernel

end Reckoner.DisplayMode
