import Reckoner.Proofs.Binary.Compare
import Reckoner.Proofs.Binary.Integral
import Reckoner.Proofs.Radix.Numeral
import Reckoner.Proofs.Scan.Characters

/-! Integers written in a radix and read back. What is written for an integer is its one spelling,
which reads as the same integer. What is read, written again, is that spelling, from where writing
and reading change nothing more. -/
namespace Reckoner.Radix

open Binary

def IsSpelling (radix : ℕ) (m : ℤ) (text : String) : Prop :=
  ∃ cs, text.toList = (if m < 0 then ['-'] else []) ++ cs ∧ IsCanonical radix cs m.natAbs

section

variable {radix : ℕ} {x : Float} {m : ℤ} {text : String}

theorem trimmed_of_notBlank {cs : List Char} (notBlank : ∀ c ∈ cs, Text.isBlank c = false) :
    Text.trimmed cs = cs := by
  have kept {cs : List Char} (notBlank : ∀ c ∈ cs, Text.isBlank c = false) :
      cs.dropWhile Text.isBlank = cs := by
    cases cs with
    | nil => rfl
    | cons c cs => rw [List.dropWhile_cons, notBlank c (.head _), if_neg Bool.false_ne_true]
  rw [Text.trimmed, kept notBlank, kept fun c member => notBlank c (List.mem_reverse.mp member),
    List.reverse_reverse]

theorem IsSpelling.trimmed (most : radix ≤ 16) (spelling : IsSpelling radix m text) :
    Text.trimmed text.toList = text.toList := by
  obtain ⟨cs, split, canonical⟩ := spelling
  refine trimmed_of_notBlank fun c member => ?_
  rw [split, List.mem_append] at member
  rcases member with sign | digit
  · split at sign
    · rw [List.mem_singleton.mp sign]
      decide
    · cases sign
  · obtain ⟨d, isDigit⟩ := canonical.spells.isDigit c digit
    have bounds := isDigit.toNat_bounds most
    rw [Bool.eq_false_iff]
    intro blank
    have outside := Scan.toNat_of_isBlank blank
    omega

theorem IsSpelling.isNumeral (most : radix ≤ 16) (word : m.natAbs < 2 ^ 64)
    (spelling : IsSpelling radix m text) :
    IsNumeral radix [] (Text.trimmed text.toList) (decide (m < 0)) m.natAbs := by
  rw [spelling.trimmed most]
  obtain ⟨cs, split, canonical⟩ := spelling
  refine ⟨if m < 0 then ['-'] else [], [], cs, ?_, .none, split, canonical.spells, word⟩
  by_cases negative : m < 0
  · rw [if_pos negative, decide_eq_true negative]
    exact .minus
  · rw [if_neg negative, decide_eq_false negative]
    exact .none

theorem abs_lt_iff {k : ℕ} : |m| < 2 ^ k ↔ m.natAbs < Nat.pow 2 k := by
  change |m| < 2 ^ k ↔ m.natAbs < 2 ^ k
  rw [Int.abs_eq_natAbs]
  exact_mod_cast Iff.rfl

theorem one_lt_of_mem (supported : radix ∈ [2, 8, 10, 16]) : 1 < radix := by
  simp only [List.mem_cons, List.not_mem_nil, or_false] at supported
  omega

/-- An integer is written as its spelling and nothing else. -/
theorem toBase_eq_ok_iff (supported : radix ∈ [2, 8, 10, 16]) (finite : x.isFinite = true)
    (whole : value x = m) (small : |m| < 2 ^ 63) :
    toBase x radix = .ok text ↔ IsSpelling radix m text := by
  have fits : m.natAbs < Nat.pow 2 63 := abs_lt_iff.mp small
  rw [toBase, checkRadix_of_mem supported, ok_bind, integer_of_value finite whole]
  simp only [if_pos fits, Except.ok.injEq]
  have canonical {cs : List Char} :
      IsCanonical radix cs m.natAbs ↔ cs = digits radix m.natAbs :=
    isCanonical_iff (one_lt_of_mem supported) (le_sixteen supported)
  constructor
  · rintro rfl
    exact ⟨digits radix m.natAbs, String.toList_ofList, canonical.mpr rfl⟩
  · rintro ⟨cs, split, isCanonical⟩
    rw [← canonical.mp isCanonical, ← split, String.ofList_toList]

theorem toBase_of_value (supported : radix ∈ [2, 8, 10, 16]) (finite : x.isFinite = true)
    (whole : value x = m) (small : |m| < 2 ^ 63) :
    ∃ t, toBase x radix = .ok t ∧ IsSpelling radix m t := by
  have spelling : IsSpelling radix m
      (String.ofList ((if m < 0 then ['-'] else []) ++ digits radix m.natAbs)) :=
    ⟨_, String.toList_ofList, isCanonical_digits (one_lt_of_mem supported)
      (le_sixteen supported) _⟩
  exact ⟨_, (toBase_eq_ok_iff supported finite whole small).mpr spelling, spelling⟩

theorem toBase_of_not_integer (supported : radix ∈ [2, 8, 10, 16])
    (none : ¬∃ m : ℤ, x.isFinite = true ∧ value x = m ∧ |m| < 2 ^ 63) :
    toBase x radix = .error (.domain (.notAnInteger x)) := by
  rw [toBase, checkRadix_of_mem supported, ok_bind]
  by_cases finite : x.isFinite = true
  · by_cases whole : value x = ⌊value x⌋
    · have large : ¬⌊value x⌋.natAbs < Nat.pow 2 63 := fun fits =>
        none ⟨⌊value x⌋, finite, whole, abs_lt_iff.mpr fits⟩
      rw [integer_of_value finite whole]
      exact if_neg large
    · rw [integer_of_fraction whole]
  · rw [integer_of_infinite (Bool.eq_false_iff.mpr finite)]

/-- The spelling of an integer that needs no rounding reads as that integer. -/
theorem fromBase_of_isSpelling (supported : radix ∈ [2, 8, 10, 16]) (small : |m| < 2 ^ 63)
    (kept : rounded (m.natAbs : ℚ) = m.natAbs) (spelling : IsSpelling radix m text) :
    ∃ y, fromBase text radix = .ok y ∧ y.isFinite = true ∧ value y = m := by
  have word : m.natAbs < 2 ^ 64 :=
    (abs_lt_iff.mp small).trans (Nat.pow_lt_pow_right (by decide) (by decide))
  have rounding := isSignedRounding_nearest (decide (m < 0)) word
  have numeral := spelling.isNumeral (le_sixteen supported) word
  obtain ⟨finite, value⟩ := rounding.value
  refine ⟨_, (fromBase_eq_ok_iff supported).mpr ⟨[], _, _, .inl rfl, numeral, rounding⟩, finite, ?_⟩
  rw [value, kept, Nat.cast_natAbs, Int.cast_abs]
  by_cases negative : m < 0
  · rw [if_pos (decide_eq_true negative), abs_of_neg (by exact_mod_cast negative), neg_neg]
  · rw [if_neg (by simpa using negative), abs_of_nonneg (by exact_mod_cast not_lt.mp negative)]

/-- The magnitude of an integer that is a double needs no rounding. -/
theorem rounded_natAbs (whole : value x = m) : rounded (m.natAbs : ℚ) = m.natAbs := by
  have magnitude : ((m.natAbs : ℕ) : ℚ) = |value x| := by
    rw [whole, Nat.cast_natAbs, Int.cast_abs]
  rw [magnitude]
  exact rounded_of_isDouble (isDouble_value x).abs

/-- What is read with a magnitude below `2 ^ 53` was not rounded. -/
theorem value_of_small {negative : Bool} {n : ℕ} (rounding : IsSignedRounding negative n x)
    (small : |value x| < 2 ^ 53) :
    n < 2 ^ 53 ∧ value x = ((if negative then -n else n : ℤ) : ℚ) := by
  obtain ⟨finite, same⟩ := rounding.value
  have magnitude : |value x| = rounded n := by
    rw [same]
    cases negative with
    | false => exact abs_of_nonneg (rounded_natCast_nonneg n)
    | true =>
      rw [if_pos rfl, abs_neg]
      exact abs_of_nonneg (rounded_natCast_nonneg n)
  have below : n < 2 ^ 53 := by
    by_contra large
    have reached : (2 : ℚ) ^ (53 : ℤ) ≤ |(n : ℚ)| := by
      rw [abs_of_nonneg (Nat.cast_nonneg n)]
      exact_mod_cast not_lt.mp large
    have least := le_abs_rounded (isDouble_two_zpow (by norm_num)) reached
    rw [abs_of_nonneg (rounded_natCast_nonneg n), ← magnitude] at least
    exact absurd (least.trans_lt small) (by norm_num)
  have kept : rounded (n : ℚ) = n := by
    have double : IsDouble ((n : ℤ) : ℚ) := isDouble_intCast (by
      rw [abs_of_nonneg (Int.natCast_nonneg n)]
      exact_mod_cast below.le)
    exact_mod_cast rounded_of_isDouble double
  refine ⟨below, ?_⟩
  rw [same, kept]
  cases negative <;> simp

/-- Written and read, an integer stays as it is. Read and written, a text becomes the spelling of
its integer. What is not an integer below `2 ^ 63` in magnitude is not written. -/
theorem toBase_fromBase (supported : radix ∈ [2, 8, 10, 16]) :
    (∀ (x : Float) (m : ℤ), x.isFinite = true → value x = m → |m| < 2 ^ 63 →
      ∃ t y, toBase x radix = .ok t ∧ IsSpelling radix m t ∧ fromBase t radix = .ok y ∧
        (y == x) = true) ∧
      (∀ (text : String) (x : Float), fromBase text radix = .ok x → |value x| < 2 ^ 53 →
        ∃ extra negative n t y, (extra = [] ∨ extra = ['+']) ∧
          IsNumeral radix extra (Text.trimmed text.toList) negative n ∧
          toBase x radix = .ok t ∧ IsSpelling radix (if negative then -n else n) t ∧
          fromBase t radix = .ok y ∧ toBase y radix = .ok t) ∧
      ∀ x : Float, (¬∃ m : ℤ, x.isFinite = true ∧ value x = m ∧ |m| < 2 ^ 63) →
        toBase x radix = .error (.domain (.notAnInteger x)) := by
  refine ⟨?_, ?_, fun x => toBase_of_not_integer supported⟩
  · intro x m finite whole small
    obtain ⟨t, written, spelling⟩ := toBase_of_value supported finite whole small
    obtain ⟨y, read, finite', same⟩ :=
      fromBase_of_isSpelling supported small (rounded_natAbs whole) spelling
    exact ⟨t, y, written, spelling, read, (beq_iff_value finite' finite).mpr (same.trans whole.symm)⟩
  · intro text x read below
    obtain ⟨extra, negative, n, shape, numeral, rounding⟩ := (fromBase_eq_ok_iff supported).mp read
    obtain ⟨less, whole⟩ := value_of_small rounding below
    have small : |(if negative then -n else n : ℤ)| < 2 ^ 63 := by
      cases negative <;> simp <;> omega
    obtain ⟨t, written, spelling⟩ := toBase_of_value supported rounding.value.1 whole small
    obtain ⟨y, again, finite', same⟩ :=
      fromBase_of_isSpelling supported small (rounded_natAbs whole) spelling
    exact ⟨extra, negative, n, t, y, shape, numeral, written, spelling, again,
      (toBase_eq_ok_iff supported finite' same small).mpr spelling⟩

end

theorem value_minusTwoFiftyFive : (-255 : Float).isFinite = true ∧ value (-255) = (-255 : ℤ) := by
  have decoded : decode (-255) = some ⟨true, 255 * 2 ^ 45, -45⟩ := by decide +kernel
  refine ⟨isFinite_of_decode decoded, ?_⟩
  rw [value_of_decode decoded]
  norm_num [Exact.value, Exact.magnitude]

theorem toBase_fromBase_sixteen :
    16 ∈ [2, 8, 10, 16] ∧
      (∃ t y, toBase (-255) 16 = .ok t ∧ IsSpelling 16 (-255) t ∧ fromBase t 16 = .ok y ∧
        (y == -255) = true) ∧
      ∃ extra negative n t y, (extra = [] ∨ extra = ['+']) ∧
        IsNumeral 16 extra (Text.trimmed " -0x0fF".toList) negative n ∧
        toBase (-255) 16 = .ok t ∧ IsSpelling 16 (if negative then -n else n) t ∧
        fromBase t 16 = .ok y ∧ toBase y 16 = .ok t := by
  have supported : 16 ∈ [2, 8, 10, 16] := by decide
  obtain ⟨finite, whole⟩ := value_minusTwoFiftyFive
  have read : fromBase " -0x0fF" 16 = .ok (-255) := by decide +kernel
  obtain ⟨written, reread, _⟩ := toBase_fromBase supported
  refine ⟨supported, written (-255) (-255) finite whole (by norm_num), ?_⟩
  exact reread " -0x0fF" (-255) read (by rw [whole]; norm_num)

end Reckoner.Radix
