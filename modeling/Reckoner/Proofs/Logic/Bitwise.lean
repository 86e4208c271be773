import Reckoner.Proofs.Binary.Integral
import Reckoner.Proofs.Logic.Words
import Reckoner.Proofs.Result

/-! Bitwise logic on doubles. The operation on the integer parts is exact, but its result is an
integer of 64 bits, which is rounded to a double. Nothing is lost where that integer is a double,
and the result is an operand again unless it reaches `2 ^ 63`. So the laws that go through an
intermediate result hold as long as that result is one of these. -/
namespace Reckoner.Binary

section

variable {q : ℚ}

/-- The doubles from `2 ^ 62` on are the multiples of 1024. -/
theorem quantum_below_two_pow_63 (large : 2 ^ 62 ≤ q) (below : q < 2 ^ 63) : quantum q = 10 := by
  have positive : 0 < q := lt_of_lt_of_le (by norm_num) large
  apply quantum_eq (by norm_num) _ _ positive.ne'
  · rw [abs_of_pos positive]
    norm_num
    linarith
  · right
    rw [abs_of_pos positive]
    norm_num
    linarith

theorem IsDouble.le_of_lt_two_pow_63 (double : IsDouble q) (below : q < 2 ^ 63) :
    q ≤ 2 ^ 63 - 1024 := by
  by_cases large : 2 ^ 62 ≤ q
  · have kept := rounded_of_isDouble double
    rw [rounded, quantum_below_two_pow_63 large below] at kept
    obtain ⟨k, count⟩ : ∃ k : ℤ, k = nearestEven (q / 2 ^ (10 : ℤ)) := ⟨_, rfl⟩
    rw [← count] at kept
    norm_num at kept
    have inside : k < 2 ^ 53 := by
      have bound : (k : ℚ) < 2 ^ 53 := by linarith
      exact_mod_cast bound
    have step : (k : ℚ) ≤ 2 ^ 53 - 1 := by exact_mod_cast Int.le_sub_one_of_lt inside
    linarith
  · linarith

/-- The number halfway to `2 ^ 63` is rounded up to it. -/
theorem rounded_lt_two_pow_63_iff : rounded q < 2 ^ 63 ↔ q < 2 ^ 63 - 512 := by
  constructor
  · intro below
    by_contra above
    have tie : rounded (2 ^ 63 - 512) = 2 ^ 63 := by
      have even : IsNearest ((2 ^ 63 - 512) / 2 ^ (10 : ℤ)) (2 ^ 53) := by
        constructor
        · norm_num
        · intro
          decide
      rw [rounded, quantum_below_two_pow_63 (by norm_num) (by norm_num), even.eq]
      norm_num
    have kept := rounded_mono (not_lt.mp above)
    rw [tie] at kept
    exact absurd below (not_lt.mpr kept)
  · intro below
    have last : IsDouble (2 ^ 63 - 1024) := ⟨2 ^ 53 - 1, 10, by norm_num, by norm_num, by norm_num⟩
    rcases le_or_gt q (2 ^ 63 - 1024) with low | high
    · have kept := rounded_mono low
      rw [rounded_of_isDouble last] at kept
      linarith
    · have near := (le_abs_self _).trans (abs_rounded_sub_le q last)
      rw [abs_of_neg (by linarith)] at near
      linarith

end

end Reckoner.Binary

namespace Reckoner.LogicOp

open Binary

def IsOperand (x : Float) : Prop := x.isFinite = true ∧ |value x| < 2 ^ 63

/-- Whether a double is what becomes of an integer: the nearest double, which is that integer only
if the integer is a double itself. The greatest integers are rounded to a number that is no operand.
-/
structure IsResult (n : ℤ) (y : Float) : Prop where
  finite : y.isFinite = true
  nearest : value y = rounded n
  exact_iff : value y = n ↔ IsDouble n
  operand_iff : IsOperand y ↔ |n| < 2 ^ 63 - 512

section

variable {n : ℤ} {x y a b : Float} {v : Exact} {op : LogicOp} {w : BitVec 64}

theorem isResult_ofInt (word : |n| ≤ 2 ^ 63) : IsResult n (ofInt n) := by
  have rounding : IsRounding n (ofInt n) := by
    have result := isRounding_nearest ⟨decide (n < 0), n.natAbs, 0⟩
    have whole := Exact.value_whole n (decide (n < 0))
    rw [ite_self] at whole
    rwa [whole] at result
  have range : |rounded n| ≤ 2 ^ 63 := by
    have largest := isDouble_two_zpow (by norm_num : (-1074 : ℤ) ≤ 63)
    exact_mod_cast abs_rounded_le largest (by exact_mod_cast word)
  have finite := rounding.isFinite (range.trans_lt (pow_lt_pow_right₀ one_lt_two (by norm_num)))
  have nearest := rounding.value finite
  refine ⟨finite, nearest, ⟨fun same => ?_, fun double => ?_⟩, ?_⟩
  · rw [← same]
    exact isDouble_value _
  · rw [nearest, rounded_of_isDouble double]
  · rw [IsOperand, finite, nearest, abs_rounded, rounded_lt_two_pow_63_iff]
    simp only [true_and]
    norm_cast

theorem isOperand_iff : IsOperand x ↔ x.isFinite = true ∧ |integerPart x| < 2 ^ 63 := by
  rw [IsOperand, abs_integerPart, Int.floor_lt]
  norm_cast

theorem truncate_of_decode (decoded : decode x = some v) :
    v.truncate = integerPart x ∧ (IsOperand x ↔ v.truncate.natAbs < Nat.pow 2 63) := by
  have same : v.truncate = integerPart x := by
    rw [Exact.truncate_eq, integerPart, value_of_decode decoded]
  rw [same, isOperand_iff, Int.abs_eq_natAbs]
  have power : ((Nat.pow 2 63 : ℕ) : ℤ) = 2 ^ 63 := by norm_num
  simp only [isFinite_of_decode decoded, true_and]
  omega

/-- The integer part of an operand is not near enough to `2 ^ 63` for its complement to be rounded
up to it. -/
theorem IsOperand.abs_lnot_lt (h : IsOperand x) : |Int.lnot (integerPart x)| < 2 ^ 63 - 512 := by
  have double := (isDouble_integerPart x).abs
  have below : |(integerPart x : ℚ)| < 2 ^ 63 := by exact_mod_cast (isOperand_iff.mp h).2
  have bound : |integerPart x| ≤ 2 ^ 63 - 1024 := by exact_mod_cast double.le_of_lt_two_pow_63 below
  rw [lnot_eq, abs_lt]
  rw [abs_le] at bound
  omega

def word (x : Float) : BitVec 64 := BitVec.ofInt 64 (integerPart x)

theorem toWord_of_isOperand (h : IsOperand x) : toWord x = .ok (word x) := by
  obtain ⟨v, decoded⟩ := decode_of_isFinite h.1
  obtain ⟨same, taken⟩ := truncate_of_decode decoded
  simp only [toWord, decoded]
  rw [if_pos (taken.mp h), same, word]

/-- Any number that is no operand is rejected. -/
theorem toWord_of_not_isOperand (h : ¬IsOperand x) : toWord x = .error (.domain (.notAWord x)) := by
  cases decoded : decode x with
  | none => simp only [toWord, decoded]
  | some v =>
    simp only [toWord, decoded]
    exact if_neg (mt (truncate_of_decode decoded).2.mpr h)

theorem toInt_word (h : IsOperand x) : (word x).toInt = integerPart x := by
  obtain ⟨low, high⟩ := abs_lt.mp (isOperand_iff.mp h).2
  exact BitVec.toInt_ofInt_eq_self (by norm_num) low.le high

theorem toInt_onWords_word (ha : IsOperand a) (hb : IsOperand b) :
    (op.onWords (word a) (word b)).toInt =
      op.onIntegers (integerPart a) (integerPart b) := by
  rw [toInt_onWords, toInt_word ha, toInt_word hb]

theorem toInt_not_word (h : IsOperand x) : (~~~word x).toInt = Int.lnot (integerPart x) := by
  rw [toInt_not, toInt_word h]

theorem applyBitwise_eq (ha : IsOperand a) (hb : IsOperand b) :
    applyBitwise op a b = .ok (ofWord (op.onWords (word a) (word b))) := by
  rw [applyBitwise, toWord_of_isOperand ha, toWord_of_isOperand hb, ok_bind, ok_bind]

theorem isOperand_of_toWord (taken : toWord x = .ok w) : IsOperand x := by
  by_contra rejected
  rw [toWord_of_not_isOperand rejected] at taken
  cases taken

/-- Bitwise logic has a result on operands and on nothing else. -/
theorem applyBitwise_ok_iff : (∃ y, applyBitwise op a b = .ok y) ↔ IsOperand a ∧ IsOperand b := by
  constructor
  · rintro ⟨y, result⟩
    obtain ⟨u, left, result⟩ := bind_eq_ok.mp result
    obtain ⟨v, right, _⟩ := bind_eq_ok.mp result
    exact ⟨isOperand_of_toWord left, isOperand_of_toWord right⟩
  · rintro ⟨ha, hb⟩
    exact ⟨_, applyBitwise_eq ha hb⟩

theorem isResult_ofWord (w : BitVec 64) : IsResult w.toInt (ofWord w) := by
  apply isResult_ofInt
  rw [abs_le]
  exact ⟨w.le_toInt, w.toInt_lt.le⟩

/-- A word is read back from its double if that double is exact. -/
theorem word_ofWord (exact : IsDouble w.toInt) (range : |w.toInt| < 2 ^ 63) :
    IsOperand (ofWord w) ∧ word (ofWord w) = w := by
  have result := isResult_ofWord w
  have same := result.exact_iff.mpr exact
  constructor
  · refine ⟨result.finite, ?_⟩
    rw [same]
    exact_mod_cast range
  · rw [word, integerPart_of_value same, BitVec.ofInt_toInt]

theorem bitwiseNot_eq (h : IsOperand x) : bitwiseNot x = .ok (ofWord (~~~word x)) := by
  rw [bitwiseNot, toWord_of_isOperand h, ok_bind]

theorem bitwiseNot_ofWord (exact : IsDouble w.toInt) (range : |w.toInt| < 2 ^ 63) :
    bitwiseNot (ofWord w) = .ok (ofWord (~~~w)) := by
  obtain ⟨operand, same⟩ := word_ofWord exact range
  rw [bitwiseNot_eq operand, same]

theorem isResult_bitwiseNot (h : IsOperand x) :
    ∃ y, bitwiseNot x = .ok y ∧ IsResult (Int.lnot (integerPart x)) y ∧ IsOperand y := by
  have result := isResult_ofWord (~~~word x)
  rw [toInt_not_word h] at result
  exact ⟨_, bitwiseNot_eq h, result, result.operand_iff.mpr h.abs_lnot_lt⟩

/-- The complement of an operand, if it is exact, is an operand with the complement of its bits. -/
theorem word_of_bitwiseNot (h : IsOperand x) (exact : IsDouble (Int.lnot (integerPart x))) :
    IsOperand (ofWord (~~~word x)) ∧ word (ofWord (~~~word x)) = ~~~word x := by
  rw [← toInt_not_word h] at exact
  refine word_ofWord exact ?_
  rw [toInt_not_word h]
  exact h.abs_lnot_lt.trans (by norm_num)

theorem bitwiseNot_bitwiseNot (h : IsOperand x) (exact : IsDouble (Int.lnot (integerPart x))) :
    ∃ y, (bitwiseNot x >>= bitwiseNot) = .ok y ∧ y.isFinite = true ∧ value y = integerPart x := by
  obtain ⟨operand, same⟩ := word_of_bitwiseNot h exact
  have result := isResult_ofWord (word x)
  have twice : (bitwiseNot x >>= bitwiseNot) = .ok (ofWord (word x)) := by
    rw [bitwiseNot_eq h, ok_bind, bitwiseNot_eq operand, same, BitVec.not_not]
  refine ⟨_, twice, result.finite, ?_⟩
  rw [toInt_word h] at result
  exact result.exact_iff.mpr (isDouble_integerPart x)

theorem bitwiseNot_applyBitwise (ha : IsOperand a) (hb : IsOperand b)
    (exact : IsDouble (op.onIntegers (integerPart a) (integerPart b)))
    (range : |op.onIntegers (integerPart a) (integerPart b)| < 2 ^ 63) :
    (applyBitwise op a b >>= bitwiseNot) = applyBitwise op.opposite a b := by
  rw [← toInt_onWords_word ha hb] at exact range
  rw [applyBitwise_eq ha hb, ok_bind, bitwiseNot_ofWord exact range, not_onWords,
    applyBitwise_eq ha hb]

theorem applyBitwise_bitwiseNot (ha : IsOperand a) (hb : IsOperand b)
    (exact : IsDouble (Int.lnot (integerPart a))) (exact' : IsDouble (Int.lnot (integerPart b))) :
    (do applyBitwise op (← bitwiseNot a) (← bitwiseNot b)) =
      applyBitwise op.onComplements a b := by
  obtain ⟨left, same⟩ := word_of_bitwiseNot ha exact
  obtain ⟨right, same'⟩ := word_of_bitwiseNot hb exact'
  rw [bitwiseNot_eq ha, bitwiseNot_eq hb, ok_bind, ok_bind, applyBitwise_eq left right, same, same',
    onWords_not, applyBitwise_eq ha hb]

def IsShort (n : ℤ) : Prop := -2 ^ 53 ≤ n ∧ n < 2 ^ 53

theorem IsShort.exact (h : IsShort n) : IsDouble n ∧ |n| < 2 ^ 63 - 512 := by
  obtain ⟨low, high⟩ := h
  constructor
  · exact isDouble_intCast (abs_le.mpr ⟨low, high.le⟩)
  · rw [abs_lt]
    omega

theorem IsShort.lnot (h : IsShort n) : IsShort (Int.lnot n) := by
  rw [IsShort, lnot_eq]
  unfold IsShort at h
  omega

theorem IsShort.onIntegers {m : ℤ} (hm : IsShort m) (hn : IsShort n) (op : LogicOp) :
    IsShort (op.onIntegers m n) := bitwise_bounds hm hn

/-- Bitwise logic takes the operation on the integer parts to the nearest double, and rejects any
number that is no operand. The laws for complements hold as long as no intermediate result is rounded
or has the magnitude `2 ^ 63`. On integers of 53 bits and a sign none is. -/
theorem bitwise_nearest (a b : Float) (ha : IsOperand a) (hb : IsOperand b) :
    (∀ op, ∃ y, applyBitwise op a b = .ok y ∧
      IsResult (op.onIntegers (integerPart a) (integerPart b)) y) ∧
    (∃ y, bitwiseNot a = .ok y ∧ IsResult (Int.lnot (integerPart a)) y ∧ IsOperand y) ∧
    (IsDouble (Int.lnot (integerPart a)) →
      ∃ y, (bitwiseNot a >>= bitwiseNot) = .ok y ∧ y.isFinite = true ∧
        value y = integerPart a) ∧
    (∀ op, IsDouble (op.onIntegers (integerPart a) (integerPart b)) →
      |op.onIntegers (integerPart a) (integerPart b)| < 2 ^ 63 →
      (applyBitwise op a b >>= bitwiseNot) = applyBitwise op.opposite a b) ∧
    (∀ op, IsDouble (Int.lnot (integerPart a)) → IsDouble (Int.lnot (integerPart b)) →
      (do applyBitwise op (← bitwiseNot a) (← bitwiseNot b)) =
        applyBitwise op.onComplements a b) ∧
    (IsShort (integerPart a) → IsShort (integerPart b) →
      IsDouble (Int.lnot (integerPart a)) ∧ IsDouble (Int.lnot (integerPart b)) ∧
      ∀ op : LogicOp, IsDouble (op.onIntegers (integerPart a) (integerPart b)) ∧
        |op.onIntegers (integerPart a) (integerPart b)| < 2 ^ 63 - 512) ∧
    ∀ (op : LogicOp) (c d : Float),
      (∃ y, applyBitwise op c d = .ok y) ↔ IsOperand c ∧ IsOperand d := by
  refine ⟨?_, isResult_bitwiseNot ha, bitwiseNot_bitwiseNot ha, ?_, ?_, ?_,
    fun _ _ _ => applyBitwise_ok_iff⟩
  · intro op
    have result := isResult_ofWord (op.onWords (word a) (word b))
    rw [toInt_onWords_word ha hb] at result
    exact ⟨_, applyBitwise_eq ha hb, result⟩
  · intro op
    exact bitwiseNot_applyBitwise ha hb
  · intro op
    exact applyBitwise_bitwiseNot ha hb
  · intro short short'
    refine ⟨short.lnot.exact.1, short'.lnot.exact.1, ?_⟩
    intro op
    exact (short.onIntegers short' op).exact

def Holds (x : Float) (n : ℤ) : Prop := IsOperand x ∧ integerPart x = n

theorem holds_of_value (finite : x.isFinite = true) (whole : value x = n) (range : |n| < 2 ^ 63) :
    Holds x n := by
  refine ⟨⟨finite, ?_⟩, integerPart_of_value whole⟩
  rw [whole]
  exact_mod_cast range

theorem Holds.bitwiseNot (h : Holds x n) :
    bitwiseNot x = .ok (ofWord (~~~BitVec.ofInt 64 n)) := by
  rw [bitwiseNot_eq h.1, word, h.2]

theorem Holds.applyBitwise {m : ℤ} (ha : Holds a m) (hb : Holds b n) :
    applyBitwise op a b = .ok (ofWord (op.onWords (.ofInt 64 m) (.ofInt 64 n))) := by
  rw [applyBitwise_eq ha.1 hb.1, word, word, ha.2, hb.2]

theorem bitwise_nearest_twelveAndTen :
    IsOperand 12 ∧ IsOperand 10 ∧ IsShort (integerPart 12) ∧ IsShort (integerPart 10) ∧
      (∃ y, applyBitwise .and 12 10 = .ok y ∧ IsResult 8 y) ∧
      (∃ y, bitwiseNot 12 = .ok y ∧ IsResult (-13) y) ∧
      (∃ y, (bitwiseNot 12 >>= bitwiseNot) = .ok y ∧ value y = 12) ∧
      (applyBitwise .and 12 10 >>= bitwiseNot) = applyBitwise .nand 12 10 ∧
      (do applyBitwise .or (← bitwiseNot 12) (← bitwiseNot 10)) = applyBitwise .nand 12 10 ∧
      ¬∃ y, applyBitwise .and 12 nan = .ok y := by
  obtain ⟨twelve, part⟩ := holds_of_value (x := 12) (n := 12) (by decide +kernel)
    (by decide +kernel) (by decide)
  obtain ⟨ten, part'⟩ := holds_of_value (x := 10) (n := 10) (by decide +kernel)
    (by decide +kernel) (by decide)
  have short : IsShort (integerPart 12) := by
    rw [part, IsShort]
    norm_num
  have short' : IsShort (integerPart 10) := by
    rw [part', IsShort]
    norm_num
  obtain ⟨results, ⟨y, flipped, below, _⟩, twice, opposites, complements, exact, taken⟩ :=
    bitwise_nearest 12 10 twelve ten
  obtain ⟨left, right, kept⟩ := exact short short'
  obtain ⟨z, both, eight⟩ := results .and
  obtain ⟨u, again, _, same⟩ := twice left
  have whole : LogicOp.and.onIntegers (integerPart 12) (integerPart 10) = 8 := by
    rw [part, part']
    decide +kernel
  have complement : Int.lnot (integerPart 12) = -13 := by rw [part, lnot_eq]; rfl
  have rejected : ¬IsOperand nan := fun operand => absurd operand.1 (by decide)
  rw [whole] at eight
  rw [complement] at below
  rw [part] at same
  exact ⟨twelve, ten, short, short', ⟨z, both, eight⟩, ⟨y, flipped, below⟩,
    ⟨u, again, by exact_mod_cast same⟩,
    opposites .and (kept .and).1 ((kept .and).2.trans (by norm_num)), complements .or left right,
    fun result => rejected ((taken .and 12 nan).mp result).2⟩

/-- A result of 54 bits is rounded, and what is computed from it is off. The least word is a double,
but no operand. -/
theorem applyBitwise_rounds :
    Holds 9007199254740992 9007199254740992 ∧ Holds 1 1 ∧
      LogicOp.or.onIntegers 9007199254740992 1 = 9007199254740993 ∧
      applyBitwise .or 9007199254740992 1 = .ok 9007199254740992 ∧
      (bitwiseNot 9007199254740992 >>= bitwiseNot) = .ok 9007199254740991 ∧
      (applyBitwise .or 9007199254740992 1 >>= bitwiseNot) = .ok (-9007199254740992) ∧
      applyBitwise .nor 9007199254740992 1 = .ok (-9007199254740994) ∧
      Holds (-9223372036854774784) (-9223372036854774784) ∧
      Holds (-9223372036854773760) (-9223372036854773760) ∧
      applyBitwise .and (-9223372036854774784) (-9223372036854773760) =
        .ok (-9223372036854775808) ∧
      ¬IsOperand (-9223372036854775808) := by
  have large : Holds 9007199254740992 9007199254740992 :=
    holds_of_value (by decide +kernel) (by decide +kernel) (by decide)
  have one : Holds 1 1 := holds_of_value (by decide +kernel) (by decide +kernel) (by decide)
  have negative : Holds (-9007199254740992) (-9007199254740992) :=
    holds_of_value (by decide +kernel) (by decide +kernel) (by decide)
  have low : Holds (-9223372036854774784) (-9223372036854774784) :=
    holds_of_value (by decide +kernel) (by decide +kernel) (by decide)
  have next : Holds (-9223372036854773760) (-9223372036854773760) :=
    holds_of_value (by decide +kernel) (by decide +kernel) (by decide)
  have either : applyBitwise .or 9007199254740992 1 = .ok 9007199254740992 := by
    rw [large.applyBitwise one]
    exact congrArg Except.ok (by decide +kernel)
  have flipped : bitwiseNot 9007199254740992 = .ok (-9007199254740992) := by
    rw [large.bitwiseNot]
    exact congrArg Except.ok (by decide +kernel)
  refine ⟨large, one, by decide +kernel, either, ?_, ?_, ?_, low, next, ?_, ?_⟩
  · rw [flipped, ok_bind, negative.bitwiseNot]
    exact congrArg Except.ok (by decide +kernel)
  · rw [either, ok_bind, flipped]
  · rw [large.applyBitwise one]
    exact congrArg Except.ok (by decide +kernel)
  · rw [low.applyBitwise next]
    exact congrArg Except.ok (by decide +kernel)
  · have least : value (-9223372036854775808) = -2 ^ 63 := by decide +kernel
    rintro ⟨_, range⟩
    rw [least] at range
    norm_num at range

end

end Reckoner.LogicOp
