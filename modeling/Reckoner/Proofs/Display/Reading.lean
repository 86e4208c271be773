import Reckoner.Display
import Reckoner.Proofs.Binary.Canonical
import Reckoner.Proofs.Decimal.Layout
import Reckoner.Proofs.Normal.Balance
import Reckoner.Proofs.Parse.Context
import Reckoner.Proofs.Render.Scan

/-! Reading a number that stands alone, as the display writes it: digits with or without a power of
ten, behind a minus or not. -/
namespace Reckoner

open Binary (IsRounding)
open Decimal (Scientific literal? signedPower)
open Paren

namespace Scan

section

variable {digits power : List Char} {y : Float}

/-- An `e` with a signed power of ten after it belongs to the literal. -/
theorem splitPower_signedPower (n : ℤ) :
    splitPower ('e' :: (signedPower n).toList) = ((signedPower n).toList, []) := by
  obtain ⟨sign, isSign, text⟩ : ∃ sign, (sign = '+' ∨ sign = '-') ∧
      (signedPower n).toList = sign :: n.natAbs.repr.toList := by
    unfold signedPower
    split
    · exact ⟨'-', .inr rfl, String.toList_append⟩
    · exact ⟨'+', .inl rfl, String.toList_append⟩
  rw [text]
  have all := Decimal.isDigits_repr n.natAbs
  have taken := List.takeWhile_eq_self_iff.mpr all
  have dropped := List.dropWhile_eq_nil_iff.mpr all
  have notEmpty := List.isEmpty_eq_false_iff.mpr (Decimal.repr_ne_nil n.natAbs)
  rcases isSign with rfl | rfl <;>
    simp only [splitPower, splitSign, taken, dropped, notEmpty, Bool.not_false, Bool.and_true,
      beq_self_eq_true, Bool.true_or, if_true, List.singleton_append]

theorem tokens_literal (all : ∀ c ∈ digits, isLiteral c = true)
    (read : literal? digits [] = some y) : tokens digits = .ok [.number y] := by
  have scanned := @tokens_number digits [] y all read (by intro c first; cases first)
  rw [List.append_nil, tokens_nil] at scanned
  exact scanned

theorem tokens_literal_power (all : ∀ c ∈ digits, isLiteral c = true) {n : ℤ}
    (read : literal? digits (signedPower n).toList = some y) :
    tokens (digits ++ 'e' :: (signedPower n).toList) = .ok [.number y] := by
  rcases digits with _ | ⟨c, cs⟩
  · cases read
  have first := all c (.head _)
  have stop : ∀ c ∈ ('e' :: (signedPower n).toList).head?, isLiteral c = false := by
    intro c first
    cases first
    rfl
  have number : lexeme c (cs ++ 'e' :: (signedPower n).toList) = .ok (.number y, []) := by
    simp only [lexeme, first, if_true, numeral, ← List.cons_append,
      takeWhile_append_of_stop stop all, dropWhile_append_of_stop stop all,
      splitPower_signedPower, read]
  have scanned := tokens_of_lexeme (isLiteral_notBlank first) number
  rw [tokens_nil] at scanned
  exact scanned

end

end Scan

section

variable {text : String} {y : Float} {angle : AngleMode} {policy : ParenPolicy}

theorem evaluateText_number (scanned : tokenize text = .ok [.number y]) :
    evaluateText text {} angle policy = .ok y := by
  have balanced : depthAfter 0 (textParens text.toList) = some 0 := by
    rw [← Normal.depthAfter_tokenize id {} none scanned]
    rfl
  have read : parse [.number y] = .ok (.number y) := by cbv
  rw [evaluateText, normalize, normalizeWith_of_balanced balanced scanned, ok_bind]
  exact evaluateTokens_eq_ok_iff.mpr ⟨_, _, read, rfl, rfl⟩

theorem evaluateText_minus (scanned : tokenize text = .ok [.mark .minus, .number y]) :
    evaluateText text {} angle policy = .ok (-y) := by
  have balanced : depthAfter 0 (textParens text.toList) = some 0 := by
    rw [← Normal.depthAfter_tokenize id {} none scanned]
    rfl
  have read : parse [.mark .minus, .number y] = .ok (.unary '-' (.number y)) := by cbv
  rw [evaluateText, normalize, normalizeWith_of_balanced balanced scanned, ok_bind]
  exact evaluateTokens_eq_ok_iff.mpr ⟨_, _, read, rfl, rfl⟩

/-- A literal that is read as a number, with a minus before it or without, has the number as its
value. -/
theorem evaluateText_signed (scanned : tokenize text = .ok [.number y]) (negative : Bool) :
    evaluateText ((if negative then "-" else "") ++ text) {} angle policy =
      .ok (if negative then -y else y) := by
  cases negative with
  | false =>
    change evaluateText ("" ++ text) {} angle policy = _
    rw [String.empty_append]
    exact evaluateText_number scanned
  | true =>
    refine evaluateText_minus ?_
    rw [tokenize, if_pos rfl, String.toList_append]
    change Scan.tokens ('-' :: text.toList) = _
    rw [tokenize] at scanned
    rw [Scan.tokens_sign Scan.isSign_minus (by decide), scanned]
    rfl

def readAs (negative : Bool) (d : Scientific) : Float :=
  if negative then -Decimal.nearest d.digits d.exponent else Decimal.nearest d.digits d.exponent

theorem isRounding_readAs (negative : Bool) (d : Scientific) :
    IsRounding (if negative then -d.toRat else d.toRat) (readAs negative d) :=
  (Decimal.isRounding_nearest d.digits d.exponent).withSign negative

variable (angle policy)

/-- Positional text is read as the double nearest to the number. -/
theorem evaluateText_positional (d : Scientific) (negative : Bool) :
    ∃ z, evaluateText ((if negative then "-" else "") ++ d.positional) {} angle policy = .ok z ∧
      IsRounding (if negative then -d.toRat else d.toRat) z := by
  obtain ⟨y, read, rounding⟩ := Decimal.literal_positional d
  have scanned : tokenize d.positional = .ok [.number y] :=
    Scan.tokens_literal (Decimal.isLiteral_positional d) read
  exact ⟨_, evaluateText_signed scanned negative, rounding.withSign negative⟩

/-- Text with a power of ten is read as the double nearest to the number. -/
theorem evaluateText_withPower (d : Scientific) (places : ℕ) (negative : Bool) :
    evaluateText ((if negative then "-" else "") ++ d.withPower signedPower places) {} angle
      policy = .ok (readAs negative d) := by
  refine evaluateText_signed ?_ negative
  have literal := Decimal.isLiteral_pointed (Decimal.isLiteral_repr d.digits) places
  have read := Decimal.literal_pointed d.digits places (signedPower (d.exponent + places)).toList
  rw [Decimal.powerOfTen_signedPower, add_sub_cancel_right] at read
  rw [tokenize, Scientific.withPower, String.append_assoc, String.toList_append,
    String.toList_append]
  exact Scan.tokens_literal_power literal read

end

end Reckoner
