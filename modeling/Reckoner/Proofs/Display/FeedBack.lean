import Reckoner.Proofs.Display.Engineering
import Reckoner.Proofs.Display.FixedPlaces
import Reckoner.Proofs.Display.Scientific

/-! Results that are shown, read back and shown again. -/
namespace Reckoner

open Arithmetic (tenTo)
open Binary
open Decimal (significant)
open Display

namespace DisplayMode

/-- Whether the text is that of a number. The mantissa of an engineering text is a quotient, which
can be infinite. -/
def IsWritten (mode : DisplayMode) (x : Float) : Prop :=
  match mode with
  | .fixed => True
  | .scientific => True
  | .engineering => (x == 0) = true ∨ (x / tenTo (engineeringPower x)).isFinite = true

/-- Whether a number `y` that the text of `x` is read back as is sure to be shown by that text: its
rounding must not step over to another number of units, and it must keep the power of ten. -/
def Settles (mode : DisplayMode) (places : ℕ) (x y : Float) : Prop :=
  match mode with
  | .fixed =>
    9007199254740992.0 ≤ x.abs ∨ |value (roundHalfUp (x * tenTo places))| < 2 ^ 51 ∨
      2 ^ 53 < |value (roundHalfUp (x * tenTo places))|
  | .scientific =>
    y.isFinite = true ∧ ∀ v, decode x = some v →
      (significant v.mantissa v.exponent places).digits = 10 ^ places →
        (significant v.mantissa v.exponent places).toRat - |value y| ≤
          10 ^ ((significant v.mantissa v.exponent places).exponent - 1) / 2
  | .engineering =>
    (x == 0) = true ∨
      y.isFinite = true ∧ engineeringPower y = engineeringPower x ∧
        -307 ≤ engineeringPower x ∧ engineeringPower x ≤ 308 ∧
          ∀ v, decode (x / tenTo (engineeringPower x)) = some v →
            10 ^ places ≤ digitsAt v places ∧ digitsAt v places ≤ 10 ^ 13

section

variable {mode : DisplayMode} {places : ℕ} {x : Float} {angle : AngleMode} {policy : ParenPolicy}

theorem format_of_isFinite (finite : x.isFinite = true) :
    mode.format places x = match mode with
      | .fixed => Display.fixed x (min places maxPlaces)
      | .scientific => Decimal.scientific (min places maxPlaces) x
      | .engineering => Display.engineering x (min places maxPlaces) := by
  cases mode <;>
    simp only [DisplayMode.format, isNaN_of_isFinite finite, isInf_of_isFinite finite,
      Bool.false_eq_true, if_false]

/-- Up to fifteen digits of a number of normal size settle, if they are not beyond the largest
double. -/
theorem settles_scientific {v : Exact} (h : decode x = some v) (few : places ≤ 14)
    (normal : 2 ^ (-1022 : ℤ) ≤ (significant v.mantissa v.exponent places).toRat)
    (finite : (readAs v.negative (significant v.mantissa v.exponent places)).isFinite = true) :
    scientific.Settles places x
      (readAs v.negative (significant v.mantissa v.exponent places)) := by
  refine ⟨finite, fun w decoded leading => ?_⟩
  cases h.symm.trans decoded
  exact close_of_few_digits finite few normal leading

/-- The text of a finite number is read back as a number, and where that number settles it is shown
by the same text. In scientific mode it does so with up to fifteen digits of a number of normal size,
unless the digits are beyond the largest double. -/
theorem evaluateText_format (mode : DisplayMode) (places : ℕ) (x : Float) (angle : AngleMode)
    (policy : ParenPolicy) (finite : x.isFinite = true) (written : mode.IsWritten x) :
    ∃ y, evaluateText (mode.format places x) {} angle policy = .ok y ∧
      (mode.Settles (min places maxPlaces) x y → mode.format places y = mode.format places x) ∧
      (mode = .scientific → ∀ v, decode x = some v → min places maxPlaces ≤ 14 →
        2 ^ (-1022 : ℤ) ≤ (significant v.mantissa v.exponent (min places maxPlaces)).toRat →
          y.isFinite = true → mode.Settles (min places maxPlaces) x y) := by
  have few : min places maxPlaces ≤ maxPlaces := min_le_right _ _
  rw [format_of_isFinite finite]
  generalize shown : min places maxPlaces = p at few
  cases mode with
  | fixed =>
    obtain ⟨y, read, finite', same⟩ := evaluateText_fixed finite few angle policy
    refine ⟨y, read, fun settled => ?_, nofun⟩
    rw [format_of_isFinite finite', shown]
    exact fixed_eq_of_settled finite finite' few same settled
  | scientific =>
    obtain ⟨v, decoded⟩ := decode_of_isFinite finite
    refine ⟨_, evaluateText_scientific decoded p angle policy, ?shown, ?settles⟩
    case shown =>
      intro ⟨finite', fine⟩
      rw [format_of_isFinite finite', shown]
      exact scientific_readAs decoded rfl finite' (fine v decoded)
    case settles =>
      intro _ w decoded' digits normal finite'
      cases decoded.symm.trans decoded'
      exact settles_scientific decoded digits normal finite'
  | engineering =>
    by_cases zero : (x == 0) = true
    · obtain ⟨y, read, finite', same⟩ := evaluateText_shortest finite angle policy
      rw [(beq_zero_iff finite).mp zero, ← beq_zero_iff finite'] at same
      have text : shortest x = "0" := if_pos zero
      rw [text] at read
      refine ⟨y, (engineering_of_zero zero).symm ▸ read, fun _ => ?_, nofun⟩
      rw [format_of_isFinite finite', shown]
      exact (engineering_of_zero same).trans (engineering_of_zero zero).symm
    · have whole := written.resolve_left zero
      obtain ⟨v, decoded⟩ := decode_of_isFinite whole
      refine ⟨_, evaluateText_engineering zero decoded angle policy, fun settled => ?_, nofun⟩
      obtain ⟨finite', power, low, high, digits⟩ := settled.resolve_left zero
      obtain ⟨least, most⟩ := digits v decoded
      rw [format_of_isFinite finite', shown]
      exact engineering_eq_of_settled zero decoded rfl finite' power low high least most

theorem evaluateText_format_fiveDigits :
    ∃ y, evaluateText (scientific.format 4 12345.678) {} .radian .repair = .ok y ∧
      scientific.format 4 y = scientific.format 4 12345.678 := by
  have finite : (12345.678 : Float).isFinite = true := by decide
  have digits : (decode 12345.678).map
      (fun v => (v.negative, significant v.mantissa v.exponent 4)) = some (false, ⟨12346, 0⟩) := by
    decide
  obtain ⟨v, decoded, same⟩ := Option.map_eq_some_iff.mp digits
  obtain ⟨sign, five⟩ := Prod.mk.inj same
  obtain ⟨y, read, shown, settles⟩ :=
    evaluateText_format .scientific 4 12345.678 .radian .repair finite trivial
  have number := evaluateText_scientific decoded 4 .radian .repair
  rw [sign, five] at number
  rw [format_of_isFinite finite] at read
  cases read.symm.trans number
  refine ⟨_, (format_of_isFinite finite).symm ▸ read,
    shown (settles rfl v decoded (by decide) ?_ (by decide))⟩
  change 2 ^ (-1022 : ℤ) ≤ (significant v.mantissa v.exponent 4).toRat
  rw [five]
  decide +kernel

/-- Rounding half up moves a number of 53 bits, so the text that is read back is not always the text
that is shown. -/
theorem format_fixed_moves :
    ¬∀ (mode : DisplayMode) (places : ℕ) (x : Float), x.isFinite = true →
      ∃ y, evaluateText (mode.format places x) {} .radian .repair = .ok y ∧
        mode.format places y = mode.format places x := by
  intro unchanged
  have finite : (609011.3435770657 : Float).isFinite = true := by decide
  obtain ⟨y, read, same⟩ := unchanged .fixed 10 609011.3435770657 finite
  obtain ⟨z, number, finite', rounded⟩ :=
    evaluateText_fixed finite (by decide : 10 ≤ maxPlaces) .radian .repair
  rw [format_of_isFinite finite] at read
  cases read.symm.trans number
  have shown := isFinite_atPlaces finite (by decide : 10 ≤ maxPlaces)
  have notZero : ¬(atPlaces 609011.3435770657 10 == 0) = true := by decide +kernel
  rw [beq_zero_iff shown] at notZero
  rw [eq_of_value_eq finite' shown rounded (rounded ▸ notZero)] at same
  have moved : fixed.format 10 (atPlaces 609011.3435770657 10) ≠
      fixed.format 10 609011.3435770657 := by
    decide +kernel
  exact moved same

end

end DisplayMode

end Reckoner
