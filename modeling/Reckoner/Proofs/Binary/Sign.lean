import Mathlib
import Reckoner.Binary.Exact
import Reckoner.Constants
import Reckoner.Decimal.Literal

/-! The signs of doubles. No literal has a sign, since nothing that reads one gives or takes a
sign. The lemmas on the bits of a double are not in any module of Mathlib that could be imported
alone, so all of it is. -/
namespace Reckoner.Binary

open Float.Model (UnpackedFloat Format)
open Float.Model.UnpackedFloat

/-- Whether a float has no minus sign, as far as it has a sign. -/
def Unsigned : UnpackedFloat → Prop
  | .notANumber => True
  | .infinity s => s = .positive
  | .zero s => s = .positive
  | .finite s _ _ _ => s = .positive

theorem unpackSign_pack {u : UnpackedFloat} (h : Unsigned u) :
    unpackSign (pack Format.binary64 u) = 0#1 := by
  cases u with
  | notANumber => exact unpackSign_packComponents ..
  | infinity s =>
    cases h
    exact unpackSign_packComponents ..
  | zero s =>
    cases h
    exact unpackSign_packComponents ..
  | finite s m e pos =>
    cases h
    simp only [pack]
    split
    · exact unpackSign_packComponents ..
    split
    · exact unpackSign_packComponents ..
    · exact unpackSign_packComponents ..

theorem unsigned_unpack {b : BitVec Format.binary64.numBits} (h : unpackSign b = 0#1) :
    Unsigned (unpack Format.binary64 b) := by
  have positive : Sign.ofBitVec (unpackSign b) = .positive := by rw [h]; rfl
  simp only [unpack, positive]
  split
  · split
    · rfl
    · trivial
  split
  · split <;> rfl
  · rfl

theorem unsigned_round (spec : Format) (m : Nat) (e : Int) (accuracy : Accuracy) :
    Unsigned (roundWithAccuracy spec .positive m e accuracy) := by
  simp only [roundWithAccuracy]
  split <;> rfl

theorem Unsigned.mul {u v : UnpackedFloat} (hu : Unsigned u) (hv : Unsigned v) (spec : Format) :
    Unsigned (UnpackedFloat.mul spec u v) := by
  cases u <;> cases v <;> cases hu <;> cases hv
  case finite.finite => exact unsigned_round ..
  all_goals first | rfl | trivial

theorem Unsigned.div {u v : UnpackedFloat} (hu : Unsigned u) (hv : Unsigned v) (spec : Format) :
    Unsigned (UnpackedFloat.div spec u v) := by
  cases u <;> cases v <;> cases hu <;> cases hv
  case finite.finite => exact unsigned_round ..
  all_goals first | rfl | trivial

theorem unsigned_normalize (spec : Format) {m : Int} (nonneg : 0 ≤ m) (e : Int) :
    Unsigned (UnpackedFloat.normalize spec m e .positive) := by
  unfold UnpackedFloat.normalize
  split
  · rename_i negative
    have below := Int.compare_eq_lt.mp negative
    omega
  · rfl
  · exact unsigned_round ..

theorem unsigned_ofNat (spec : Format) (n : Nat) : Unsigned (UnpackedFloat.ofNat spec n) :=
  unsigned_normalize spec (Int.natCast_nonneg n) 0

theorem unsigned_ofScientific (spec : Format) (m : Nat) (e : Int) :
    Unsigned (UnpackedFloat.ofScientific spec m e) := by
  unfold UnpackedFloat.ofScientific
  split
  · rfl
  split
  · rfl
  split
  · rfl
  split
  · exact Unsigned.mul (u := .finite .positive _ _ _) (v := .finite .positive _ _ _) rfl rfl spec
  · exact Unsigned.div (u := .finite .positive _ _ _) (v := .finite .positive _ _ _) rfl rfl spec

def IsUnsigned (x : Float) : Prop := Unsigned x.toModel.unpack

theorem isUnsigned_pack {u : UnpackedFloat} (h : Unsigned u) :
    IsUnsigned (.ofModel (.pack u)) :=
  unsigned_unpack (unpackSign_pack h)

theorem IsUnsigned.mul {x y : Float} (hx : IsUnsigned x) (hy : IsUnsigned y) :
    IsUnsigned (x * y) :=
  isUnsigned_pack (Unsigned.mul hx hy _)

theorem IsUnsigned.div {x y : Float} (hx : IsUnsigned x) (hy : IsUnsigned y) :
    IsUnsigned (x / y) :=
  isUnsigned_pack (Unsigned.div hx hy _)

theorem isUnsigned_powersOfTen :
    ∀ x ∈ Float.exactlyRepresentablePowersOfTen, IsUnsigned x := by
  -- The table is finite, so the sign bits are read off.
  have bits : ∀ x ∈ Float.exactlyRepresentablePowersOfTen,
      @unpackSign Format.binary64 x.toModel.toBits.toBitVec = 0#1 := by
    decide
  exact fun x h => unsigned_unpack (bits x h)

theorem isUnsigned_ofScientific (m : Nat) (s : Bool) (e : Nat) :
    IsUnsigned (Float.ofScientific m s e) := by
  unfold Float.ofScientific
  split
  · rename_i small
    have inRange : e < Float.exactlyRepresentablePowersOfTen.size := Nat.lt_succ_of_le small.2
    have power := isUnsigned_powersOfTen _ (Array.getElem_mem inRange)
    have whole : IsUnsigned m.toUInt64.toFloat := isUnsigned_pack (unsigned_ofNat _ _)
    dsimp only
    split
    · exact whole.div power
    · exact whole.mul power
  · exact isUnsigned_pack (unsigned_ofScientific _ _ _)

theorem isUnsigned_literal {digits power : List Char} {x : Float}
    (h : Decimal.literal? digits power = some x) : IsUnsigned x := by
  simp only [Decimal.literal?] at h
  split at h
  · cases h
    exact isUnsigned_ofScientific _ _ _
  · cases h

theorem isUnsigned_constant {name : String} {x : Float} (h : expressionConstant? name = some x) :
    IsUnsigned x := by
  unfold expressionConstant? at h
  split at h <;> cases h <;> exact isUnsigned_ofScientific _ _ _

theorem lt_iff_compare {x y : Float} :
    x < y ↔ UnpackedFloat.compare x.toModel.unpack y.toModel.unpack = some .lt :=
  decide_eq_true_iff.trans beq_iff_eq

theorem unpack_zero : (0 : Float).toModel.unpack = .zero .positive := rfl

def IsNegativeZero (x : Float) : Prop := decode x = some ⟨true, 0, 0⟩

/-- Only a number below zero and the zero with a minus sign have a minus sign. -/
theorem isUnsigned_of_not_lt {x : Float} (notNegative : ¬x < 0) (notZero : ¬IsNegativeZero x) :
    IsUnsigned x := by
  rw [lt_iff_compare, unpack_zero] at notNegative
  unfold IsNegativeZero decode at notZero
  unfold IsUnsigned
  cases unpacked : x.toModel.unpack with
  | notANumber => trivial
  | infinity s =>
    cases s with
    | positive => rfl
    | negative => exact absurd (by rw [unpacked]; rfl) notNegative
  | zero s =>
    cases s with
    | positive => rfl
    | negative => exact absurd (by rw [unpacked]; rfl) notZero
  | finite s m e pos =>
    cases s with
    | positive => rfl
    | negative => exact absurd (by rw [unpacked]; rfl) notNegative

theorem decode_of_isFinite {x : Float} (finite : x.isFinite = true) : ∃ v, decode x = some v := by
  unfold Float.isFinite Float.Model.isFinite at finite
  unfold decode
  cases unpacked : x.toModel.unpack with
  | notANumber => rw [unpacked] at finite; cases finite
  | infinity s => rw [unpacked] at finite; cases finite
  | zero s => exact ⟨_, rfl⟩
  | finite s m e pos => exact ⟨_, rfl⟩

theorem IsUnsigned.decode {x : Float} {v : Exact} (h : IsUnsigned x)
    (decoded : decode x = some v) : v.negative = false := by
  unfold IsUnsigned at h
  unfold Binary.decode at decoded
  cases unpacked : x.toModel.unpack with
  | notANumber => rw [unpacked] at decoded; cases decoded
  | infinity s => rw [unpacked] at decoded; cases decoded
  | zero s =>
    rw [unpacked] at h decoded
    cases h
    cases decoded
    rfl
  | finite s m e pos =>
    rw [unpacked] at h decoded
    cases h
    cases decoded
    rfl

end Reckoner.Binary
