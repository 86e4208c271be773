/-! A double seen as the exact number it stands for. Rules that need an exact result, such as
printing the fewest digits or taking a remainder, work on the sign, the mantissa and the exponent
as integers and round once at the end. -/
namespace Reckoner.Binary

open Float.Model (UnpackedFloat Format)

def nan : Float := 0.0 / 0.0
def infinity : Float := 1.0 / 0.0

/-- The number `± mantissa · 2 ^ exponent`. A zero keeps its sign. -/
structure Exact where
  negative : Bool
  mantissa : Nat
  exponent : Int
deriving DecidableEq

/-- The exact value of a finite double; nothing for an infinity or NaN. -/
def decode (x : Float) : Option Exact :=
  match x.toModel.unpack with
  | .zero s => some ⟨s == .negative, 0, 0⟩
  | .finite s m e _ => some ⟨s == .negative, m, e⟩
  | _ => none

/-- The double nearest to a value, the even one of two that are equally near. -/
def Exact.nearest (v : Exact) : Float :=
  if v.mantissa = 0 then
    if v.negative then -0.0 else 0.0
  else
    .ofModel (.pack (UnpackedFloat.round Format.binary64
      (if v.negative then .negative else .positive) v.mantissa v.exponent))

/-- The mantissa that stands for the same magnitude with a smaller exponent. -/
def Exact.mantissaAt (v : Exact) (exponent : Int) : Nat :=
  v.mantissa * Nat.pow 2 (v.exponent - exponent).toNat

def ofInt (n : Int) : Float :=
  Exact.nearest ⟨decide (n < 0), n.natAbs, 0⟩

end Reckoner.Binary
