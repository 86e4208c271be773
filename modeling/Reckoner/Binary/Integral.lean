import Reckoner.Binary.Exact

/-! Integers within doubles: rounding to a whole number, the test for one, and the exact
remainder of a division. -/
namespace Reckoner.Binary

def Exact.signed (v : Exact) : Int :=
  if v.negative then -v.mantissa else v.mantissa

def Exact.floor (v : Exact) : Int :=
  if 0 ≤ v.exponent then v.signed * Int.pow 2 v.exponent.toNat
  else v.signed.fdiv (Int.pow 2 (-v.exponent).toNat)

/-- The integer between zero and the value that is nearest to the value. -/
def Exact.truncate (v : Exact) : Int :=
  if 0 ≤ v.exponent then v.signed * Int.pow 2 v.exponent.toNat
  else v.signed.tdiv (Int.pow 2 (-v.exponent).toNat)

def Exact.ceiling (v : Exact) : Int :=
  -({ v with negative := !v.negative } : Exact).floor

/-- Rounds to a whole number. A zero result keeps the sign of the operand, and what is not finite
stays as it is. -/
def toWhole (rounding : Exact → Int) (x : Float) : Float :=
  match decode x with
  | some v =>
    let n := rounding v
    Exact.nearest ⟨if n = 0 then v.negative else decide (n < 0), n.natAbs, 0⟩
  | none => x

def floor (x : Float) : Float := toWhole Exact.floor x
def ceiling (x : Float) : Float := toWhole Exact.ceiling x
def truncate (x : Float) : Float := toWhole Exact.truncate x

/-- Halves go up, toward positive infinity. -/
def roundHalfUp (x : Float) : Float := floor (x + 0.5)

def integer? (x : Float) : Option Int :=
  match decode x with
  | some v => if v.floor = v.ceiling then some v.floor else none
  | none => none

/-- The remainder of the magnitudes of two values, counted on the finer of their two grids. -/
def Exact.remainder (a b : Exact) : Exact :=
  let e := min a.exponent b.exponent
  ⟨a.negative, a.mantissaAt e % b.mantissaAt e, e⟩

/-- The exact remainder of a division, with the sign of the dividend. -/
def remainder (a b : Float) : Float :=
  match decode a, decode b with
  | some x, some y => if y.mantissa = 0 then nan else (x.remainder y).nearest
  | some _, none => if b.isNaN then nan else a
  | none, _ => nan

end Reckoner.Binary
