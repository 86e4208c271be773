import Reckoner.Binary.Integral

/-! Common divisors and multiples. Finite doubles are multiples of a power of two, so any two of
them, fractions too, have an exact greatest common divisor. -/
namespace Reckoner.Arithmetic

open Binary

/-- The greatest common divisor of two magnitudes, counted on the finer of their two grids. -/
def commonDivisor (a b : Exact) : Exact :=
  let e := min a.exponent b.exponent
  ⟨false, Nat.gcd (a.mantissaAt e) (b.mantissaAt e), e⟩

def gcd (a b : Float) : Float :=
  match decode a, decode b with
  | some x, some y => (commonDivisor x y).nearest
  | _, _ => nan

/-- Euclid's algorithm on two magnitudes, with every division in floating point. There is no result
from fewer steps than it takes. -/
def euclidWithin : Nat → Float → Float → Option Float
  | 0, _, _ => none
  | steps + 1, a, b => if b == 0 then some a else euclidWithin steps b (remainder a b)

/-- The common divisor that the divisions end with, which is `gcd a b`. -/
def gcdWithin (steps : Nat) (a b : Float) : Option Float :=
  if a.abs.isFinite && b.abs.isFinite then euclidWithin steps a.abs b.abs else some nan

def lcm (a b : Float) : Float :=
  let g := gcd a b
  if g == 0 then 0 else (a * b).abs / g

end Reckoner.Arithmetic
