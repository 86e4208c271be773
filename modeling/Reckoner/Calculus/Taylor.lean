import Reckoner.Arithmetic.Counting
import Reckoner.Arithmetic.Power
import Reckoner.Calculus.Difference

/-! Taylor polynomials from difference quotients. -/
namespace Reckoner

/-- How a derivative of higher order is estimated. -/
inductive TaylorScheme where
  /-- Every order takes the first central difference, which is right only where all derivatives at
  the centre are the same. -/
  | repeatedFirstDifference
  /-- The central difference is applied as many times as the order says. -/
  | iteratedCentralDifference
deriving DecidableEq, Repr

/-- Factorials and binomial coefficients as numbers of a type. -/
class Counting (α : Type) where
  factorial : Nat → α
  choose : Nat → Nat → α

instance : Counting Float where
  factorial n := Arithmetic.factorial (Float.ofNat n)
  choose n k := Arithmetic.combination (Float.ofNat n) (Float.ofNat k)

namespace Calculus

variable {α : Type} [Scalar α] [Counting α] [OfNat α 0] [OfNat α 1] [OfScientific α]

open Scalar (ofNat)

def taylorStep : α := 1e-3

/-- One term of the central difference of order `n`: the sample `n - 2 k` steps from the centre,
with its binomial weight. -/
def centralTerm (f : α → α) (center : α) (n k : Nat) : α :=
  let weight := if k % 2 = 0 then Counting.choose n k else -Counting.choose n k
  weight * f (center + (ofNat n - ofNat 2 * ofNat k) * taylorStep)

def nthDerivative (f : α → α) (center : α) (order : Nat) (scheme : TaylorScheme) : α :=
  match order, scheme with
  | 0, _ => f center
  | _, .repeatedFirstDifference => differentiate f center taylorStep
  | n, .iteratedCentralDifference =>
    total ((List.range (n + 1)).map (centralTerm f center n)) /
      Arithmetic.integerPower (ofNat 2 * taylorStep) (Arithmetic.shortExponent n)

/-- No list holds this many doubles, of eight bytes each: the bytes of a list are counted in 63
bits. -/
def tooManyTerms : Nat := Nat.pow 2 60

/-- Nothing when the list would be longer than a list can be. -/
def taylorCoefficients (f : α → α) (center : α) (terms : Nat) (scheme : TaylorScheme) :
    Option (List α) :=
  if terms < tooManyTerms then
    some ((List.range terms).map fun n => nthDerivative f center n scheme / Counting.factorial n)
  else none

def taylorSeries (f : α → α) (center : α) (terms : Nat) (point : α) (scheme : TaylorScheme) :
    Option α :=
  let dx := point - center
  (taylorCoefficients f center terms scheme).map fun coefficients =>
    total (coefficients.mapIdx fun n c =>
      c * Arithmetic.integerPower dx (Arithmetic.shortExponent n))

end Calculus

end Reckoner
