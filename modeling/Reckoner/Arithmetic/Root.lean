import Reckoner.Binary.Integral

/-! Roots of a number and of a quadratic. -/
namespace Reckoner.Arithmetic

open Binary

/-- An index beyond the range of 64 bits counts as the nearest one within it. -/
def clampIndex (n : Int) : Int := max (-Int.pow 2 63) (min n (Int.pow 2 63 - 1))

def isOddIndex (n : Float) : Bool :=
  match integer? n with
  | some k => clampIndex k % 2 != 0
  | none => false

/-- A root as a power with the reciprocal of the index. A negative number has a real root if the
index is odd. -/
def nthRootBy (power : Float → Float → Float) (x n : Float) : Float :=
  if x < 0 && isOddIndex n then -power (-x) (1 / n) else power x (1 / n)

def nthRoot (x n : Float) : Float := nthRootBy Float.pow x n

structure Quadratic where
  x1 : Float
  x2 : Float
  discriminant : Float

/-- The real roots of `a x² + b x + c`. A negative discriminant leaves none. -/
def solveQuadratic (a b c : Float) : Quadratic :=
  let discriminant := b * b - 4 * a * c
  if discriminant < 0 then ⟨nan, nan, discriminant⟩
  else
    let root := discriminant.sqrt
    ⟨(-b + root) / (2 * a), (-b - root) / (2 * a), discriminant⟩

end Reckoner.Arithmetic
