import Reckoner.Binary.Integral

/-! Factorials and the counts built from them, in floating point. -/
namespace Reckoner.Arithmetic

/-- The factors of the factorial of the whole part of `n`, beginning with two. From 171 on the
product is infinite, so no factor after that is needed. -/
def factors (n : Float) : List Nat :=
  let last := match Binary.decode n with
    | some v => min v.floor.toNat 171
    | none => 171
  List.range' 2 (last - 1)

/-- The factorial of the whole part of `n`. A negative number has none. -/
def factorial (n : Float) : Float :=
  if n.isNaN || n < 0 then Binary.nan
  else (factors n).foldl (fun product i => product * Float.ofNat i) 1

/-- A product multiplied by the factors from `i` up to `n`, together with the number of
multiplications. The factor is counted up in floating point, and no factor follows once the product is
infinite. There is no result from fewer steps than it takes. -/
def multiplyWithin : Nat → Float → Float → Float → Option (Float × Nat)
  | 0, _, _, _ => none
  | steps + 1, n, i, product =>
    if i ≤ n then
      let next := product * i
      if next.isInf then some (next, 1)
      else (multiplyWithin steps n (i + 1) next).map fun (result, count) => (result, count + 1)
    else some (product, 0)

/-- The factorial with every step in floating point, which is `factorial n`, and the number of its
multiplications. -/
def factorialWithin (steps : Nat) (n : Float) : Option (Float × Nat) :=
  if n.isNaN || n < 0 then some (Binary.nan, 0)
  else
    let last := Binary.floor n
    if last == 0 || last == 1 then some (1, 0) else multiplyWithin steps last 2 1

def permutation (n r : Float) : Float :=
  if n < r then 0 else factorial n / factorial (n - r)

def combination (n r : Float) : Float :=
  if n < r then 0 else factorial n / (factorial r * factorial (n - r))

end Reckoner.Arithmetic
