import Reckoner.Binary.Exact

/-! Roots rounded once. The integer root of a scaled mantissa carries more bits than a double
holds, and one further bit records whether something was cut off, so rounding it is rounding the
true root. -/
namespace Reckoner.Binary

/-- The largest number reached from `r` by adding distinct powers of two below `2 ^ bits` whose
`k`-th power stays within `n`. -/
def rootFrom (k n : Nat) : Nat → Nat → Nat
  | 0, r => r
  | bits + 1, r =>
    if Nat.pow (r + Nat.pow 2 bits) k ≤ n then rootFrom k n bits (r + Nat.pow 2 bits)
    else rootFrom k n bits r

def integerRoot (k n : Nat) : Nat :=
  rootFrom k n (n.log2 / k + 1) 0

/-- The double nearest to the `k`-th root of `m · 2 ^ (k · e)`. -/
def nearestRoot (k : Nat) (negative : Bool) (m : Nat) (e : Int) : Float :=
  let spare := 60
  let n := m * Nat.pow 2 (k * spare)
  let r := integerRoot k n
  Exact.nearest ⟨negative, 2 * r + (if Nat.pow r k = n then 0 else 1), e - spare - 1⟩

def cubeRoot (x : Float) : Float :=
  match decode x with
  | some v =>
    if v.mantissa = 0 then x
    else
      let e := v.exponent.fdiv 3
      nearestRoot 3 v.negative (v.mantissaAt (3 * e)) e
  | none => x

def hypotenuse (x y : Float) : Float :=
  match decode x, decode y with
  | some a, some b =>
    let e := min a.exponent b.exponent
    let square := Nat.pow (a.mantissaAt e) 2 + Nat.pow (b.mantissaAt e) 2
    if square = 0 then 0.0 else nearestRoot 2 false square e
  | _, _ => if x.isInf || y.isInf then infinity else nan

end Reckoner.Binary
