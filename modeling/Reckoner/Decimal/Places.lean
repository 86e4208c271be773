import Reckoner.Decimal.Layout

/-! Text with a given number of decimal places. The exact value is rounded once, and a half goes to
the even neighbour. -/
namespace Reckoner.Decimal

/-- The natural number nearest to a ratio, the even one of two that are equally near. -/
def Ratio.nearest (r : Ratio) : Nat :=
  let below := r.num / r.den
  let twice := 2 * (r.num % r.den)
  if twice < r.den then below
  else if r.den < twice then below + 1
  else below + below % 2

/-- The place of the leading digit of `m · 2 ^ e`, looked for downward. -/
def leadingPlace (m : Nat) (e : Int) : Nat → Int → Int
  | 0, place => place
  | lower + 1, place =>
    let v := Ratio.onGrid m e place
    if v.den ≤ v.num then place else leadingPlace m e lower (place - 1)

/-- `m · 2 ^ e` rounded to one digit before the point and `places` after it. Rounding up may carry
into a new leading digit. -/
def significant (m : Nat) (e : Int) (places : Nat) : Scientific :=
  if m = 0 then ⟨0, -places⟩
  else
    let lead := leadingPlace m e 4 (placeAbove m e)
    let digits := (Ratio.onGrid m e (lead - places)).nearest
    if digits = Nat.pow 10 (places + 1) then ⟨Nat.pow 10 places, lead + 1 - places⟩
    else ⟨digits, lead - places⟩

/-- Positional text with `places` digits after the point. -/
def fixed (places : Nat) (x : Float) : String :=
  match Binary.decode x with
  | some v =>
    let digits := (Ratio.onGrid v.mantissa v.exponent (-places)).nearest
    (if v.negative then "-" else "") ++ pointed digits.repr places
  | none => plain x

/-- Text with a signed power of ten and `places` digits after the point. -/
def scientific (places : Nat) (x : Float) : String :=
  match Binary.decode x with
  | some v =>
    (if v.negative then "-" else "") ++
      (significant v.mantissa v.exponent places).withPower signedPower places
  | none => plain x

end Reckoner.Decimal
