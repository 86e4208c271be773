import Reckoner.Binary.Exact
import Reckoner.Decimal.Shortest

/-! Written forms of a decimal number: positional, and with a power of ten. -/
namespace Reckoner.Decimal

def zeros (n : Nat) : String := String.ofList (List.replicate n '0')

/-- Digits with a point before the last `places` of them. -/
def pointed (digits : String) (places : Nat) : String :=
  if places = 0 then digits
  else
    let padded := (zeros (places + 1 - digits.length) ++ digits).toList
    let whole := padded.length - places
    String.ofList (padded.take whole) ++ "." ++ String.ofList (padded.drop whole)

/-- Without an exponent, however many zeros that takes. -/
def Scientific.positional (d : Scientific) : String :=
  if 0 ≤ d.exponent then
    if d.digits = 0 then "0" else d.digits.repr ++ zeros d.exponent.toNat
  else pointed d.digits.repr (-d.exponent).toNat

def barePower (n : Int) : String := if n < 0 then "-" ++ n.natAbs.repr else n.natAbs.repr

def signedPower (n : Int) : String := if n < 0 then "-" ++ n.natAbs.repr else "+" ++ n.natAbs.repr

/-- A point before the last `places` digits, and the power of ten after an `e`. -/
def Scientific.withPower (power : Int → String) (d : Scientific) (places : Nat) : String :=
  pointed d.digits.repr places ++ "e" ++ power (d.exponent + places)

def Scientific.exponential (power : Int → String) (d : Scientific) : String :=
  d.withPower power (d.digits.repr.length - 1)

/-- Writes a double by its shortest digits. The word for an infinity is the caller's. -/
def write (infinite : String) (layout : Scientific → String) (x : Float) : String :=
  match Binary.decode x with
  | some v => (if v.negative then "-" else "") ++ layout (shortest v.mantissa v.exponent)
  | none => if x.isNaN then "NaN" else if x < 0 then "-" ++ infinite else infinite

def plain (x : Float) : String := write "inf" Scientific.positional x

end Reckoner.Decimal
