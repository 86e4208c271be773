import Reckoner.Arithmetic.Power
import Reckoner.Binary.Integral
import Reckoner.Choice
import Reckoner.Decimal.Places

/-! How results are shown. The text of a finite value can be read back as an expression. -/
namespace Reckoner

inductive DisplayMode where
  | fixed
  | scientific
  | engineering
deriving DecidableEq, Repr

instance : Choice DisplayMode where
  kind := "display mode"
  words := [("fixed", .fixed), ("fix", .fixed), ("scientific", .scientific), ("sci", .scientific),
    ("engineering", .engineering), ("eng", .engineering)]

namespace Display

open Arithmetic (tenTo)

def maxPlaces : Nat := 100

/-- The fewest digits, with an exponent from `1e21` on. A zero has no sign. -/
def shortest (x : Float) : String :=
  if x == 0 then "0"
  else if 1e21 ≤ x.abs then
    Decimal.write "inf" (Decimal.Scientific.exponential Decimal.signedPower) x
  else Decimal.plain x

/-- Rounded half up at a decimal place and then shown with the fewest digits. From 2 ^ 53 on every
double is whole and stays as it is, and so does one that scaling makes infinite. -/
def fixed (x : Float) (places : Nat) : String :=
  if 9007199254740992.0 ≤ x.abs then shortest x
  else
    let factor := tenTo places
    let scaled := x * factor
    if scaled.isFinite && factor.isFinite then shortest (Binary.roundHalfUp scaled / factor)
    else shortest x

/-- The power of a thousand that a logarithm lies above. -/
def guessedPower (logarithm : Float) : Int :=
  (Binary.integer? (Binary.floor (logarithm / 3) * 3)).getD 0

/-- The power of a thousand below a number, from a logarithm. That can be off by one at a power of
ten, which one step mends. -/
def engineeringPowerBy (log10 : Float → Float) (x : Float) : Int :=
  let guess := guessedPower (log10 x.abs)
  let mantissa := (x / tenTo guess).abs
  if 1000 ≤ mantissa then guess + 3
  else if mantissa < 1 then guess - 3
  else guess

/-- A mantissa from one to a thousand and a power of a thousand, found with the help of `log10`. -/
def engineeringBy (log10 : Float → Float) (x : Float) (places : Nat) : String :=
  if x == 0 then "0"
  else
    let power := engineeringPowerBy log10 x
    Decimal.fixed places (x / tenTo power) ++ "e" ++ Decimal.signedPower power

def engineeringPower (x : Float) : Int := engineeringPowerBy Float.log10 x

def engineering (x : Float) (places : Nat) : String := engineeringBy Float.log10 x places

end Display

def DisplayMode.format (mode : DisplayMode) (places : Nat) (x : Float) : String :=
  let places := min places Display.maxPlaces
  if x.isNaN then "NaN"
  else if x.isInf then if 0 < x then "Infinity" else "-Infinity"
  else
    match mode with
    | .fixed => Display.fixed x places
    | .scientific => Decimal.scientific places x
    | .engineering => Display.engineering x places

end Reckoner
