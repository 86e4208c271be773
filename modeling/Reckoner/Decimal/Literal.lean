/-! Reading a decimal literal: digits with at most one point and at least one digit, then an
optional power of ten. -/
namespace Reckoner.Decimal

def natural (digits : List Char) : Nat :=
  digits.foldl (fun n c => 10 * n + (c.toNat - '0'.toNat)) 0

def nearest (digits : Nat) (exponent : Int) : Float :=
  Float.ofScientific digits (decide (exponent < 0)) exponent.natAbs

/-- The power of ten after an `e`: a sign or none, then digits. -/
def powerOfTen : List Char → Int
  | '-' :: digits => -natural digits
  | '+' :: digits => natural digits
  | digits => natural digits

/-- Reads the digits of a literal and the power of ten after them. Refuses a second point and a
literal without a digit. -/
def literal? (digits : List Char) (power : List Char) : Option Float :=
  let whole := digits.takeWhile Char.isDigit
  let fraction := (digits.dropWhile Char.isDigit).drop 1
  if fraction.all Char.isDigit && !(whole.isEmpty && fraction.isEmpty) then
    some (nearest (natural (whole ++ fraction)) (powerOfTen power - fraction.length))
  else none

end Reckoner.Decimal
