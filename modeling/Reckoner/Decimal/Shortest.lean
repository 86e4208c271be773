/-! The fewest decimal digits that read back as the same double. The doubles next to a value bound
the interval of numbers that round to it. On each decimal grid, from coarse to fine, the two grid
points around the value are tested against that interval in exact integer arithmetic, so the first
grid with a hit has the fewest digits. -/
namespace Reckoner.Decimal

/-- The number `digits · 10 ^ exponent`. -/
structure Scientific where
  digits : Nat
  exponent : Int
deriving DecidableEq, Repr

structure Ratio where
  num : Nat
  den : Nat

/-- The ratio `m · 2 ^ e / 10 ^ place`. -/
def Ratio.onGrid (m : Nat) (e place : Int) : Ratio :=
  ⟨m * Nat.pow 2 e.toNat * Nat.pow 10 (-place).toNat, Nat.pow 2 (-e).toNat * Nat.pow 10 place.toNat⟩

/-- The ends of the interval of numbers that round to `m · 2 ^ e`, in quarters of `2 ^ e`. The gap
below a power of two is half the gap above it, except at the smallest exponent. -/
def lowerEnd (m : Nat) (e : Int) : Nat :=
  if m = Nat.pow 2 52 ∧ -1074 < e then 4 * m - 1 else 4 * m - 2

def upperEnd (m : Nat) : Nat := 4 * m + 2

/-- Whether a grid point rounds to `m · 2 ^ e`. The ends of the interval do when `m` is even. -/
def roundsTo (m : Nat) (e place : Int) (point : Nat) : Bool :=
  let low := Ratio.onGrid (lowerEnd m e) (e - 2) place
  let high := Ratio.onGrid (upperEnd m) (e - 2) place
  if m % 2 = 0 then decide (low.num ≤ point * low.den) && decide (point * high.den ≤ high.num)
  else decide (low.num < point * low.den) && decide (point * high.den < high.num)

/-- The point of a grid that rounds to `m · 2 ^ e` and is nearest to it. Of two at one distance it
is the larger. -/
def gridPoint? (m : Nat) (e place : Int) : Option Nat :=
  let v := Ratio.onGrid m e place
  let below := v.num / v.den
  match roundsTo m e place below, roundsTo m e place (below + 1) with
  | true, true => some (if 2 * (v.num % v.den) < v.den then below else below + 1)
  | true, false => some below
  | false, true => some (below + 1)
  | false, false => none

/-- Tries grids from coarse to fine. -/
def search (m : Nat) (e : Int) : Nat → Int → Scientific
  | 0, place => ⟨(Ratio.onGrid m e place).num / (Ratio.onGrid m e place).den, place⟩
  | finer + 1, place =>
    match gridPoint? m e place with
    | some digits => ⟨digits, place⟩
    | none => search m e finer (place - 1)

/-- A decimal place at or above that of the leading digit of `m · 2 ^ e`. -/
def placeAbove (m : Nat) (e : Int) : Int :=
  ((e + m.log2) * 30103).fdiv 100000 + 2

/-- Seventeen digits always suffice, and the search starts at most three places too high. -/
def shortest (m : Nat) (e : Int) : Scientific :=
  if m = 0 then ⟨0, 0⟩ else search m e 20 (placeAbove m e)

end Reckoner.Decimal
