/-! Powers by repeated squaring. In floating point the order of the products is part of the
result. -/
namespace Reckoner.Arithmetic

/-- `r · x ^ n`, taking the factors of `n` in binary from the lowest on. -/
def powFrom {α : Type} [Mul α] (r x : α) (n : Nat) : α :=
  let r' := if n % 2 = 1 then r * x else r
  if n / 2 = 0 then r' else powFrom r' (x * x) (n / 2)
termination_by n

/-- A negative exponent gives the reciprocal of a positive power. -/
def integerPower {α : Type} [Mul α] [Div α] [OfNat α 1] (x : α) (n : Int) : α :=
  let r := powFrom 1 x n.natAbs
  if n < 0 then 1 / r else r

def tenTo (n : Int) : Float := integerPower 10 n

/-- A count as an exponent of 32 bits. A count too large for it goes on from the least exponent, which
is negative. -/
def shortExponent (n : Nat) : Int := Int.bmod n (Nat.pow 2 32)

end Reckoner.Arithmetic
