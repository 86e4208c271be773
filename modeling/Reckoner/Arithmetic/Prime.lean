import Reckoner.Binary.Integral

/-! The primality test: trial division by two, three and the neighbours of the multiples of six. -/
namespace Reckoner.Arithmetic

/-- Whether `n` has no divisor among `i`, `i + 2`, `i + 6`, `i + 8` and so on, up to its root. -/
def undivided (n i : Nat) : Bool :=
  if h : i * i ≤ n ∧ 0 < i then
    if n % i = 0 || n % (i + 2) = 0 then false else undivided n (i + 6)
  else true
termination_by n + 1 - i
decreasing_by
  have := Nat.le_mul_of_pos_left i h.2
  omega

def isPrimeNat (n : Nat) : Bool :=
  if n ≤ 1 then false
  else if n ≤ 3 then true
  else if n % 2 = 0 || n % 3 = 0 then false
  else undivided n 5

/-- Only a whole number can be prime. -/
def isPrime (x : Float) : Bool :=
  match Binary.integer? x with
  | some n => isPrimeNat n.toNat
  | none => false

/-- The same search with every step in floating point. There is no answer from fewer steps than it
takes. -/
def undividedWithin : Nat → Float → Float → Option Bool
  | 0, _, _ => none
  | steps + 1, n, i =>
    if i * i ≤ n then
      if Binary.remainder n i == 0 || Binary.remainder n (i + 2) == 0 then some false
      else undividedWithin steps n (i + 6)
    else some true

/-- The same test in floating point, which answers `isPrime x`. -/
def isPrimeWithin (steps : Nat) (x : Float) : Option Bool :=
  if !x.isFinite || x - Binary.truncate x != 0 || x ≤ 1 then some false
  else if x ≤ 3 then some true
  else if Binary.remainder x 2 == 0 || Binary.remainder x 3 == 0 then some false
  else undividedWithin steps x 5

end Reckoner.Arithmetic
