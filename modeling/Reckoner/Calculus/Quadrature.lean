import Reckoner.Scalar

/-! Integrals by equally spaced samples. -/
namespace Reckoner.Calculus

variable {α : Type} [Scalar α]

open Scalar (ofNat)

/-- The samples inside an interval of `n` parts are added, each with its weight, to what the ends
contribute. -/
def addSamples (f : α → α) (weight : Nat → α → α) (a h : α) (n : Nat) (ends : α) : α :=
  (List.range' 1 (n - 1)).foldl (fun sum i => sum + weight i (f (a + h * ofNat i))) ends

/-- An even number of parts, at least two. An odd number goes up by one, except the largest count
of 64 bits, which goes down. -/
def evenIntervals (n : Nat) : Nat :=
  let n := max n 2
  if n % 2 = 0 then n else if n = Nat.pow 2 64 - 1 then n - 1 else n + 1

/-- Samples at odd places count four times and those at even places twice. -/
def simpsonWeight (i : Nat) (y : α) : α :=
  if i % 2 = 1 then ofNat 4 * y else ofNat 2 * y

/-- Simpson's rule. -/
def integrate (f : α → α) (a b : α) (n : Nat) : α :=
  let n := evenIntervals n
  let h := (b - a) / ofNat n
  addSamples f simpsonWeight a h n (f a + f b) * h / ofNat 3

def integrateTrapezoid (f : α → α) (a b : α) (n : Nat) : α :=
  let n := max n 1
  let h := (b - a) / ofNat n
  addSamples f (fun _ y => y) a h n ((f a + f b) / ofNat 2) * h

end Reckoner.Calculus
