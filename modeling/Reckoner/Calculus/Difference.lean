import Reckoner.Scalar

/-! Derivatives by central differences. -/
namespace Reckoner.Calculus

variable {α : Type} [Scalar α]

open Scalar (ofNat)

def differentiate (f : α → α) (x h : α) : α :=
  (f (x + h) - f (x - h)) / (ofNat 2 * h)

def secondDerivative (f : α → α) (x h : α) : α :=
  (f (x + h) - ofNat 2 * f x + f (x - h)) / (h * h)

end Reckoner.Calculus
