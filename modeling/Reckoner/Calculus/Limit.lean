import Reckoner.Binary.Exact
import Reckoner.Choice

/-! Limits by a probe on each side of a point. -/
namespace Reckoner

inductive LimitDirection where
  | both
  | left
  | right
deriving DecidableEq, Repr

instance : Choice LimitDirection where
  kind := "limit direction"
  words := [("both", .both), ("", .both), ("left", .left), ("-", .left), ("right", .right),
    ("+", .right)]

namespace Calculus

def limitOffset : Float := 1e-4

/-- Two probes that are closer than this agree. -/
def limitTolerance : Float := 1e-3

/-- The limit, if there is one. From both sides it is the mean of two probes that agree. -/
def limit (f : Float → Float) (point : Float) (direction : LimitDirection) : Option Float :=
  let left := f (point - limitOffset)
  let right := f (point + limitOffset)
  match direction with
  | .left => if left.isNaN then none else some left
  | .right => if right.isNaN then none else some right
  | .both => if (left - right).abs < limitTolerance then some ((left + right) / 2) else none

end Calculus

end Reckoner
