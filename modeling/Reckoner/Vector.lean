import Reckoner.Angle
import Reckoner.Binary.Root
import Reckoner.Scalar

/-! Vectors as lists of their coordinates, and points in the plane. -/
namespace Reckoner.Vector

def dot (a b : List Float) : Except Error Float :=
  if a.length = b.length then .ok (total ((a.zip b).map fun (x, y) => x * y))
  else .error (.dimension (.lengths a.length b.length))

def cross : List Float → List Float → Except Error (List Float)
  | [a, b, c], [x, y, z] => .ok [b * z - c * y, c * x - a * z, a * y - b * x]
  | _, _ => .error (.dimension .notThree)

def magnitude (a : List Float) : Float := (total (a.map fun x => x * x)).sqrt

/-- Rounding may leave a cosine just outside of its range. -/
def clampCosine (x : Float) : Float := if x < -1 then -1 else if 1 < x then 1 else x

/-- The angle between two vectors. A vector of no length has an angle to none. -/
def angleBetween (a b : List Float) (mode : AngleMode) : Except Error Float := do
  let lengths := magnitude a * magnitude b
  if lengths == 0 then .ok Binary.nan
  else
    let product ← dot a b
    .ok (mode.fromRadians (clampCosine (product / lengths)).acos)

structure Rectangular where
  x : Float
  y : Float

structure Polar where
  r : Float
  theta : Float

def Polar.toRectangular (p : Polar) (mode : AngleMode) : Rectangular :=
  let theta := mode.toRadians p.theta
  ⟨p.r * theta.cos, p.r * theta.sin⟩

def Rectangular.toPolar (p : Rectangular) (mode : AngleMode) : Polar :=
  ⟨Binary.hypotenuse p.x p.y, mode.fromRadians (Float.atan2 p.y p.x)⟩

end Reckoner.Vector
