import Reckoner.Choice

/-! Angle units and the trigonometric functions that read or report angles in them. -/
namespace Reckoner

inductive AngleMode where
  | degree
  | radian
  | grad
deriving DecidableEq, Repr

instance : Choice AngleMode where
  kind := "angle mode"
  words := [("degree", .degree), ("deg", .degree), ("radian", .radian), ("rad", .radian),
    ("grad", .grad), ("gradian", .grad)]

def pi : Float := 3.141592653589793

namespace AngleMode

def toRadians : AngleMode → Float → Float
  | .degree, angle => angle * pi / 180
  | .grad, angle => angle * pi / 200
  | .radian, angle => angle

def fromRadians : AngleMode → Float → Float
  | .degree, angle => angle * 180 / pi
  | .grad, angle => angle * 200 / pi
  | .radian, angle => angle

def sin (mode : AngleMode) (x : Float) : Float := (mode.toRadians x).sin
def cos (mode : AngleMode) (x : Float) : Float := (mode.toRadians x).cos
def tan (mode : AngleMode) (x : Float) : Float := (mode.toRadians x).tan
def asin (mode : AngleMode) (x : Float) : Float := mode.fromRadians x.asin
def acos (mode : AngleMode) (x : Float) : Float := mode.fromRadians x.acos
def atan (mode : AngleMode) (x : Float) : Float := mode.fromRadians x.atan
def sec (mode : AngleMode) (x : Float) : Float := 1 / mode.cos x
def csc (mode : AngleMode) (x : Float) : Float := 1 / mode.sin x
def cot (mode : AngleMode) (x : Float) : Float := 1 / mode.tan x

end AngleMode

end Reckoner
