import Reckoner.Calculus.Difference

/-! Points of interest of a function, looked for at equal steps. Samples that are NaN are left
out. -/
namespace Reckoner.Calculus

/-- The first of `indices` indices from `i` on whose point is not below the end. -/
def passedWithin (start stop step : Float) : (indices i : Nat) → Option Nat
  | 0, _ => none
  | indices + 1, i =>
    if start + step * Float.ofNat i < stop then passedWithin start stop step indices (i + 1)
    else some i

/-- The points `start + i · step` below an end. There are none unless the ends are finite and the
step is finite and positive. The index has 64 bits: when no index passes the end it goes on from zero
for ever, and nothing comes of the scan. -/
def scanPoints (start stop step : Float) : Option (List Float) :=
  if 0 < step && step.isFinite && start.isFinite && stop.isFinite then
    (passedWithin start stop step (Nat.pow 2 64) 0).map fun count =>
      (List.range count).map fun i => start + step * Float.ofNat i
  else some []

structure CriticalPoint where
  x : Float
  y : Float
  derivative : Float

structure InflectionPoint where
  x : Float
  y : Float
  secondDerivative : Float

structure SamplePoint where
  x : Float
  y : Float

structure Extrema where
  min : SamplePoint
  max : SamplePoint

/-- Steps of the differences taken at the points of a scan, and how small a derivative must be to
count as none. -/
def criticalStep : Float := 1e-4
def criticalTolerance : Float := 0.01
def inflectionStep : Float := 1e-3
def inflectionTolerance : Float := 0.01

def criticalPoint? (f : Float → Float) (x : Float) : Option CriticalPoint :=
  let slope := differentiate f x criticalStep
  let y := f x
  if criticalTolerance ≤ slope.abs || slope.isNaN || y.isNaN then none else some ⟨x, y, slope⟩

def criticalPoints (f : Float → Float) (start stop step : Float) : Option (List CriticalPoint) :=
  (scanPoints start stop step).map (List.filterMap (criticalPoint? f))

def inflectionPoint? (f : Float → Float) (x : Float) : Option InflectionPoint :=
  let bend := secondDerivative f x inflectionStep
  let y := f x
  if inflectionTolerance ≤ bend.abs || bend.isNaN || y.isNaN then none else some ⟨x, y, bend⟩

def inflectionPoints (f : Float → Float) (start stop step : Float) :
    Option (List InflectionPoint) :=
  (scanPoints start stop step).map (List.filterMap (inflectionPoint? f))

/-- Takes one more sample into account. An equal value does not replace an earlier one. -/
def Extrema.extend (e : Extrema) (p : SamplePoint) : Extrema :=
  ⟨if p.y < e.min.y then p else e.min, if e.max.y < p.y then p else e.max⟩

def Extrema.ofSamples : List SamplePoint → Option Extrema
  | [] => none
  | p :: ps => some (ps.foldl Extrema.extend ⟨p, p⟩)

/-- The lowest and the highest sample of a scan, if there is a sample that is a number. -/
def extrema (f : Float → Float) (start stop step : Float) : Option (Option Extrema) :=
  (scanPoints start stop step).map fun points =>
    Extrema.ofSamples ((points.map fun x => ⟨x, f x⟩).filter fun p => !p.y.isNaN)

end Reckoner.Calculus
