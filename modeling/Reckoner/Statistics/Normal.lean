import Reckoner.Angle
import Reckoner.Binary.Exact

/-! The normal distribution. -/
namespace Reckoner.Statistics

/-- The error function by a polynomial in `1 / (1 + p x)`, within `1.5e-7`. -/
def erf (x : Float) : Float :=
  let sign : Float := if x < 0 then -1 else 1
  let x := x.abs
  let t := 1 / (1 + 0.3275911 * x)
  let poly := ((((1.061405429 * t + -1.453152027) * t + 1.421413741) * t + -0.284496736) * t
    + 0.254829592) * t
  sign * (1 - poly * (-x * x).exp)

/-- The density at a point. There is none without a positive deviation. -/
def normalDensity (x mean stdDev : Float) : Float :=
  if stdDev ≤ 0 then Binary.nan
  else
    let z := (x - mean) / stdDev
    (-0.5 * z * z).exp / (stdDev * (2 * pi).sqrt)

def normalProbability (x mean stdDev : Float) : Float :=
  if stdDev ≤ 0 then Binary.nan
  else 0.5 * (1 + erf ((x - mean) / (stdDev * 1.4142135623730951)))

end Reckoner.Statistics
