import Reckoner.Angle
import Reckoner.Calculus.Taylor
import Reckoner.Display
import Reckoner.Expression.Normal

/-! The settings of a session. -/
namespace Reckoner

structure CalculusSettings where
  derivativeStep : Float := 1e-4
  integrationIntervals : Nat := 1000
  scanStep : Float := 0.1
  taylorTerms : Nat := 6
  taylorScheme : TaylorScheme := .repeatedFirstDifference
deriving DecidableEq

structure Settings where
  angle : AngleMode := .degree
  display : DisplayMode := .fixed
  places : Nat := 10
  policy : ParenPolicy := .repair
  calculus : CalculusSettings := {}
deriving DecidableEq

def Settings.clamped (s : Settings) : Settings :=
  { s with places := min s.places Display.maxPlaces }

end Reckoner
