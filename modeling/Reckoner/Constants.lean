import Reckoner.Angle

/-! Named constants. The physical ones can be asked for by name only: in an expression a single
letter is a stored variable. -/
namespace Reckoner

def euler : Float := 2.718281828459045
def goldenRatio : Float := 1.618033988749895

def expressionConstant? : String → Option Float
  | "π" | "pi" | "PI" | "Pi" => some pi
  | "e" => some euler
  | "φ" | "phi" => some goldenRatio
  | _ => none

/-- Mathematical constants, and physical ones in units of the metre, kilogram and second. -/
def constant? : String → Option Float
  | "π" | "pi" => some pi
  | "e" => some euler
  | "φ" | "phi" => some goldenRatio
  -- the speed of light
  | "c" => some 299792458.0
  -- the constant of gravitation
  | "G" => some 6.67430e-11
  -- the Planck constant, and the same over a full turn
  | "h" => some 6.62607015e-34
  | "ℏ" | "hbar" => some 1.054571817e-34
  -- the Boltzmann constant
  | "k" => some 1.380649e-23
  -- the Avogadro constant
  | "N_A" => some 6.02214076e23
  | _ => none

end Reckoner
