import Reckoner.Constants
import Reckoner.Host.Method
import Reckoner.Logic
import Reckoner.Radix
import Reckoner.Statistics.Normal
import Reckoner.Units

/-! Functions that the host page calls without a session. -/
namespace Reckoner.Host

def numbered (result : Except String Float) : Outcome := .of (result.map .number)

def tool? (name : String) (arguments : List Argument) : Option Outcome :=
  match name, arguments with
  | "solve_quadratic", [.number a, .number b, .number c] =>
    let q := Arithmetic.solveQuadratic a b c
    some (.returned (.object [("x1", .number q.x1), ("x2", .number q.x2),
      ("discriminant", .number q.discriminant)]))
  | "is_prime", [.number n] => some (.returned (.bool (Arithmetic.isPrime n)))
  | "gcd", [.number a, .number b] => some (.returned (.number (Arithmetic.gcd a b)))
  | "lcm", [.number a, .number b] => some (.returned (.number (Arithmetic.lcm a b)))
  | "convert_length", [.number x, .text a, .text b] =>
    some (numbered (inContext name (Units.length.convert x a b)))
  | "convert_mass", [.number x, .text a, .text b] =>
    some (numbered (inContext name (Units.mass.convert x a b)))
  | "convert_time", [.number x, .text a, .text b] =>
    some (numbered (inContext name (Units.time.convert x a b)))
  | "convert_temperature", [.number x, .text a, .text b] =>
    some (numbered (inContext name (Units.convertTemperature x a b)))
  | "to_base", [.number x, .number radix] =>
    some (.of ((inContext name (Radix.toBase x (wholeNumber radix))).map .text))
  | "from_base", [.text text, .number radix] =>
    some (numbered (inContext name (Radix.fromBase text (wholeNumber radix))))
  | "statistics", [.list xs] =>
    some (.returned (.ofSummary (Statistics.summarize xs)))
  | "normal_cdf", [.number x, .number mean, .number deviation] =>
    some (.returned (.number (Statistics.normalProbability x mean deviation)))
  | "normal_pdf", [.number x, .number mean, .number deviation] =>
    some (.returned (.number (Statistics.normalDensity x mean deviation)))
  | "constant", [.text symbol] => some (.returned (.ofOption (constant? symbol)))
  | "bitwise", [.text op, .number a, .number b] =>
    some (numbered (inContext name (do (← Choice.read LogicOp op).applyBitwise a b)))
  | "polar_to_rectangular", [.number r, .number theta, .text word] =>
    some (.of ((inContext name (Choice.read AngleMode word)).map fun mode =>
      let p := Vector.Polar.toRectangular ⟨r, theta⟩ mode
      .floats [p.x, p.y]))
  | "rectangular_to_polar", [.number x, .number y, .text word] =>
    some (.of ((inContext name (Choice.read AngleMode word)).map fun mode =>
      let p := Vector.Rectangular.toPolar ⟨x, y⟩ mode
      .floats [p.r, p.theta]))
  | _, _ => none

end Reckoner.Host
