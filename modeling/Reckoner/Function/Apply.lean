import Reckoner.Angle
import Reckoner.Arithmetic.Counting
import Reckoner.Arithmetic.Divisor
import Reckoner.Arithmetic.Prime
import Reckoner.Arithmetic.Root
import Reckoner.Binary.Root
import Reckoner.Function.Builtin

/-! What the functions of an expression compute. -/
namespace Reckoner

/-- Angles are read and reported in the given mode. A missing argument counts as NaN, and further
arguments are not looked at. -/
def Builtin.apply (f : Builtin) (mode : AngleMode) (arguments : List Float) : Float :=
  let a := arguments[0]?.getD Binary.nan
  let b := arguments[1]?.getD Binary.nan
  match f with
  | .sin => mode.sin a
  | .cos => mode.cos a
  | .tan => mode.tan a
  | .asin => mode.asin a
  | .acos => mode.acos a
  | .atan => mode.atan a
  | .sec => mode.sec a
  | .csc => mode.csc a
  | .cot => mode.cot a
  | .sinh => a.sinh
  | .cosh => a.cosh
  | .tanh => a.tanh
  | .sqrt => a.sqrt
  | .cbrt => Binary.cubeRoot a
  | .root => Arithmetic.nthRoot a b
  | .pow => a.pow b
  | .abs => a.abs
  | .floor => Binary.floor a
  | .ceil => Binary.ceiling a
  | .round => Binary.roundHalfUp a
  | .trunc => Binary.truncate a
  | .exp => a.exp
  | .pow10 => Float.pow 10 a
  | .ln => a.log
  | .log10 => a.log10
  | .logBase => a.log / b.log
  | .factorial => Arithmetic.factorial a
  | .perm => Arithmetic.permutation a b
  | .comb => Arithmetic.combination a b
  | .gcd => Arithmetic.gcd a b
  | .lcm => Arithmetic.lcm a b
  | .mod => Binary.remainder a b
  | .isPrime => if Arithmetic.isPrime a then 1 else 0

end Reckoner
