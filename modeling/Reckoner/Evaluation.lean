import Reckoner.Expression.Normal
import Reckoner.Expression.Parse
import Reckoner.Machine.Run

/-! From text to a number. Only the structure of an expression can fail: arithmetic answers with an
infinity or NaN where it has no number. -/
namespace Reckoner

def evaluateTokens (ts : List (Token Float)) (mode : AngleMode) : Except Error Float := do
  let program ← (← parse ts).compile
  .ok (Program.execute mode program).1

def Normal.evaluate (n : Normal Float) (mode : AngleMode) : Except Error Float :=
  evaluateTokens n.tokens mode

def evaluateText (text : String) (symbols : Symbols) (mode : AngleMode) (policy : ParenPolicy) :
    Except Error Float := do
  (← normalize text symbols none policy).evaluate mode

/-- An expression in one free variable, seen as a function. -/
structure Formula where
  text : String
  free : String
  symbols : Symbols := {}

namespace Formula

/-- The value at a point. Angles are in radians, and parentheses are always repaired. -/
def tryEval (f : Formula) (x : Float) : Except Error Float := do
  (← normalize f.text f.symbols (some ⟨f.free, x⟩) .repair).evaluate .radian

/-- The value at a point, with NaN for a failure. -/
def eval (f : Formula) (x : Float) : Float :=
  match f.tryEval x with
  | .ok y => y
  | .error _ => Binary.nan

end Formula

end Reckoner
