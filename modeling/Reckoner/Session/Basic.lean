import Reckoner.Calculus.Limit
import Reckoner.Calculus.Quadrature
import Reckoner.Calculus.Scan
import Reckoner.Evaluation
import Reckoner.ListLiteral
import Reckoner.Matrix.Dense
import Reckoner.Settings

/-! A calculator session: its settings, stored values, memory and history. An operation that fails
gives no new session, so the old one stays as it was. -/
namespace Reckoner

/-- A committed expression with its value and the text that was shown for it then. -/
structure HistoryEntry where
  expression : String
  value : Float
  display : String
deriving DecidableEq

structure Session where
  settings : Settings := {}
  symbols : Symbols := {}
  memory : Float := 0
  history : List HistoryEntry := []
deriving DecidableEq

namespace Session

def start (settings : Settings) : Session := { settings := settings.clamped }

def setAngle (s : Session) (mode : AngleMode) : Session :=
  { s with settings.angle := mode }

def setDisplay (s : Session) (mode : DisplayMode) : Session :=
  { s with settings.display := mode }

def setPlaces (s : Session) (places : Nat) : Session :=
  { s with settings.places := min places Display.maxPlaces }

def setPolicy (s : Session) (policy : ParenPolicy) : Session :=
  { s with settings.policy := policy }

def evaluate (s : Session) (text : String) : Except Error Float :=
  evaluateText text s.symbols s.settings.angle s.settings.policy

def format (s : Session) (x : Float) : String :=
  s.settings.display.format s.settings.places x

def shown (s : Session) : Except Error Float → String
  | .ok x => s.format x
  | .error e => Error.shown e.message

def record (s : Session) (text : String) (x : Float) : Session :=
  { s with
    symbols.lastAnswer := some x
    history := s.history ++ [⟨text, x, s.format x⟩] }

def commit (s : Session) (text : String) : Except Error (Session × Float) := do
  let x ← s.evaluate text
  .ok (s.record text x, x)

/-- Commits the expression of a history entry once more. -/
def recallEntry (s : Session) (index : Nat) : Except Error (Session × Float) :=
  match s.history[index]? with
  | some entry => s.commit entry.expression
  | none => .error (.domain (.noHistory index))

def setVariable (s : Session) (name : Char) (x : Float) : Except Error Session :=
  if name.isUpper then .ok { s with symbols := s.symbols.set name x }
  else .error (.domain (.notAVariable name))

def storeVariable (s : Session) (name : Char) : Except Error (Session × Float) := do
  let s' ← s.setVariable name s.symbols.answer
  .ok (s', s.symbols.answer)

def clearVariables (s : Session) : Session := { s with symbols := s.symbols.clear }

def memoryAdd (s : Session) : Session := { s with memory := s.memory + s.symbols.answer }

def memorySubtract (s : Session) : Session := { s with memory := s.memory - s.symbols.answer }

def memoryClear (s : Session) : Session := { s with memory := 0 }

def clearHistory (s : Session) : Session := { s with history := [] }

/-- An expression in one free variable, which sees the values stored in the session. -/
def function (s : Session) (text free : String) : Float → Float :=
  (Formula.mk text free s.symbols).eval

def evaluateVector (s : Session) (text : String) : Except Error (List Float) := do
  (← ListLiteral.splitVector text).mapM s.evaluate

def evaluateMatrix (s : Session) (text : String) : Except Error (DenseMatrix Float) := do
  DenseMatrix.ofRows (← (← ListLiteral.splitMatrix text).mapM fun row => row.mapM s.evaluate)

end Session

end Reckoner
