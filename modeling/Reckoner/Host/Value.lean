import Reckoner.Settings.Load
import Reckoner.Session.Request
import Reckoner.Statistics.Sample

/-! Values that cross to the page that hosts a calculator. All numbers cross as doubles. -/
namespace Reckoner.Host

inductive Value where
  | undefined
  | null
  | bool (value : Bool)
  | number (value : Float)
  | text (value : String)
  | array (elements : List Value)
  | object (fields : List (String × Value))
  | floats (values : List Float)

/-- What a call gives: a value, or the text of what it throws, or nothing ever. -/
inductive Outcome where
  | returned (value : Value)
  | thrown (message : String)
  | never

def within (context : String) (message : String) : String := context ++ ": " ++ message

namespace Value

/-- An absent number is undefined. -/
def ofOption : Option Float → Value
  | some x => .number x
  | none => .undefined

def ofNat (n : Nat) : Value := .number (Binary.ofInt n)

def ofRows (rows : List (List Float)) : Value :=
  .array (rows.map fun row => .array (row.map .number))

mutual

def ofDocument : Document → Value
  | .null => .null
  | .bool b => .bool b
  | .integer n => .number (Binary.ofInt n)
  | .decimal x => .number x
  | .text s => .text s
  | .list ds => .array (ofElements ds)
  | .record fields => .object (ofFields fields)

def ofElements : List Document → List Value
  | [] => []
  | d :: ds => ofDocument d :: ofElements ds

def ofFields : List (String × Document) → List (String × Value)
  | [] => []
  | (key, d) :: rest => (key, ofDocument d) :: ofFields rest

end

def ofEntry (e : HistoryEntry) : Value :=
  .object [("expression", .text e.expression), ("value", .number e.value),
    ("display", .text e.display)]

def ofCritical (p : Calculus.CriticalPoint) : Value :=
  .object [("x", .number p.x), ("y", .number p.y), ("derivative", .number p.derivative)]

def ofInflection (p : Calculus.InflectionPoint) : Value :=
  .object [("x", .number p.x), ("y", .number p.y),
    ("second_derivative", .number p.secondDerivative)]

def ofSample (p : Calculus.SamplePoint) : Value :=
  .object [("x", .number p.x), ("y", .number p.y)]

def ofSummary (s : Statistics.Summary) : Value :=
  .object [("count", ofNat s.count), ("mean", .number s.mean), ("median", .number s.median),
    ("mode", .array (s.mode.map .number)), ("variance", .number s.variance),
    ("std_dev", .number s.stdDev), ("min", .number s.min), ("max", .number s.max)]

end Value

/-- Extrema that were not found are null; a limit or a value that is not there is undefined. -/
def Outcome.ofReply : Reply → Outcome
  | .done => .returned .undefined
  | .number x => .returned (.number x)
  | .option x => .returned (.ofOption x)
  | .limit x => .returned (.ofOption x)
  | .text s => .returned (.text s)
  | .numbers xs => .returned (.floats xs)
  | .rows rows => .returned (.ofRows rows)
  | .history entries => .returned (.array (entries.map .ofEntry))
  | .settings s => .returned (.ofDocument s.toDocument)
  | .criticalPoints points => .returned (.array (points.map .ofCritical))
  | .inflectionPoints points => .returned (.array (points.map .ofInflection))
  | .extrema (some e) => .returned (.object [("min", .ofSample e.min), ("max", .ofSample e.max)])
  | .extrema none => .returned .null
  | .never => .never

end Reckoner.Host
