import Reckoner.Session.Basic

/-! What can be asked of a session, and the replies. -/
namespace Reckoner

/-- A question about an expression in one free variable, answered by sampling it. -/
inductive Inquiry where
  | valueAt (x : Float)
  | derivative (x : Float)
  | integral (a b : Float)
  | trapezoid (a b : Float)
  | limit (point : Float) (direction : String)
  | taylorCoefficients (center : Float)
  | taylorSeries (center point : Float)
  | criticalPoints (start stop : Float)
  | inflectionPoints (start stop : Float)
  | extrema (start stop : Float)

inductive Request where
  | evaluate (text : String)
  | commit (text : String)
  | preview (text : String)
  | calculate (text : String)
  | format (x : Float)
  | storeVariable (name : Char)
  | setVariable (name : Char) (x : Float)
  | getVariable (name : Char)
  | clearVariables
  | lastAnswer
  | memoryAdd
  | memorySubtract
  | memoryClear
  | memoryRecall
  | history
  | clearHistory
  | recall (index : Nat)
  | setAngle (word : String)
  | setDisplay (word : String)
  | setPolicy (word : String)
  | setPlaces (places : Nat)
  | settings
  | matrix (text : String)
  | vector (text : String)
  | inquire (text free : String) (inquiry : Inquiry)

inductive Reply where
  | done
  | number (x : Float)
  | option (x : Option Float)
  | limit (x : Option Float)
  | text (text : String)
  | numbers (xs : List Float)
  | rows (rows : List (List Float))
  | history (entries : List HistoryEntry)
  | settings (settings : Settings)
  | criticalPoints (points : List Calculus.CriticalPoint)
  | inflectionPoints (points : List Calculus.InflectionPoint)
  | extrema (found : Option Calculus.Extrema)
  /-- There is no reply, ever: a scan does not end, or a list would be too long. -/
  | never

def Reply.ofOption {α : Type} (reply : α → Reply) : Option α → Reply
  | some result => reply result
  | none => .never

namespace Session

open Calculus

def answer (s : Session) (f : Float → Float) : Inquiry → Except Error Reply
  | .valueAt x => .ok (.number (f x))
  | .derivative x => .ok (.number (differentiate f x s.settings.calculus.derivativeStep))
  | .integral a b => .ok (.number (integrate f a b s.settings.calculus.integrationIntervals))
  | .trapezoid a b =>
    .ok (.number (integrateTrapezoid f a b s.settings.calculus.integrationIntervals))
  | .limit point word => do
    let direction ← Choice.read LimitDirection word
    .ok (.limit (limit f point direction))
  | .taylorCoefficients center =>
    let c := s.settings.calculus
    .ok (.ofOption .numbers (taylorCoefficients f center c.taylorTerms c.taylorScheme))
  | .taylorSeries center point =>
    let c := s.settings.calculus
    .ok (.ofOption .number (taylorSeries f center c.taylorTerms point c.taylorScheme))
  | .criticalPoints a b =>
    .ok (.ofOption .criticalPoints (criticalPoints f a b s.settings.calculus.scanStep))
  | .inflectionPoints a b =>
    .ok (.ofOption .inflectionPoints (inflectionPoints f a b s.settings.calculus.scanStep))
  | .extrema a b => .ok (.ofOption .extrema (extrema f a b s.settings.calculus.scanStep))

def respond (s : Session) : Request → Except Error (Session × Reply)
  | .evaluate text => do .ok (s, .number (← s.evaluate text))
  | .commit text => do
    let (s', x) ← s.commit text
    .ok (s', .number x)
  | .preview text => .ok (s, .text (s.shown (s.evaluate text)))
  | .calculate text =>
    match s.commit text with
    | .ok (s', x) => .ok (s', .text (s'.format x))
    | .error e => .ok (s, .text (Error.shown e.message))
  | .format x => .ok (s, .text (s.format x))
  | .storeVariable name => do
    let (s', x) ← s.storeVariable name
    .ok (s', .number x)
  | .setVariable name x => do .ok (← s.setVariable name x, .done)
  | .getVariable name => .ok (s, .option (s.symbols.get? name))
  | .clearVariables => .ok (s.clearVariables, .done)
  | .lastAnswer => .ok (s, .option s.symbols.lastAnswer)
  | .memoryAdd => .ok (s.memoryAdd, .number s.memoryAdd.memory)
  | .memorySubtract => .ok (s.memorySubtract, .number s.memorySubtract.memory)
  | .memoryClear => .ok (s.memoryClear, .done)
  | .memoryRecall => .ok (s, .number s.memory)
  | .history => .ok (s, .history s.history)
  | .clearHistory => .ok (s.clearHistory, .done)
  | .recall index => do
    let (s', x) ← s.recallEntry index
    .ok (s', .number x)
  | .setAngle word => do .ok (s.setAngle (← Choice.read AngleMode word), .done)
  | .setDisplay word => do .ok (s.setDisplay (← Choice.read DisplayMode word), .done)
  | .setPolicy word => do .ok (s.setPolicy (← Choice.read ParenPolicy word), .done)
  | .setPlaces places => .ok (s.setPlaces places, .done)
  | .settings => .ok (s, .settings s.settings)
  | .matrix text => do .ok (s, .rows (← s.evaluateMatrix text).toRows)
  | .vector text => do .ok (s, .numbers (← s.evaluateVector text))
  | .inquire text free inquiry => do .ok (s, ← s.answer (s.function text free) inquiry)

/-- Answers a request. After a failure the session is what it was. -/
def perform (s : Session) (r : Request) : Session × Except Error Reply :=
  match s.respond r with
  | .ok (s', reply) => (s', .ok reply)
  | .error e => (s, .error e)

def run (s : Session) (rs : List Request) : Session :=
  rs.foldl (fun s r => (s.perform r).1) s

end Session

end Reckoner
