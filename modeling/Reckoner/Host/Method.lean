import Reckoner.Host.Value
import Reckoner.Matrix.Determinant
import Reckoner.Vector

/-! The methods that the host page calls on a session. An error is thrown as text, with what was
being done in front of it. -/
namespace Reckoner.Host

inductive Argument where
  | text (value : String)
  | number (value : Float)
  | list (values : List Float)

/-- What is read off a session without changing it. Operands are the texts of lists. -/
inductive Reading where
  | variableNamed (name : String)
  | determinant (text : String)
  | inverse (text : String)
  | transpose (text : String)
  | scale (text : String) (factor : Float)
  | combine (op : DenseMatrix Float → DenseMatrix Float → Except Error (DenseMatrix Float))
    (left right : String)
  | dot (left right : String)
  | cross (left right : String)
  | magnitude (text : String)
  | angle (left right : String)

inductive Call where
  | request (context : String) (r : Request)
  | onVariable (context name : String) (r : Char → Request)
  | recall (index : Nat)
  | reading (r : Reading)

/-- The one character of a name, without the blanks around it. -/
def variableName (name : String) : Except String Char :=
  match Text.trimmed name.toList with
  | [c] => .ok c
  | _ => .error ("variable name must be a single letter, got '" ++ name ++ "'")

/-- A number of the page where 32 bits are taken: its whole part, up to a multiple of `2 ^ 32`. -/
def wholeNumber (x : Float) : Nat :=
  match Binary.decode x with
  | some v => (v.truncate % Int.pow 2 32).toNat
  | none => 0

def Call.ofMethod? (method : String) (arguments : List Argument) : Option Call :=
  let plain (r : Request) := some (Call.request method r)
  let read (r : Reading) := some (Call.reading r)
  let ask (text free : String) (i : Inquiry) := some (Call.request method (.inquire text free i))
  match method, arguments with
  | "settings", [] => plain .settings
  | "set_angle_mode", [.text word] => plain (.setAngle word)
  | "set_display_mode", [.text word] => plain (.setDisplay word)
  | "set_decimal_places", [.number n] => plain (.setPlaces (wholeNumber n))
  | "set_paren_policy", [.text word] => plain (.setPolicy word)
  | "evaluate_expression", [.text text] => plain (.preview text)
  | "calculate", [.text text] => plain (.calculate text)
  | "evaluate_function_at", [.text e, .text v, .number x] => ask e v (.valueAt x)
  | "last_answer", [] => plain .lastAnswer
  | "store_variable", [.text name] => some (.onVariable method name .storeVariable)
  | "set_variable", [.text name, .number x] => some (.onVariable method name (.setVariable · x))
  | "variable", [.text name] => read (.variableNamed name)
  | "clear_variables", [] => plain .clearVariables
  | "memory_add", [] => plain .memoryAdd
  | "memory_subtract", [] => plain .memorySubtract
  | "memory_clear", [] => plain .memoryClear
  | "memory_recall", [] => plain .memoryRecall
  | "history", [] => plain .history
  | "clear_history", [] => plain .clearHistory
  | "recall_history", [.number n] => some (.recall (wholeNumber n))
  | "differentiate", [.text e, .text v, .number x] => ask e v (.derivative x)
  | "integrate", [.text e, .text v, .number a, .number b] => ask e v (.integral a b)
  | "integrate_trapezoid", [.text e, .text v, .number a, .number b] => ask e v (.trapezoid a b)
  | "limit", [.text e, .text v, .number x, .text direction] => ask e v (.limit x direction)
  | "taylor_series", [.text e, .text v, .number c, .number x] => ask e v (.taylorSeries c x)
  | "taylor_coefficients", [.text e, .text v, .number c] => ask e v (.taylorCoefficients c)
  | "find_critical_points", [.text e, .text v, .number a, .number b] =>
    ask e v (.criticalPoints a b)
  | "find_extrema", [.text e, .text v, .number a, .number b] => ask e v (.extrema a b)
  | "find_inflection_points", [.text e, .text v, .number a, .number b] =>
    ask e v (.inflectionPoints a b)
  | "matrix_determinant", [.text a] => read (.determinant a)
  | "matrix_inverse", [.text a] => read (.inverse a)
  | "matrix_transpose", [.text a] => read (.transpose a)
  | "matrix_scale", [.text a, .number x] => read (.scale a x)
  | "matrix_multiply", [.text a, .text b] => read (.combine DenseMatrix.multiply a b)
  | "matrix_add", [.text a, .text b] => read (.combine DenseMatrix.add a b)
  | "matrix_subtract", [.text a, .text b] => read (.combine DenseMatrix.subtract a b)
  | "vector_dot", [.text a, .text b] => read (.dot a b)
  | "vector_cross", [.text a, .text b] => read (.cross a b)
  | "vector_magnitude", [.text a] => read (.magnitude a)
  | "vector_angle", [.text a, .text b] => read (.angle a b)
  | _, _ => none

def plainly {α : Type} (result : Except Error α) : Except String α :=
  result.mapError Error.message

def inContext {α : Type} (context : String) (result : Except Error α) : Except String α :=
  result.mapError fun e => within context e.message

def Outcome.of : Except String Value → Outcome
  | .ok v => .returned v
  | .error message => .thrown message

/-- The value of an operand, named by its side and its text in an error. -/
def matrixOperand (s : Session) (side text : String) : Except String (DenseMatrix Float) :=
  inContext (side ++ " matrix '" ++ text ++ "'") (s.evaluateMatrix text)

def vectorOperand (s : Session) (side text : String) : Except String (List Float) :=
  inContext (side ++ " vector '" ++ text ++ "'") (s.evaluateVector text)

/-- What a reading finds. A variable whose name is none is undefined. -/
def consult (s : Session) : Reading → Except String Value
  | .variableNamed name =>
    match variableName name with
    | .ok c => .ok (.ofOption (s.symbols.get? c))
    | .error _ => .ok .undefined
  | .determinant text => do
    .ok (.number (← plainly (← matrixOperand s "input" text).determinant))
  | .inverse text => do
    .ok (.ofRows (← inContext "inverse" (← matrixOperand s "input" text).inverse).toRows)
  | .transpose text => do .ok (.ofRows (← matrixOperand s "input" text).transpose.toRows)
  | .scale text factor => do .ok (.ofRows ((← matrixOperand s "input" text).scale factor).toRows)
  | .combine op a b => do
    let left ← matrixOperand s "left" a
    let right ← matrixOperand s "right" b
    .ok (.ofRows (← plainly (op left right)).toRows)
  | .dot a b => do
    let left ← vectorOperand s "left" a
    let right ← vectorOperand s "right" b
    .ok (.number (← plainly (Vector.dot left right)))
  | .cross a b => do
    let left ← vectorOperand s "left" a
    let right ← vectorOperand s "right" b
    .ok (.floats (← plainly (Vector.cross left right)))
  | .magnitude text => do .ok (.number (Vector.magnitude (← vectorOperand s "input" text)))
  | .angle a b => do
    let left ← vectorOperand s "left" a
    let right ← vectorOperand s "right" b
    .ok (.number (← plainly (Vector.angleBetween left right s.settings.angle)))

def send (s : Session) (context : String) (r : Request) : Session × Outcome :=
  match s.perform r with
  | (s', .ok reply) => (s', .ofReply reply)
  | (s', .error e) => (s', .thrown (within context e.message))

def invoke (s : Session) : Call → Session × Outcome
  | .request context r => send s context r
  | .onVariable context name r =>
    match variableName name with
    | .ok c => send s context (r c)
    | .error message => (s, .thrown (within context message))
  | .recall index =>
    match s.recallEntry index with
    | .ok (s', x) => (s', .returned (.text (s'.format x)))
    | .error e => (s, .returned (.text (Error.shown e.message)))
  | .reading r => (s, .of (consult s r))

/-- A number is an integer when it is whole and a double tells it from its neighbours. -/
def crossed : Document → Document
  | .integer n => if n.natAbs < Nat.pow 2 53 then .integer n else .decimal (Binary.ofInt n)
  | .decimal x =>
    match Binary.integer? x with
    | some n => if n.natAbs < Nat.pow 2 53 then .integer n else .decimal x
    | none => .decimal x
  | d => d

mutual

/-- A document whose numbers have crossed as doubles. -/
def received : Document → Document
  | .list ds => .list (receivedAll ds)
  | .record fields => .record (receivedFields fields)
  | d => crossed d

def receivedAll : List Document → List Document
  | [] => []
  | d :: ds => received d :: receivedAll ds

def receivedFields : List (String × Document) → List (String × Document)
  | [] => []
  | (key, d) :: rest => (key, received d) :: receivedFields rest

end

/-- A session from settings of the page; none, or null ones, are the defaults. -/
def start : Option Document → Option Session
  | none | some .null => some (Session.start {})
  | some d => (Settings.load (received d)).map Session.start

end Reckoner.Host
