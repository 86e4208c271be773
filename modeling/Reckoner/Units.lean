import Reckoner.Error

/-! Conversion between units of length, mass, time and temperature. -/
namespace Reckoner.Units

abbrev Scale := List (String × Float)

/-- Metres in a unit. -/
def length : Scale :=
  [("m", 1.0), ("km", 1000.0), ("cm", 0.01), ("mm", 0.001), ("mi", 1609.34), ("yd", 0.9144),
   ("ft", 0.3048), ("in", 0.0254)]

/-- Kilograms in a unit. -/
def mass : Scale :=
  [("kg", 1.0), ("g", 0.001), ("mg", 1e-6), ("lb", 0.45359237), ("oz", 0.028349523125),
   ("t", 1000.0)]

/-- Seconds in a unit. -/
def time : Scale :=
  [("s", 1.0), ("ms", 0.001), ("min", 60.0), ("h", 3600.0), ("d", 86400.0), ("wk", 604800.0)]

def Scale.factor (scale : Scale) (unit : String) : Except Error Float :=
  match scale.lookup unit with
  | some x => .ok x
  | none => .error (.unknownUnit unit)

def Scale.convert (scale : Scale) (x : Float) (source target : String) : Except Error Float := do
  let a ← scale.factor source
  let b ← scale.factor target
  .ok (x * a / b)

def toCelsius (x : Float) : String → Except Error Float
  | "C" => .ok x
  | "F" => .ok ((x - 32) * 5 / 9)
  | "K" => .ok (x - 273.15)
  | unit => .error (.unknownUnit unit)

def ofCelsius (x : Float) : String → Except Error Float
  | "C" => .ok x
  | "F" => .ok (x * 9 / 5 + 32)
  | "K" => .ok (x + 273.15)
  | unit => .error (.unknownUnit unit)

def convertTemperature (x : Float) (source target : String) : Except Error Float := do
  ofCelsius (← toCelsius x source) target

end Reckoner.Units
