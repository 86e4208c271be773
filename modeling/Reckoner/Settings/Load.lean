import Reckoner.Binary.Integral
import Reckoner.Document
import Reckoner.Settings

/-! Settings as a document. A document may leave out any field, which then has its default; a field
that is not known is passed over. -/
namespace Reckoner

class Named (α : Type) where
  name : α → String
  values : List α

instance : Named AngleMode where
  name
    | .degree => "degree"
    | .radian => "radian"
    | .grad => "grad"
  values := [.degree, .radian, .grad]

instance : Named DisplayMode where
  name
    | .fixed => "fixed"
    | .scientific => "scientific"
    | .engineering => "engineering"
  values := [.fixed, .scientific, .engineering]

instance : Named ParenPolicy where
  name
    | .repair => "repair"
    | .strict => "strict"
  values := [.repair, .strict]

instance : Named TaylorScheme where
  name
    | .repeatedFirstDifference => "repeated_first_difference"
    | .iteratedCentralDifference => "iterated_central_difference"
  values := [.repeatedFirstDifference, .iteratedCentralDifference]

namespace Document

/-- A value by its exact name, alone or as the only key of a record whose entry is null. -/
def named? {α : Type} [Named α] : Document → Option α
  | .text s => Named.values.find? (Named.name · == s)
  | .record [(s, .null)] => Named.values.find? (Named.name · == s)
  | _ => none

/-- An integer of 64 bits that is not negative. -/
def count? : Document → Option Nat
  | .integer n => if 0 ≤ n ∧ n < Int.pow 2 64 then some n.toNat else none
  | _ => none

def number? : Document → Option Float
  | .integer n => some (Binary.ofInt n)
  | .decimal x => some x
  | _ => none

/-- The entries for some keys: those of a record by name, those of a list by position. A list may
be shorter than the keys but not longer. -/
def entries? (keys : List String) : Document → Option (List (String × Document))
  | .record fields => some fields
  | .list elements => if elements.length ≤ keys.length then some (keys.zip elements) else none
  | _ => none

/-- Reads the entry of a key, or takes the default where there is none. -/
def field? {α : Type} (entries : List (String × Document)) (key : String)
    (read : Document → Option α) (default : α) : Option α :=
  match entries.lookup key with
  | some d => read d
  | none => some default

end Document

open Document

def CalculusSettings.keys : List String :=
  ["derivative_step", "integration_intervals", "scan_step", "taylor_terms", "taylor_scheme"]

def CalculusSettings.load (d : Document) : Option CalculusSettings := do
  let entries ← entries? keys d
  let default : CalculusSettings := {}
  let derivativeStep ← field? entries "derivative_step" number? default.derivativeStep
  let integrationIntervals ←
    field? entries "integration_intervals" count? default.integrationIntervals
  let scanStep ← field? entries "scan_step" number? default.scanStep
  let taylorTerms ← field? entries "taylor_terms" count? default.taylorTerms
  let taylorScheme ← field? entries "taylor_scheme" named? default.taylorScheme
  some { derivativeStep, integrationIntervals, scanStep, taylorTerms, taylorScheme }

def CalculusSettings.entries (s : CalculusSettings) : List (String × Document) := [
  ("derivative_step", .decimal s.derivativeStep),
  ("integration_intervals", .integer s.integrationIntervals),
  ("scan_step", .decimal s.scanStep),
  ("taylor_terms", .integer s.taylorTerms),
  ("taylor_scheme", .text (Named.name s.taylorScheme))]

def CalculusSettings.toDocument (s : CalculusSettings) : Document := .record s.entries

namespace Settings

def keys : List String :=
  ["angle_mode", "display_mode", "decimal_places", "paren_policy", "calculus"]

def load (d : Document) : Option Settings := do
  let entries ← entries? keys d
  let default : Settings := {}
  let angle ← field? entries "angle_mode" named? default.angle
  let display ← field? entries "display_mode" named? default.display
  let places ← field? entries "decimal_places" count? default.places
  let policy ← field? entries "paren_policy" named? default.policy
  let calculus ← field? entries "calculus" CalculusSettings.load default.calculus
  some { angle, display, places := min places Display.maxPlaces, policy, calculus }

def entries (s : Settings) : List (String × Document) := [
  ("angle_mode", .text (Named.name s.angle)),
  ("display_mode", .text (Named.name s.display)),
  ("decimal_places", .integer s.places),
  ("paren_policy", .text (Named.name s.policy)),
  ("calculus", s.calculus.toDocument)]

def toDocument (s : Settings) : Document := .record s.entries

end Settings

end Reckoner
