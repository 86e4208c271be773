/-! Structured data as it is exchanged with the outside: the values of a JSON text. -/
namespace Reckoner

inductive Document where
  | null
  | bool (value : Bool)
  | integer (value : Int)
  | decimal (value : Float)
  | text (value : String)
  | list (elements : List Document)
  | record (fields : List (String × Document))

end Reckoner
