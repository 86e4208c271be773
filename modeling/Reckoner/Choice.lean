import Reckoner.Error
import Reckoner.Text.Blank

/-! Settings that are chosen by a word. -/
namespace Reckoner

/-- The words for the values of a type, in lower case. -/
class Choice (α : Type) where
  kind : String
  words : List (String × α)

/-- Reads a word without regard to case or to the blanks around it. -/
def Choice.read (α : Type) [Choice α] (text : String) : Except Error α :=
  let word := (Text.trim text).toLower
  match (Choice.words (α := α)).lookup word with
  | some value => .ok value
  | none => .error (.read (.unknownChoice (Choice.kind α) word))

end Reckoner
