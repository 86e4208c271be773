import Reckoner.Error
import Reckoner.Text.Blank

/-! Bracketed lists: splitting `[a, b]` and `[[a, b], [c, d]]` into the texts of their elements.
A comma inside brackets or parentheses does not separate. -/
namespace Reckoner.ListLiteral

/-- The text between an opening bracket at the front and a closing one at the end. -/
def stripBrackets (text : List Char) : Except Error (List Char) :=
  match text with
  | '[' :: rest =>
    if rest.getLast? = some ']' then .ok rest.dropLast
    else .error (.read (.notAList (String.ofList text)))
  | _ => .error (.read (.notAList (String.ofList text)))

/-- The depth after a character; nothing when it closes a bracket that is not open. The depth is
counted in 32 bits with a sign, so that one more than the largest is negative as well. -/
def depthAfter (depth : Nat) (c : Char) : Option Nat :=
  if c == '[' || c == '(' then if depth + 1 < Nat.pow 2 31 then some (depth + 1) else none
  else if c == ']' || c == ')' then if depth = 0 then none else some (depth - 1)
  else some depth

/-- Splits at the commas outside of all brackets. The brackets must close. -/
def pieces (depth : Nat) : List Char → Option (List (List Char))
  | [] => if depth = 0 then some [[]] else none
  | c :: rest =>
    match depthAfter depth c with
    | none => none
    | some d =>
      match pieces d rest with
      | none => none
      | some parts =>
        if c == ',' && d == 0 then some ([] :: parts)
        else
          match parts with
          | [] => some [[c]]
          | part :: others => some ((c :: part) :: others)

/-- The elements between commas, without the blanks around them. None may be empty. -/
def elements (text : List Char) : Except Error (List (List Char)) :=
  match pieces 0 text with
  | none => .error (.read .unbalancedList)
  | some parts =>
    let parts := parts.map Text.trimmed
    if parts.any List.isEmpty then .error (.read .emptyElement) else .ok parts

def row (text : List Char) : Except Error (List String) := do
  .ok ((← elements (← stripBrackets (Text.trimmed text))).map String.ofList)

def splitVector (text : String) : Except Error (List String) := row text.toList

def splitMatrix (text : String) : Except Error (List (List String)) := do
  (← elements (← stripBrackets (Text.trimmed text.toList))).mapM row

end Reckoner.ListLiteral
