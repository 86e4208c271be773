import Reckoner.Expression.Token

/-! What can go wrong, by cause, and the message for each cause. -/
namespace Reckoner

inductive ParenFault where
  | missingClosing
  | extraClosing
deriving DecidableEq, Repr

def ParenFault.text : ParenFault → String
  | .missingClosing => "missing closing parenthesis"
  | .extraClosing => "extra closing parenthesis"

/-- Text that cannot be read: a literal, a list of tokens, a tree with unknown operators, the name
of a setting, or a bracketed list. -/
inductive ReadFault where
  | malformedNumber (literal : String)
  | unexpectedCharacter (c : Char)
  | emptyExpression
  | unexpected (found : Option Mark)
  | unclosed (found : Option Mark)
  | unknownBinary (sign : Char)
  | unknownUnary (sign : Char)
  | unknownChoice (kind text : String)
  | notAList (text : String)
  | unbalancedList
  | emptyElement
deriving DecidableEq

def ReadFault.text : ReadFault → String
  | .malformedNumber literal => "malformed number '" ++ literal ++ "'"
  | .unexpectedCharacter c => "unexpected character '" ++ c.toString ++ "'"
  | .emptyExpression => "empty expression"
  | .unexpected (some m) => "unexpected '" ++ m.text ++ "'"
  | .unexpected none => "unexpected end of expression"
  | .unclosed (some m) => "expected ')', found '" ++ m.text ++ "'"
  | .unclosed none => "expected ')'"
  | .unknownBinary sign => "unknown binary operator '" ++ sign.toString ++ "'"
  | .unknownUnary sign => "unknown unary operator '" ++ sign.toString ++ "'"
  | .unknownChoice kind text => "unknown " ++ kind ++ " '" ++ text ++ "'"
  | .notAList text => "expected a bracketed list, got '" ++ text ++ "'"
  | .unbalancedList => "unbalanced brackets in list"
  | .emptyElement => "empty list element"

inductive DomainFault where
  | unsupportedRadix (radix : Nat)
  | notAnInteger (value : Float)
  | notInRadix (text : String) (radix : Nat)
  | notAWord (value : Float)
  | notAVariable (name : Char)
  | noHistory (index : Nat)
deriving DecidableEq

def DomainFault.text : DomainFault → String
  | .unsupportedRadix radix => "unsupported radix " ++ radix.repr
  | .notAnInteger value => Decimal.plain value ++ " is not an integer that fits base conversion"
  | .notInRadix text radix => "'" ++ text ++ "' is not a base-" ++ radix.repr ++ " number"
  | .notAWord value => Decimal.plain value ++ " is out of range for bitwise logic"
  | .notAVariable name => "variable names are A-Z, got '" ++ name.toString ++ "'"
  | .noHistory index => "no history entry " ++ index.repr

/-- Matrices and vectors whose sizes do not fit an operation or each other. -/
inductive ShapeFault where
  | noRows
  | noColumns
  | ragged (row entries expected : Nat)
  | different (rows columns rows' columns' : Nat)
  | notComposable (rows columns rows' columns' : Nat)
  | notSquare (rows columns : Nat)
  | lengths (left right : Nat)
  | notThree
deriving DecidableEq, Repr

def extent (rows columns : Nat) : String := rows.repr ++ "x" ++ columns.repr

def ShapeFault.text : ShapeFault → String
  | .noRows => "matrix must have at least one row"
  | .noColumns => "matrix must have at least one column"
  | .ragged row entries expected =>
    "row " ++ row.repr ++ " has " ++ entries.repr ++ " entries, expected " ++ expected.repr
  | .different r c r' c' => extent r c ++ " and " ++ extent r' c' ++ " matrices differ in shape"
  | .notComposable r c r' c' => "cannot multiply " ++ extent r c ++ " by " ++ extent r' c'
  | .notSquare r c => "expected a non-empty square matrix, got " ++ extent r c
  | .lengths m n => "vectors have lengths " ++ m.repr ++ " and " ++ n.repr
  | .notThree => "cross product needs two 3-vectors"

inductive Error where
  | paren (fault : ParenFault)
  | read (fault : ReadFault)
  | unknownIdentifier (name : String)
  | unknownFunction (name : String)
  | arity (name : String) (expected : List Nat) (got : Nat)
  | domain (fault : DomainFault)
  | dimension (fault : ShapeFault)
  | singular
  | unknownUnit (name : String)
deriving DecidableEq

namespace Error

/-! The wording around a payload, also for a payload that did not come from a fault above. -/

def readText (detail : String) : String := "parse error: " ++ detail
def unknownIdentifierText (name : String) : String := "unknown identifier: " ++ name
def unknownFunctionText (name : String) : String := "unknown function: " ++ name

def arityText (name expected : String) (got : Nat) : String :=
  name ++ " expects " ++ expected ++ " argument(s), got " ++ got.repr

def domainText (detail : String) : String := "domain error: " ++ detail
def dimensionText (detail : String) : String := "dimension mismatch: " ++ detail
def singularText : String := "matrix has no inverse"
def unknownUnitText (name : String) : String := "unknown unit: " ++ name

def message : Error → String
  | .paren fault => fault.text
  | .read fault => readText fault.text
  | .unknownIdentifier name => unknownIdentifierText name
  | .unknownFunction name => unknownFunctionText name
  | .arity name expected got => arityText name (" or ".intercalate (expected.map Nat.repr)) got
  | .domain fault => domainText fault.text
  | .dimension fault => dimensionText fault.text
  | .singular => singularText
  | .unknownUnit name => unknownUnitText name

/-- Text shown in place of a result. A message of sixty characters or more is left out. -/
def shown (message : String) : String :=
  if message.length < 60 then "Error: " ++ message else "Error"

end Error

end Reckoner
