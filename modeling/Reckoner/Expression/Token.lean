import Reckoner.Decimal.Layout

/-! Tokens of an expression. They are generic in what stands for a number, so a value that is not
yet known can take a number's place. -/
namespace Reckoner

inductive Mark where
  | plus
  | minus
  | star
  | slash
  | caret
  | percent
  | bang
  | root
  | comma
  | opening
  | closing
deriving DecidableEq, Repr

def Mark.text : Mark → String
  | .plus => "+"
  | .minus => "-"
  | .star => "*"
  | .slash => "/"
  | .caret => "^"
  | .percent => "%"
  | .bang => "!"
  | .root => "√"
  | .comma => ","
  | .opening => "("
  | .closing => ")"

inductive Token (ν : Type) where
  | number (value : ν)
  | name (text : String)
  | mark (sign : Mark)
deriving DecidableEq

/-- An operand can begin with a number, a name, a parenthesis or a root sign. -/
def Token.startsOperand {ν : Type} : Token ν → Bool
  | .number _ | .name _ | .mark .opening | .mark .root => true
  | .mark _ => false

/-- A word needs a space before a word that follows it. -/
def Token.isWord {ν : Type} : Token ν → Bool
  | .number _ | .name _ => true
  | .mark _ => false

def Token.map {ν μ : Type} (f : ν → μ) : Token ν → Token μ
  | .number x => .number (f x)
  | .name s => .name s
  | .mark m => .mark m

/-- A number is written without an exponent. -/
def Token.text : Token Float → String
  | .number x => Decimal.write "Infinity" Decimal.Scientific.positional x
  | .name s => s
  | .mark m => m.text

end Reckoner
