import Reckoner.Arithmetic.Counting

/-! The operators of an expression and what they compute. -/
namespace Reckoner

inductive BinaryOp where
  | add
  | sub
  | mul
  | div
  | pow
  | rem
deriving DecidableEq, Repr

inductive UnaryOp where
  | neg
  | percent
  | factorial
deriving DecidableEq, Repr

def BinaryOp.ofSign? : Char → Option BinaryOp
  | '+' => some .add
  | '-' => some .sub
  | '*' => some .mul
  | '/' => some .div
  | '^' => some .pow
  | '%' => some .rem
  | _ => none

def UnaryOp.ofSign? : Char → Option UnaryOp
  | '-' => some .neg
  | '%' => some .percent
  | '!' => some .factorial
  | _ => none

def BinaryOp.apply : BinaryOp → Float → Float → Float
  | .add, a, b => a + b
  | .sub, a, b => a - b
  | .mul, a, b => a * b
  | .div, a, b => a / b
  | .pow, a, b => a.pow b
  | .rem, a, b => Binary.remainder a b

def UnaryOp.apply : UnaryOp → Float → Float
  | .neg, a => -a
  | .percent, a => a / 100
  | .factorial, a => Arithmetic.factorial a

end Reckoner
