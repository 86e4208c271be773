import Reckoner.Binary.Integral
import Reckoner.Choice

/-! Logic on truth values, and on the integer parts of numbers as words of 64 bits. -/
namespace Reckoner

inductive LogicOp where
  | and
  | or
  | xor
  | nand
  | nor
  | xnor
deriving DecidableEq, Repr

instance : Choice LogicOp where
  kind := "logic operator"
  words := [("and", .and), ("or", .or), ("xor", .xor), ("nand", .nand), ("nor", .nor),
    ("xnor", .xnor)]

namespace LogicOp

def apply : LogicOp → Bool → Bool → Bool
  | .and, a, b => a && b
  | .or, a, b => a || b
  | .xor, a, b => a != b
  | .nand, a, b => !(a && b)
  | .nor, a, b => !(a || b)
  | .xnor, a, b => a == b

def onWords : LogicOp → BitVec 64 → BitVec 64 → BitVec 64
  | .and, a, b => a &&& b
  | .or, a, b => a ||| b
  | .xor, a, b => a ^^^ b
  | .nand, a, b => ~~~(a &&& b)
  | .nor, a, b => ~~~(a ||| b)
  | .xnor, a, b => ~~~(a ^^^ b)

/-- The integer part of a number of magnitude below `2 ^ 63`, as a word. -/
def toWord (x : Float) : Except Error (BitVec 64) :=
  match Binary.decode x with
  | some v =>
    if v.truncate.natAbs < Nat.pow 2 63 then .ok (BitVec.ofInt 64 v.truncate)
    else .error (.domain (.notAWord x))
  | none => .error (.domain (.notAWord x))

def ofWord (w : BitVec 64) : Float := Binary.ofInt w.toInt

def applyBitwise (op : LogicOp) (a b : Float) : Except Error Float := do
  let x ← toWord a
  let y ← toWord b
  .ok (ofWord (op.onWords x y))

end LogicOp

def bitwiseNot (a : Float) : Except Error Float := do
  let x ← LogicOp.toWord a
  .ok (LogicOp.ofWord (~~~x))

end Reckoner
