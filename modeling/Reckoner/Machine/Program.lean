import Reckoner.Function.Builtin
import Reckoner.Function.Operator
import Reckoner.Expression.Tree

/-! Programs of the stack machine, and the compiler from trees. -/
namespace Reckoner

/-- One instruction. A call takes its arguments from the stack, the last one on top. -/
inductive Opcode (ν : Type) where
  | load (value : ν)
  | binary (op : BinaryOp)
  | unary (op : UnaryOp)
  | call (f : Builtin) (argc : Nat)
deriving DecidableEq

abbrev Program (ν : Type) := List (Opcode ν)

namespace Expr

variable {ν : Type}

mutual

/-- Operands come before their operator, which is looked at last. The function of a call is looked
up before its arguments are compiled. -/
def compile : Expr ν → Except Error (Program ν)
  | .number x => .ok [.load x]
  | .name s => .error (.unknownIdentifier s)
  | .binary l sign r => do
    let left ← l.compile
    let right ← r.compile
    match BinaryOp.ofSign? sign with
    | some op => .ok (left ++ right ++ [.binary op])
    | none => .error (.read (.unknownBinary sign))
  | .unary sign e => do
    let code ← e.compile
    match UnaryOp.ofSign? sign with
    | some op => .ok (code ++ [.unary op])
    | none => .error (.read (.unknownUnary sign))
  | .call s es => do
    let f ← Builtin.find s es.length
    let code ← compileAll es
    .ok (code ++ [.call f es.length])

def compileAll : List (Expr ν) → Except Error (Program ν)
  | [] => .ok []
  | e :: es => do
    let first ← e.compile
    let others ← compileAll es
    .ok (first ++ others)

end

end Expr

end Reckoner
