import Reckoner.Function.Apply
import Reckoner.Machine.Program

/-! Running a program on a stack of numbers, the top first. -/
namespace Reckoner

/-- The top of a stack and what is under it. An empty stack gives NaN, which keeps a faulty program
visible; a compiled one never meets it. -/
def pop : List Float → Float × List Float
  | x :: stack => (x, stack)
  | [] => (Binary.nan, [])

namespace Opcode

def step (mode : AngleMode) (stack : List Float) : Opcode Float → List Float
  | .load x => x :: stack
  | .binary op =>
    let (b, stack) := pop stack
    let (a, stack) := pop stack
    op.apply a b :: stack
  | .unary op =>
    let (a, stack) := pop stack
    op.apply a :: stack
  | .call f argc => f.apply mode (stack.take argc).reverse :: stack.drop argc

end Opcode

namespace Program

def run (mode : AngleMode) (program : Program Float) (stack : List Float) : List Float :=
  program.foldl (Opcode.step mode) stack

/-- The result of a program and the stack that it leaves. The stack handed in is scratch space: what
an earlier run left on it is dropped first. -/
def executeOn (mode : AngleMode) (program : Program Float) (scratch : List Float) :
    Float × List Float :=
  pop (program.run mode (scratch.take 0))

def execute (mode : AngleMode) (program : Program Float) : Float × List Float :=
  executeOn mode program []

end Program

end Reckoner
