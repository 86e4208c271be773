import Reckoner.Proofs.Machine.Simulation

/-! Trees in the place of numbers, after compilation. The code of a number is one instruction, so
the code of the larger tree is the code of the smaller one with a program in the place of every such
instruction, and its value depends only on the values of the trees put in. -/
namespace Reckoner

variable {ν μ : Type}

def Opcode.fill (g : ν → Program μ) : Opcode ν → Program μ
  | .load x => g x
  | .binary op => [.binary op]
  | .unary op => [.unary op]
  | .call f argc => [.call f argc]

def Program.fill (g : ν → Program μ) (p : Program ν) : Program μ :=
  p.flatMap (Opcode.fill g)

@[simp] theorem Program.fill_append (g : ν → Program μ) (p q : Program ν) :
    Program.fill g (p ++ q) = Program.fill g p ++ Program.fill g q :=
  List.flatMap_append

namespace Expr

@[simp] theorem length_bindAll (f : ν → Expr μ) (es : List (Expr ν)) :
    (bindAll f es).length = es.length := by
  induction es with
  | nil => rfl
  | cons e es ih => rw [bindAll, List.length_cons, List.length_cons, ih]

mutual

theorem compile_bind {f : ν → Expr μ} {g : ν → Program μ}
    (compiled : ∀ x, (f x).compile = .ok (g x)) :
    (e : Expr ν) → (e.bind f).compile = e.compile.map (Program.fill g)
  | .number x => by
    rw [bind, compiled x]
    simp [compile, Except.map, Program.fill, Opcode.fill]
  | .name s => rfl
  | .binary l sign r => by
    rw [bind, compile, compile, compile_bind compiled l, compile_bind compiled r]
    rcases l.compile with f | left
    · rfl
    rcases r.compile with f | right
    · rfl
    simp only [Except.map, ok_bind]
    cases BinaryOp.ofSign? sign <;> simp [Program.fill, Opcode.fill]
  | .unary sign e => by
    rw [bind, compile, compile, compile_bind compiled e]
    rcases e.compile with f | code
    · rfl
    simp only [Except.map, ok_bind]
    cases UnaryOp.ofSign? sign <;> simp [Program.fill, Opcode.fill]
  | .call s es => by
    rw [bind, compile, compile, compileAll_bindAll compiled es, length_bindAll]
    rcases Builtin.find s es.length with f | builtin
    · rfl
    rcases compileAll es with f | code
    · rfl
    simp [Except.map, Program.fill, Opcode.fill]

theorem compileAll_bindAll {f : ν → Expr μ} {g : ν → Program μ}
    (compiled : ∀ x, (f x).compile = .ok (g x)) :
    (es : List (Expr ν)) → compileAll (bindAll f es) = (compileAll es).map (Program.fill g)
  | [] => rfl
  | e :: es => by
    rw [bindAll, compileAll, compileAll, compile_bind compiled e, compileAll_bindAll compiled es]
    rcases e.compile with f | first
    · rfl
    rcases compileAll es with f | others
    · rfl
    simp [Except.map]

end

mutual

theorem value_bind_congr {mode : AngleMode} {f g : ν → Expr Float}
    (same : ∀ x, (f x).value? mode = (g x).value? mode) :
    (e : Expr ν) → (e.bind f).value? mode = (e.bind g).value? mode
  | .number x => same x
  | .name _ => rfl
  | .binary l sign r => by
    simp only [bind, value?, value_bind_congr same l, value_bind_congr same r]
  | .unary sign e => by
    simp only [bind, value?, value_bind_congr same e]
  | .call s es => by
    simp only [bind, value?, values_bindAll_congr same es, length_bindAll]

theorem values_bindAll_congr {mode : AngleMode} {f g : ν → Expr Float}
    (same : ∀ x, (f x).value? mode = (g x).value? mode) :
    (es : List (Expr ν)) → values? mode (bindAll f es) = values? mode (bindAll g es)
  | [] => rfl
  | e :: es => by
    simp only [bindAll, values?, value_bind_congr same e, values_bindAll_congr same es]

end

end Expr

end Reckoner
