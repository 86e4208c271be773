import Reckoner.Machine.Run
import Reckoner.Proofs.Result

/-! The value of a tree without a machine, and compiled programs against it. A program is compiled
in the middle of others, so it is followed on every stack: it takes nothing from the stack it finds
and leaves one number more on it. -/
namespace Reckoner

namespace Expr

mutual

/-- What a tree means. A name, a sign without a meaning or a call without a function has no
value. -/
def value? (mode : AngleMode) : Expr Float → Option Float
  | .number x => some x
  | .name _ => none
  | .binary l sign r => do
    let a ← l.value? mode
    let b ← r.value? mode
    match sign with
    | '+' => some (a + b)
    | '-' => some (a - b)
    | '*' => some (a * b)
    | '/' => some (a / b)
    | '^' => some (a.pow b)
    | '%' => some (Binary.remainder a b)
    | _ => none
  | .unary sign e => do
    let a ← e.value? mode
    match sign with
    | '-' => some (-a)
    | '%' => some (a / 100)
    | '!' => some (Arithmetic.factorial a)
    | _ => none
  | .call s es => do
    let xs ← values? mode es
    match Builtin.find s es.length with
    | .ok f => some (f.apply mode xs)
    | .error _ => none

def values? (mode : AngleMode) : List (Expr Float) → Option (List Float)
  | [] => some []
  | e :: es => do
    let x ← e.value? mode
    let xs ← values? mode es
    some (x :: xs)

end

end Expr

def Opcode.operands {ν : Type} : Opcode ν → Nat
  | .load _ => 0
  | .binary _ => 2
  | .unary _ => 1
  | .call _ argc => argc

namespace Program

/-- Whether every instruction of a program finds its operands on the stack. -/
def Fed (mode : AngleMode) : Program Float → List Float → Prop
  | [], _ => True
  | op :: rest, stack => op.operands ≤ stack.length ∧ Fed mode rest (op.step mode stack)

@[simp] theorem run_cons (mode : AngleMode) (op : Opcode Float) (p : Program Float)
    (stack : List Float) : run mode (op :: p) stack = run mode p (op.step mode stack) := rfl

theorem run_append (mode : AngleMode) (p q : Program Float) (stack : List Float) :
    run mode (p ++ q) stack = run mode q (run mode p stack) :=
  List.foldl_append

theorem fed_append (mode : AngleMode) (p q : Program Float) (stack : List Float) :
    Fed mode (p ++ q) stack ↔ Fed mode p stack ∧ Fed mode q (run mode p stack) := by
  induction p generalizing stack with
  | nil => simp [Fed, run]
  | cons op p ih => simp only [List.cons_append, Fed, ih, run_cons, and_assoc]

/-- A program that takes nothing from the stack it starts on and leaves some numbers on it, the
last one on top. -/
structure Pushes (mode : AngleMode) (p : Program Float) (xs : List Float) : Prop where
  run_eq : ∀ stack, run mode p stack = xs.reverse ++ stack
  fed : ∀ stack, Fed mode p stack

namespace Pushes

variable {mode : AngleMode} {p q : Program Float} {xs ys : List Float}

theorem nil : Pushes mode [] [] := ⟨fun _ => rfl, fun _ => trivial⟩

theorem load (x : Float) : Pushes mode [.load x] [x] :=
  ⟨fun _ => rfl, fun _ => ⟨Nat.zero_le _, trivial⟩⟩

theorem append (hp : Pushes mode p xs) (hq : Pushes mode q ys) :
    Pushes mode (p ++ q) (xs ++ ys) where
  run_eq stack := by
    rw [run_append, hp.run_eq, hq.run_eq, List.reverse_append, List.append_assoc]
  fed stack := (fed_append mode p q stack).mpr ⟨hp.fed stack, hq.fed _⟩

/-- An instruction that takes exactly the numbers pushed before it. -/
theorem then_step {op : Opcode Float} {y : Float} (hp : Pushes mode p xs)
    (takes : op.operands = xs.length)
    (result : ∀ stack, op.step mode (xs.reverse ++ stack) = y :: stack) :
    Pushes mode (p ++ [op]) [y] where
  run_eq stack := by
    rw [run_append, hp.run_eq, run_cons, result]
    rfl
  fed stack := by
    refine (fed_append mode p [op] stack).mpr ⟨hp.fed stack, ?_, trivial⟩
    rw [hp.run_eq, List.length_append, List.length_reverse, takes]
    exact Nat.le_add_right _ _

/-- The one number that a program pushes is its result, whatever an earlier run left behind. -/
theorem executeOn_eq {x : Float} (hp : Pushes mode p [x]) (scratch : List Float) :
    executeOn mode p scratch = (x, []) := by
  rw [executeOn, List.take_zero, hp.run_eq]
  rfl

end Pushes

end Program

namespace Expr

open Program

theorem binary_value {mode : AngleMode} {l r : Expr Float} {sign : Char} {op : BinaryOp}
    {a b : Float} (hl : l.value? mode = some a) (hr : r.value? mode = some b)
    (found : BinaryOp.ofSign? sign = some op) :
    (binary l sign r).value? mode = some (op.apply a b) := by
  unfold BinaryOp.ofSign? at found
  split at found <;> cases found <;> simp [value?, hl, hr, BinaryOp.apply]

theorem unary_value {mode : AngleMode} {e : Expr Float} {sign : Char} {op : UnaryOp} {a : Float}
    (he : e.value? mode = some a) (found : UnaryOp.ofSign? sign = some op) :
    (unary sign e).value? mode = some (op.apply a) := by
  unfold UnaryOp.ofSign? at found
  split at found <;> cases found <;> simp [value?, he, UnaryOp.apply]

mutual

theorem compile_pushes (mode : AngleMode) : (e : Expr Float) → {code : Program Float} →
    e.compile = .ok code → ∃ v, e.value? mode = some v ∧ Pushes mode code [v]
  | .number x, _, h => by
    cases h
    exact ⟨x, rfl, .load x⟩
  | .name _, _, h => by cases h
  | .binary l sign r, _, h => by
    simp only [compile, bind_eq_ok] at h
    obtain ⟨left, hl, right, hr, h⟩ := h
    obtain ⟨a, ha, pa⟩ := compile_pushes mode l hl
    obtain ⟨b, hb, pb⟩ := compile_pushes mode r hr
    split at h
    · rename_i op found
      cases h
      exact ⟨op.apply a b, binary_value ha hb found, (pa.append pb).then_step rfl fun _ => rfl⟩
    · cases h
  | .unary sign e, _, h => by
    simp only [compile, bind_eq_ok] at h
    obtain ⟨inner, he, h⟩ := h
    obtain ⟨a, ha, pa⟩ := compile_pushes mode e he
    split at h
    · rename_i op found
      cases h
      exact ⟨op.apply a, unary_value ha found, pa.then_step rfl fun _ => rfl⟩
    · cases h
  | .call s es, _, h => by
    simp only [compile, bind_eq_ok] at h
    obtain ⟨f, found, inner, hes, h⟩ := h
    cases h
    obtain ⟨xs, hxs, count, ps⟩ := compileAll_pushes mode es hes
    refine ⟨f.apply mode xs, by simp [value?, hxs, found], ps.then_step count.symm ?_⟩
    intro stack
    simp [Opcode.step, ← count]

theorem compileAll_pushes (mode : AngleMode) : (es : List (Expr Float)) → {code : Program Float} →
    compileAll es = .ok code →
      ∃ xs, values? mode es = some xs ∧ xs.length = es.length ∧ Pushes mode code xs
  | [], _, h => by
    cases h
    exact ⟨[], rfl, rfl, .nil⟩
  | e :: es, _, h => by
    simp only [compileAll, bind_eq_ok] at h
    obtain ⟨first, he, others, hes, h⟩ := h
    cases h
    obtain ⟨x, hx, px⟩ := compile_pushes mode e he
    obtain ⟨xs, hxs, count, pxs⟩ := compileAll_pushes mode es hes
    exact ⟨x :: xs, by simp [values?, hx, hxs], by simp [count], px.append pxs⟩

end

theorem value_of_compile {e : Expr Float} {code : Program Float} (h : e.compile = .ok code)
    (mode : AngleMode) : e.value? mode = some (execute mode code).1 := by
  obtain ⟨v, value, pushes⟩ := compile_pushes mode e h
  rw [value, execute, pushes.executeOn_eq]

/-- A compiled program computes the value of its tree, whatever the scratch stack held, and leaves
the stack empty. On the way no instruction lacks an operand, so a call gets all its arguments. -/
theorem execute_compile (mode : AngleMode) (e : Expr Float) (code : Program Float)
    (scratch : List Float) (compiled : e.compile = .ok code) :
    ∃ v, e.value? mode = some v ∧ executeOn mode code scratch = (v, []) ∧ run mode code [] = [v] ∧
      Fed mode code [] ∧
      ∀ before f argc after, code = before ++ .call f argc :: after →
        ((run mode before []).take argc).length = argc := by
  obtain ⟨v, value, pushes⟩ := compile_pushes mode e compiled
  refine ⟨v, value, pushes.executeOn_eq scratch, pushes.run_eq [], pushes.fed [], ?_⟩
  rintro before f argc after rfl
  have fed := ((fed_append mode before _ []).mp (pushes.fed [])).2.1
  exact List.length_take_of_le fed

def tenLessRemainder : Expr Float :=
  .binary (.number 10) '-' (.call "Mod" [.number 7, .number 4])

def tenLessRemainderCode : Program Float :=
  [.load 10, .load 7, .load 4, .call .mod 2, .binary .sub]

theorem execute_compile_tenLessRemainder :
    tenLessRemainder.compile = .ok tenLessRemainderCode ∧
      ∃ v, tenLessRemainder.value? .degree = some v ∧
        executeOn .degree tenLessRemainderCode [7, 8] = (v, []) ∧
        run .degree tenLessRemainderCode [] = [v] ∧ Fed .degree tenLessRemainderCode [] ∧
        ∀ before f argc after, tenLessRemainderCode = before ++ .call f argc :: after →
          ((run .degree before []).take argc).length = argc :=
  have compiled : tenLessRemainder.compile = .ok tenLessRemainderCode := by decide +kernel
  ⟨compiled, execute_compile .degree tenLessRemainder tenLessRemainderCode [7, 8] compiled⟩

end Expr

end Reckoner
