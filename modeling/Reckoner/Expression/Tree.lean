/-! Expression trees, generic in what stands for a number. An operator is kept as its sign, so a
tree built by hand may hold one that means nothing; compiling it reports that. -/
namespace Reckoner

inductive Expr (ν : Type) where
  | number (value : ν)
  | name (text : String)
  | binary (left : Expr ν) (sign : Char) (right : Expr ν)
  | unary (sign : Char) (operand : Expr ν)
  | call (function : String) (arguments : List (Expr ν))

namespace Expr

variable {ν μ : Type}

mutual

/-- Puts a tree in the place of every number. -/
def bind (f : ν → Expr μ) : Expr ν → Expr μ
  | .number x => f x
  | .name s => .name s
  | .binary l c r => .binary (l.bind f) c (r.bind f)
  | .unary c e => .unary c (e.bind f)
  | .call s es => .call s (bindAll f es)

def bindAll (f : ν → Expr μ) : List (Expr ν) → List (Expr μ)
  | [] => []
  | e :: es => e.bind f :: bindAll f es

end

def map (f : ν → μ) (e : Expr ν) : Expr μ := e.bind fun x => .number (f x)

mutual

def size : Expr ν → Nat
  | .number _ => 1
  | .name _ => 1
  | .binary l _ r => l.size + r.size + 1
  | .unary _ e => e.size + 1
  | .call _ es => sizeAll es + 1

def sizeAll : List (Expr ν) → Nat
  | [] => 0
  | e :: es => e.size + sizeAll es

end

end Expr

end Reckoner
