import Reckoner.Error

/-! The functions that an expression can call, by name and number of arguments. -/
namespace Reckoner

inductive Builtin where
  | sin | cos | tan
  | asin | acos | atan
  | sec | csc | cot
  | sinh | cosh | tanh
  | sqrt | cbrt | root | pow
  | abs | floor | ceil | round | trunc
  | exp | pow10 | ln | log10 | logBase
  | factorial | perm | comb
  | gcd | lcm | mod | isPrime
deriving DecidableEq, Repr

namespace Builtin

/-- A name may stand in several rows, one for each number of arguments. -/
def catalogue : List (String × Nat × Builtin) :=
  [("sin", 1, sin), ("cos", 1, cos), ("tan", 1, tan),
   ("asin", 1, asin), ("acos", 1, acos), ("atan", 1, atan),
   ("sec", 1, sec), ("csc", 1, csc), ("cot", 1, cot),
   ("sinh", 1, sinh), ("cosh", 1, cosh), ("tanh", 1, tanh),
   ("sqrt", 1, sqrt), ("cbrt", 1, cbrt), ("root", 2, root), ("pow", 2, pow),
   ("abs", 1, abs), ("floor", 1, floor), ("ceil", 1, ceil), ("round", 1, round),
   ("trunc", 1, trunc),
   ("exp", 1, exp), ("pow10", 1, pow10), ("ln", 1, ln), ("log", 1, log10), ("log", 2, logBase),
   ("log10", 1, log10),
   ("fact", 1, factorial), ("factorial", 1, factorial),
   ("perm", 2, perm), ("npr", 2, perm), ("comb", 2, comb), ("ncr", 2, comb),
   ("gcd", 2, gcd), ("lcm", 2, lcm), ("mod", 2, mod), ("isprime", 1, isPrime)]

def named (name : String) : List (Nat × Builtin) :=
  (catalogue.filter (·.1 == name.toLower)).map (·.2)

def isName (name : String) : Bool := !(named name).isEmpty

/-- The function of a name that takes a number of arguments. -/
def find (name : String) (argc : Nat) : Except Error Builtin :=
  let rows := named name
  if rows.isEmpty then .error (.unknownFunction name)
  else
    match rows.lookup argc with
    | some f => .ok f
    | none => .error (.arity name (rows.map (·.1)) argc)

end Builtin

end Reckoner
