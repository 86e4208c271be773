import Reckoner.Matrix.Dense

/-! Determinants by expansion along the first row, and inverses by cofactors. Both are exact as
long as the entries are whole and small. -/
namespace Reckoner.DenseMatrix

variable {α : Type}

/-- The index in a matrix of an index in the same matrix without row or column `skipped`. -/
def skip {n : Nat} (skipped : Fin (n + 1)) (i : Fin n) : Fin (n + 1) :=
  if i.val < skipped.val then i.castSucc else i.succ

def minor {n : Nat} (a : Fin (n + 1) → Fin (n + 1) → α) (row column : Fin (n + 1)) :
    Fin n → Fin n → α :=
  fun i j => a (skip row i) (skip column j)

/-- A value or its negative, in turn. -/
def alternate [Neg α] (k : Nat) (x : α) : α := if k % 2 = 0 then x else -x

section Expansion

variable [Add α] [Sub α] [Mul α] [Neg α] [OfNat α 0] [OfNat α 1]

/-- The expansion along the first row, written out up to the order two. Only the minor of a single
entry is empty. -/
def laplace : (n : Nat) → (Fin n → Fin n → α) → α
  | 0, _ => 1
  | 1, a => a 0 0
  | 2, a => a 0 0 * a 1 1 - a 0 1 * a 1 0
  | n + 3, a =>
    total ((List.finRange (n + 3)).map fun j =>
      alternate j.val (a 0 j) * laplace (n + 2) (minor a 0 j))

def adjugate {n : Nat} (a : Fin (n + 1) → Fin (n + 1) → α) : Fin (n + 1) → Fin (n + 1) → α :=
  fun i j => alternate (i.val + j.val) (laplace n (minor a j i))

end Expansion

/-- The entries of a square matrix that is not empty. -/
structure Square (α : Type) where
  order : Nat
  entry : Fin (order + 1) → Fin (order + 1) → α

def toSquare : DenseMatrix α → Except Error (Square α)
  | ⟨n + 1, m, entry⟩ =>
    if h : m = n + 1 then .ok ⟨n, fun i j => entry i (j.cast h.symm)⟩
    else .error (.dimension (.notSquare (n + 1) m))
  | ⟨0, m, _⟩ => .error (.dimension (.notSquare 0 m))

def determinant [Add α] [Sub α] [Mul α] [Neg α] [OfNat α 0] [OfNat α 1] (a : DenseMatrix α) :
    Except Error α := do
  let s ← a.toSquare
  .ok (laplace (s.order + 1) s.entry)

/-- Below this magnitude a determinant counts as zero. -/
def singularBelow [OfScientific α] : α := 1e-10

def inverse [Add α] [Sub α] [Mul α] [Div α] [Neg α] [OfNat α 0] [OfNat α 1] [OfScientific α]
    [LT α] [DecidableLT α] (a : DenseMatrix α) : Except Error (DenseMatrix α) := do
  let s ← a.toSquare
  let det := laplace (s.order + 1) s.entry
  if -singularBelow < det ∧ det < singularBelow then .error .singular
  else .ok ⟨s.order + 1, s.order + 1, fun i j => adjugate s.entry i j / det⟩

end Reckoner.DenseMatrix
