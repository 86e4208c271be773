import Reckoner.Error
import Reckoner.Scalar

/-! Matrices by their entries, and the operations that need no determinant. -/
namespace Reckoner

structure DenseMatrix (α : Type) where
  height : Nat
  width : Nat
  entry : Fin height → Fin width → α

namespace DenseMatrix

variable {α : Type}

/-- A matrix from its rows, of which there must be one, all of one length and not empty. -/
def ofRows (rows : List (List α)) : Except Error (DenseMatrix α) :=
  match rows with
  | [] => .error (.dimension .noRows)
  | first :: others =>
    if first.isEmpty then .error (.dimension .noColumns)
    else if h : ∀ row ∈ first :: others, row.length = first.length then
      .ok ⟨(first :: others).length, first.length, fun i j =>
        ((first :: others).get i).get (j.cast (h _ (List.get_mem ..)).symm)⟩
    else
      let bad := (first :: others).findIdx (·.length != first.length)
      let entries := ((first :: others)[bad]?.getD []).length
      .error (.dimension (.ragged bad entries first.length))

def toRows (a : DenseMatrix α) : List (List α) :=
  List.ofFn fun i => List.ofFn fun j => a.entry i j

def zipWith (f : α → α → α) (a b : DenseMatrix α) : Except Error (DenseMatrix α) :=
  if h : a.height = b.height ∧ a.width = b.width then
    .ok ⟨a.height, a.width, fun i j => f (a.entry i j) (b.entry (i.cast h.1) (j.cast h.2))⟩
  else .error (.dimension (.different a.height a.width b.height b.width))

def add [Add α] (a b : DenseMatrix α) : Except Error (DenseMatrix α) := zipWith (· + ·) a b

def subtract [Sub α] (a b : DenseMatrix α) : Except Error (DenseMatrix α) := zipWith (· - ·) a b

/-- Up to this size a side of a product is small. -/
def smallSide : Nat := 5

/-- The value that the sums of a product begin with. A product whose sides are all large is added
up in a cleared matrix, so that negative zeros alone sum to zero. In any other product they sum to
negative zero. -/
def productStart [Neg α] [OfNat α 0] (height inner width : Nat) : α :=
  if smallSide < height ∧ smallSide < inner ∧ smallSide < width then 0 else -0

def multiply [Add α] [Mul α] [Neg α] [OfNat α 0] (a b : DenseMatrix α) :
    Except Error (DenseMatrix α) :=
  if h : a.width = b.height then
    .ok ⟨a.height, b.width, fun i j =>
      totalFrom (productStart a.height a.width b.width)
        ((List.finRange a.width).map fun k => a.entry i k * b.entry (k.cast h) j)⟩
  else .error (.dimension (.notComposable a.height a.width b.height b.width))

def scale [Mul α] (a : DenseMatrix α) (factor : α) : DenseMatrix α :=
  ⟨a.height, a.width, fun i j => a.entry i j * factor⟩

def transpose (a : DenseMatrix α) : DenseMatrix α :=
  ⟨a.width, a.height, fun i j => a.entry j i⟩

end DenseMatrix

end Reckoner
