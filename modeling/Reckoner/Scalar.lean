/-! Arithmetic that a numeric method is written over, so that the method runs in floating point and
can be studied in exact numbers. -/
namespace Reckoner

class Scalar (α : Type) extends Add α, Sub α, Mul α, Div α, Neg α where
  ofNat : Nat → α

instance : Scalar Float where
  ofNat := Float.ofNat

instance : Scalar Float32 where
  ofNat := Float32.ofNat

def totalFrom {α : Type} [Add α] (first : α) (xs : List α) : α := xs.foldl (· + ·) first

/-- The sum of a list. It begins with negative zero, which leaves every number as it is, a zero of
either sign too. -/
def total {α : Type} [Add α] [Neg α] [OfNat α 0] (xs : List α) : α := totalFrom (-0) xs

end Reckoner
