/-! The values that an expression can name: stored variables, and the last answer. -/
namespace Reckoner

structure Symbols where
  «variables» : List (Char × Float) := []
  lastAnswer : Option Float := none
deriving DecidableEq

namespace Symbols

/-- The last answer, or zero before there is one. -/
def answer (s : Symbols) : Float := s.lastAnswer.getD 0

def get? (s : Symbols) (letter : Char) : Option Float := s.variables.lookup letter

/-- Stores a value under a letter in place of the one that was there. -/
def set (s : Symbols) (letter : Char) (value : Float) : Symbols :=
  { s with «variables» := (letter, value) :: s.variables.filter (·.1 != letter) }

def clear (s : Symbols) : Symbols := { s with «variables» := [] }

/-- The stored value of a name, which is one capital letter. -/
def named? (s : Symbols) (name : String) : Option Float :=
  match name.toList with
  | [c] => if c.isUpper then s.get? c else none
  | _ => none

@[simp] theorem get?_set_self (s : Symbols) (letter : Char) (value : Float) :
    (s.set letter value).get? letter = some value := by
  simp [set, get?]

theorem get?_set_of_ne (s : Symbols) {letter other : Char} (value : Float)
    (h : other ≠ letter) : (s.set letter value).get? other = s.get? other := by
  have keys : (other == letter) = false := by simpa using h
  simp only [set, get?, List.lookup_cons, keys]
  induction s.variables with
  | nil => rfl
  | cons entry rest ih =>
    obtain ⟨c, x⟩ := entry
    by_cases hc : c = letter
    · simp [hc, List.lookup_cons, keys, ih]
    · by_cases ho : other = c
      · simp [hc, ho]
      · have entryKey : (other == c) = false := by simpa using ho
        simp [hc, List.lookup_cons, entryKey, ih]

end Symbols

end Reckoner
