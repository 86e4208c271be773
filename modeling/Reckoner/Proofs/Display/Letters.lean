import Reckoner.Display
import Reckoner.Error
import Reckoner.Proofs.Render.Scan

/-! The letters of a result that is shown. None of them is a capital `E`, so the text that is shown
in place of a result is never taken for one. -/
namespace Reckoner

/-- Whether a text could not begin with the word for an error, nor have it inside. -/
def Unmarked (text : String) : Prop := 'E' ∉ text.toList

instance (text : String) : Decidable (Unmarked text) := inferInstanceAs (Decidable ¬_)

namespace Unmarked

variable {s t : String}

theorem append (hs : Unmarked s) (ht : Unmarked t) : Unmarked (s ++ t) := by
  rw [Unmarked, String.toList_append, List.mem_append]
  exact not_or.mpr ⟨hs, ht⟩

theorem of_isLiteral (h : ∀ c ∈ s.toList, Scan.isLiteral c = true) : Unmarked s := by
  intro member
  cases h 'E' member

theorem repr (n : Nat) : Unmarked n.repr := of_isLiteral (Decimal.isLiteral_repr n)

theorem sign (negative : Bool) : Unmarked (if negative then "-" else "") := by
  cases negative <;> decide

theorem pointed (n places : Nat) : Unmarked (Decimal.pointed n.repr places) :=
  of_isLiteral (Decimal.isLiteral_pointed (Decimal.isLiteral_repr n) places)

theorem signedPower (n : Int) : Unmarked (Decimal.signedPower n) := by
  unfold Decimal.signedPower
  split
  · exact append (by decide) (repr _)
  · exact append (by decide) (repr _)

theorem withPower (d : Decimal.Scientific) (places : Nat) :
    Unmarked (d.withPower Decimal.signedPower places) :=
  append (append (pointed _ _) (by decide)) (signedPower _)

theorem write {layout : Decimal.Scientific → String} (h : ∀ d, Unmarked (layout d)) (x : Float) :
    Unmarked (Decimal.write "inf" layout x) := by
  unfold Decimal.write
  split
  · exact append (sign _) (h _)
  split
  · decide
  split <;> decide

theorem plain (x : Float) : Unmarked (Decimal.plain x) :=
  write (fun d => of_isLiteral (Decimal.isLiteral_positional d)) x

theorem shortest (x : Float) : Unmarked (Display.shortest x) := by
  unfold Display.shortest
  split
  · exact repr 0
  split
  · exact write (fun d => withPower d _) x
  · exact plain x

theorem fixed (x : Float) (places : Nat) : Unmarked (Display.fixed x places) := by
  unfold Display.fixed
  split
  · exact shortest x
  dsimp only
  split <;> exact shortest _

theorem decimal (places : Nat) (x : Float) : Unmarked (Decimal.fixed places x) := by
  unfold Decimal.fixed
  split
  · exact append (sign _) (pointed _ _)
  · exact plain x

theorem scientific (places : Nat) (x : Float) : Unmarked (Decimal.scientific places x) := by
  unfold Decimal.scientific
  split
  · exact append (sign _) (withPower _ _)
  · exact plain x

theorem engineering (x : Float) (places : Nat) : Unmarked (Display.engineering x places) := by
  unfold Display.engineering Display.engineeringBy
  split
  · exact repr 0
  · exact append (append (decimal _ _) (by decide)) (signedPower _)

theorem format (mode : DisplayMode) (places : Nat) (x : Float) :
    Unmarked (mode.format places x) := by
  unfold DisplayMode.format
  dsimp only
  split
  · decide
  split
  · split <;> decide
  cases mode with
  | fixed => exact fixed x _
  | scientific => exact scientific _ x
  | engineering => exact engineering x _

end Unmarked

theorem not_unmarked_shown (message : String) : ¬ Unmarked (Error.shown message) := by
  rw [Unmarked, not_not]
  unfold Error.shown
  split
  · rw [String.toList_append]
    exact .head _
  · exact .head _

end Reckoner
