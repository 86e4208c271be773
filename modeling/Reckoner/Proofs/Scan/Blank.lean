import Reckoner.Proofs.Scan.Boundary

/-! White space between two texts. No lexeme goes into a blank, a half-finished power of ten and a
single star neither, so the text before a blank and the text after it are scanned apart. -/
namespace Reckoner

namespace Scan

theorem stops_blank {c : Char} (blank : Text.isBlank c = true) (cs : List Char) :
    Stops (c :: cs) := by
  constructor
  · intro d first
    cases first
    exact ⟨isLiteral_of_isBlank blank, continuesName_of_isBlank blank⟩
  · intro d first
    cases first
    exact ⟨ne_of_isBlank blank rfl, ne_of_isBlank blank rfl⟩
  · intro first
    exact ne_of_isBlank blank rfl (Option.some.inj first)

theorem tokens_append_blank (cs : List Char) {c : Char} (blank : Text.isBlank c = true)
    (rest : List Char) :
    tokens (cs ++ c :: rest) = (do
      let ts ← tokens cs
      let us ← tokens rest
      .ok (ts ++ us)) := by
  rw [tokens_append (stops_blank blank rest), tokens_of_blank blank]

end Scan

/-- Two texts with a blank between them give the tokens of the first and then those of the second,
or the error of the first text that has one. -/
theorem tokenize_append_blank (first second : String) {w : Char} (blank : Text.isBlank w = true) :
    tokenize (first ++ w.toString ++ second) = (do
      let ts ← tokenize first
      let us ← tokenize second
      .ok (ts ++ us)) := by
  have text : (first ++ w.toString ++ second).toList = first.toList ++ w :: second.toList := by
    rw [String.toList_append, String.toList_append, List.append_assoc, Char.toString,
      String.toList_singleton, List.singleton_append]
  rw [tokenize, text, Scan.tokens_append_blank _ blank, ← tokenize, ← tokenize]

/-- A power of ten that is left off at its sign does not take the digit after the blank. -/
theorem tokenize_append_blank_halfPower :
    Text.isBlank '\t' = true ∧
      tokenize "2e-\t3" = .ok [.number 2, .name "e", .mark .minus, .number 3] := by
  refine ⟨rfl, ?_⟩
  have first : tokenize "2e-" = .ok [.number 2, .name "e", .mark .minus] := by decide +kernel
  have second : tokenize "3" = .ok [.number 3] := by decide +kernel
  have both := tokenize_append_blank "2e-" "3" (w := '\t') rfl
  rw [first, second] at both
  exact both

end Reckoner
