import Reckoner.Proofs.Normal.Depth

/-! Scanning takes a parenthesis as a token of its own, takes none into any other token, and never
fails for one. -/
namespace Reckoner

open Paren

theorem ofChar_eq_none {p : Char → Bool} (opening : p '(' = false) (closing : p ')' = false)
    {c : Char} (h : p c = true) : ofChar? c = none := by
  unfold ofChar?
  split
  · simp_all
  · split
    · simp_all
    · rfl

theorem textParens_dropWhile {p : Char → Bool} (opening : p '(' = false) (closing : p ')' = false)
    (cs : List Char) : textParens (cs.dropWhile p) = textParens cs := by
  induction cs with
  | nil => rfl
  | cons c cs ih =>
    rw [List.dropWhile_cons]
    split
    · rename_i taken
      rw [ih, textParens_cons, ofChar_eq_none opening closing taken]
      rfl
    · rfl

namespace Scan

theorem textParens_splitSign (cs : List Char) : textParens (splitSign cs).2 = textParens cs := by
  unfold splitSign
  split <;> rfl

theorem textParens_splitPower (cs : List Char) : textParens (splitPower cs).2 = textParens cs := by
  cases cs with
  | nil => rfl
  | cons e rest =>
    simp only [splitPower]
    split
    · rename_i power
      have plain : ofChar? e = none :=
        ofChar_eq_none (p := fun c => c == 'e' || c == 'E') rfl rfl (by simp_all)
      rw [textParens_dropWhile rfl rfl, textParens_splitSign, textParens_cons, plain]
      rfl
    · rfl

theorem paren_of_punctuation {ν : Type} {c : Char} {m : Mark} (h : punctuation? c = some m) :
    (.mark m : Token ν).paren? = ofChar? c := by
  unfold punctuation? at h
  split at h <;> cases h <;> rfl

theorem textParens_numeral {cs rest : List Char} {t : Token Float}
    (h : numeral cs = .ok (t, rest)) : t.paren?.toList ++ textParens rest = textParens cs := by
  simp only [numeral] at h
  split at h <;> cases h
  exact (textParens_splitPower _).trans (textParens_dropWhile rfl rfl cs)

theorem textParens_lexeme {c : Char} {cs rest : List Char} {t : Token Float}
    (h : lexeme c cs = .ok (t, rest)) :
    t.paren?.toList ++ textParens rest = textParens (c :: cs) := by
  unfold lexeme at h
  split at h
  · exact textParens_numeral h
  rw [textParens_cons]
  split at h
  · rename_i symbol
    cases h
    rw [ofChar_eq_none rfl rfl symbol]
    rfl
  split at h
  · rename_i starts
    cases h
    rw [textParens_dropWhile rfl rfl, ofChar_eq_none rfl rfl starts]
    rfl
  split at h
  · rename_i star
    rw [← paren_of_punctuation star (ν := Float)]
    split at h <;> cases h <;> rfl
  · rename_i punctuation
    cases h
    rw [paren_of_punctuation punctuation]
  · cases h

theorem tokenParens_tokens {cs : List Char} {ts : List (Token Float)} (h : tokens cs = .ok ts) :
    tokenParens ts = textParens cs := by
  fun_induction tokens cs generalizing ts with
  | case1 =>
    cases h
    rfl
  | case2 c cs blank ih =>
    rw [textParens_cons, ofChar_eq_none rfl rfl blank, ih h]
    rfl
  | case3 c cs _ t rest first _ us others ih =>
    cases h
    rw [tokenParens_cons, ih others, textParens_lexeme first]
  | case4 => cases h
  | case5 => cases h

theorem lexeme_error {c : Char} {cs : List Char} {error : Error}
    (h : lexeme c cs = .error error) : ∃ fault, error = .read fault := by
  unfold lexeme at h
  split at h
  · simp only [numeral] at h
    split at h <;> cases h
    exact ⟨_, rfl⟩
  split at h
  · cases h
  split at h
  · cases h
  split at h
  · split at h <;> cases h
  · cases h
  · cases h
    exact ⟨_, rfl⟩

/-- Scanning fails for what it cannot read, never for a parenthesis. -/
theorem tokens_error {cs : List Char} {error : Error} (h : tokens cs = .error error) :
    ∃ fault, error = .read fault := by
  fun_induction tokens cs with
  | case1 => cases h
  | case2 c cs blank ih => exact ih h
  | case3 => cases h
  | case4 c cs _ t rest first _ e others ih =>
    cases h
    exact ih others
  | case5 c cs _ e first =>
    cases h
    exact lexeme_error first

end Scan

end Reckoner
