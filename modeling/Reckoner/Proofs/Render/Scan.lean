import Reckoner.Expression.Normal
import Reckoner.Proofs.Binary.Sign
import Reckoner.Proofs.Scan.Boundary

/-! Scanning a text that was written from tokens. A token is read back from its own characters,
since what is written after a word is never taken into it. -/
namespace Reckoner

namespace Scan

def isName : List Char → Bool
  | [] => false
  | c :: cs =>
    !Text.isBlank c && !isLiteral c && !isSymbol c && startsName c && cs.all continuesName

theorem tokens_sign {m : Mark} {c : Char} (sign : IsSign m c) (notStar : m ≠ .star)
    (rest : List Char) : tokens (c :: rest) = (tokens rest).map (.mark m :: ·) :=
  tokens_of_lexeme sign.notBlank (lexeme_sign sign notStar rest)

theorem tokens_stars (rest : List Char) :
    tokens ('*' :: '*' :: rest) = (tokens rest).map (.mark .caret :: ·) :=
  tokens_of_lexeme rfl (lexeme_stars isSign_star rest)

theorem tokens_star {rest : List Char} (single : rest.head? ≠ some '*') :
    tokens ('*' :: rest) = (tokens rest).map (.mark .star :: ·) :=
  tokens_of_lexeme rfl (lexeme_star isSign_star single)

theorem tokens_name {name rest : List Char} (isName : isName name = true) (breaks : Breaks rest) :
    tokens (name ++ rest) = (tokens rest).map (.name (String.ofList name) :: ·) := by
  rcases name with _ | ⟨c, cs⟩
  · cases isName
  simp only [Scan.isName, Bool.and_eq_true, Bool.not_eq_true', List.all_eq_true] at isName
  obtain ⟨⟨⟨⟨notBlank, -⟩, notSymbol⟩, starts⟩, continued⟩ := isName
  have stop : ∀ c ∈ rest.head?, continuesName c = false := fun c h => (breaks c h).2
  exact tokens_of_lexeme notBlank (lexeme_word starts notSymbol continued stop)

theorem tokens_number {digits rest : List Char} {x : Float}
    (literal : ∀ c ∈ digits, isLiteral c = true) (read : Decimal.literal? digits [] = some x)
    (breaks : Breaks rest) :
    tokens (digits ++ rest) = (tokens rest).map (.number x :: ·) := by
  rcases digits with _ | ⟨c, cs⟩
  · cases read
  have first := literal c (.head _)
  have stop : ∀ c ∈ rest.head?, isLiteral c = false := fun c h => (breaks c h).1
  have number : lexeme c (cs ++ rest) = .ok (.number x, rest) := by
    simp only [lexeme, first, if_true, numeral, ← List.cons_append,
      takeWhile_append_of_stop stop literal, dropWhile_append_of_stop stop literal,
      splitPower_of_breaks breaks, read]
  exact tokens_of_lexeme (isLiteral_notBlank first) number

end Scan

namespace Decimal

open Scan (isLiteral)

/-- Reads a decimal number without a power of ten, with or without a minus sign. -/
def read? : List Char → Option Float
  | '-' :: digits => (literal? digits []).map fun y => -y
  | digits => literal? digits []

def ReadsBack (x : Float) : Prop := read? (plain x).toList = some x

theorem isLiteral_repr (n : Nat) : ∀ c ∈ n.repr.toList, isLiteral c = true := by
  intro c h
  rw [Nat.toList_repr] at h
  have digit := Nat.isDigit_of_mem_toDigits (by decide) (by decide) h
  rw [isLiteral, digit, Bool.true_or]

theorem isLiteral_zeros (n : Nat) : ∀ c ∈ (zeros n).toList, isLiteral c = true := by
  intro c h
  rw [zeros, String.toList_ofList] at h
  rw [List.eq_of_mem_replicate h]
  rfl

theorem isLiteral_append {s t : String} (hs : ∀ c ∈ s.toList, isLiteral c = true)
    (ht : ∀ c ∈ t.toList, isLiteral c = true) : ∀ c ∈ (s ++ t).toList, isLiteral c = true := by
  intro c h
  rw [String.toList_append, List.mem_append] at h
  exact h.elim (hs c) (ht c)

theorem isLiteral_pointed {digits : String} (h : ∀ c ∈ digits.toList, isLiteral c = true)
    (places : Nat) : ∀ c ∈ (pointed digits places).toList, isLiteral c = true := by
  unfold pointed
  split
  · exact h
  · have padded := isLiteral_append (isLiteral_zeros (places + 1 - digits.length)) h
    refine isLiteral_append (isLiteral_append ?_ ?_) ?_
    · intro c taken
      rw [String.toList_ofList] at taken
      exact padded c (List.mem_of_mem_take taken)
    · intro c point
      cases point with
      | head => rfl
      | tail _ none => cases none
    · intro c dropped
      rw [String.toList_ofList] at dropped
      exact padded c (List.mem_of_mem_drop dropped)

theorem isLiteral_positional (d : Scientific) :
    ∀ c ∈ d.positional.toList, isLiteral c = true := by
  unfold Scientific.positional
  split
  · split
    · exact isLiteral_repr 0
    · exact isLiteral_append (isLiteral_repr _) (isLiteral_zeros _)
  · exact isLiteral_pointed (isLiteral_repr _) _

theorem read_of_isLiteral {digits : List Char} (h : ∀ c ∈ digits, isLiteral c = true) :
    read? digits = literal? digits [] := by
  unfold read?
  split
  · cases h '-' (.head _)
  · rfl

end Decimal

namespace Token

open Scan Decimal

theorem number_text {x : Float} (finite : x.isFinite = true) (back : ReadsBack x) :
    ∃ digits y, (∀ c ∈ digits, isLiteral c = true) ∧ literal? digits [] = some y ∧
      ((y = x ∧ (number x).text.toList = digits) ∨
        (-y = x ∧ ¬Binary.IsUnsigned x ∧ (number x).text.toList = '-' :: digits)) := by
  obtain ⟨v, decoded⟩ := Binary.decode_of_isFinite finite
  have literal := isLiteral_positional (shortest v.mantissa v.exponent)
  have written (infinite : String) : write infinite Scientific.positional x =
      (if v.negative then "-" else "") ++ (shortest v.mantissa v.exponent).positional := by
    rw [write, decoded]
  generalize (shortest v.mantissa v.exponent).positional = digits at literal written
  rw [ReadsBack, plain, written] at back
  cases sign : v.negative with
  | false =>
    have unsigned : (if v.negative then "-" else "") ++ digits = digits := by
      rw [sign]
      exact String.empty_append
    rw [unsigned, read_of_isLiteral literal] at back
    exact ⟨digits.toList, x, literal, back, .inl ⟨rfl, by rw [text, written, unsigned]⟩⟩
  | true =>
    have signed : ((if v.negative then "-" else "") ++ digits).toList = '-' :: digits.toList := by
      rw [sign]
      exact String.toList_append
    rw [signed, read?, Option.map_eq_some_iff] at back
    obtain ⟨y, read, same⟩ := back
    refine ⟨digits.toList, y, literal, read, .inr ⟨same, fun unsigned => ?_, ?_⟩⟩
    · cases sign.symm.trans (unsigned.decode decoded)
    · rw [text, written, signed]

end Token

/-- What is written after a token: the texts of the tokens that follow, and a space before them
between two words. -/
def textAfter (t : Token Float) (rest : List (Token Float)) : List Char :=
  (if t.isWord && rest.head?.any Token.isWord then [' '] else []) ++ (renderTokens rest).toList

theorem renderTokens_cons (t : Token Float) (rest : List (Token Float)) :
    (renderTokens (t :: rest)).toList = t.text.toList ++ textAfter t rest := by
  cases rest with
  | nil => simp [renderTokens, textAfter]
  | cons u rest =>
    rw [renderTokens, textAfter, String.toList_append, String.toList_append, List.append_assoc]
    simp only [List.head?_cons, Option.any_some]
    by_cases space : (t.isWord && u.isWord) = true
    · simp only [space, if_true]
      rfl
    · simp only [space, Bool.false_eq_true, if_false]
      rfl

theorem tokens_textAfter (t : Token Float) (rest : List (Token Float)) :
    Scan.tokens (textAfter t rest) = Scan.tokens (renderTokens rest).toList := by
  unfold textAfter
  split
  · exact Scan.tokens_of_blank rfl _
  · rfl

theorem textAfter_mark (m : Mark) (rest : List (Token Float)) :
    textAfter (.mark m) rest = (renderTokens rest).toList := rfl

theorem breaks_textAfter {t : Token Float} (word : t.isWord = true) (rest : List (Token Float)) :
    Scan.Breaks (textAfter t rest) := by
  intro c first
  unfold textAfter at first
  rw [word, Bool.true_and] at first
  rcases rest with _ | ⟨u, rest⟩
  · cases first
  cases wordAfter : u.isWord with
  | true =>
    simp only [List.head?_cons, Option.any_some, wordAfter, if_true] at first
    cases first
    decide +kernel
  | false =>
    rcases u with x | s | m
    · cases wordAfter
    · cases wordAfter
    · obtain ⟨c', text, sign⟩ := Scan.isSign_text m
      rw [renderTokens_cons, Token.text, text] at first
      cases first
      exact ⟨sign.notLiteral, sign.notContinued⟩

end Reckoner
