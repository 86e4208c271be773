import Reckoner.Proofs.Result
import Reckoner.Proofs.Scan.Characters

/-! Where scanning comes to an end of a lexeme. A number and a name end before a character that
continues neither, and a whole text ends before a character that no lexeme goes into: scanning two
texts in a row gives the tokens of the first and then those of the second. -/
namespace Reckoner.Scan

def Breaks (cs : List Char) : Prop :=
  ∀ c ∈ cs.head?, isLiteral c = false ∧ continuesName c = false

/-- Whether every lexeme before this text ends where the text begins, a half-finished power of ten
and a single star too. -/
structure Stops (cs : List Char) : Prop where
  breaks : Breaks cs
  notSign : ∀ c ∈ cs.head?, c ≠ '+' ∧ c ≠ '-'
  notStar : cs.head? ≠ some '*'

section

variable {p : Char → Bool} {rest : List Char} (stop : ∀ c ∈ rest.head?, p c = false)

include stop

theorem takeWhile_append (cs : List Char) : (cs ++ rest).takeWhile p = cs.takeWhile p := by
  induction cs with
  | nil =>
    cases rest with
    | nil => rfl
    | cons c rest => simp [stop c rfl]
  | cons c cs ih => rw [List.cons_append, List.takeWhile_cons, List.takeWhile_cons, ih]

theorem dropWhile_append (cs : List Char) :
    (cs ++ rest).dropWhile p = cs.dropWhile p ++ rest := by
  induction cs with
  | nil =>
    cases rest with
    | nil => rfl
    | cons c rest => simp [stop c rfl]
  | cons c cs ih =>
    rw [List.cons_append, List.dropWhile_cons, List.dropWhile_cons, ih]
    split <;> rfl

theorem takeWhile_append_of_stop {cs : List Char} (all : ∀ c ∈ cs, p c = true) :
    (cs ++ rest).takeWhile p = cs := by
  have ended : rest.takeWhile p = [] := takeWhile_append stop []
  rw [List.takeWhile_append_of_pos all, ended, List.append_nil]

theorem dropWhile_append_of_stop {cs : List Char} (all : ∀ c ∈ cs, p c = true) :
    (cs ++ rest).dropWhile p = rest := by
  have ended : rest.dropWhile p = rest := dropWhile_append stop []
  rw [List.dropWhile_append_of_pos all, ended]

end

section

variable {c : Char} {cs rest : List Char}

theorem lexeme_word (starts : startsName c = true) (notSymbol : isSymbol c = false)
    (continued : ∀ d ∈ cs, continuesName d = true)
    (stop : ∀ d ∈ rest.head?, continuesName d = false) :
    lexeme c (cs ++ rest) = .ok (.name (String.ofList (c :: cs)), rest) := by
  have notLiteral : isLiteral c = false := by
    rw [Bool.eq_false_iff]
    intro literal
    cases starts.symm.trans (startsName_of_isLiteral literal)
  simp only [lexeme, notLiteral, notSymbol, starts, takeWhile_append_of_stop stop continued,
    dropWhile_append_of_stop stop continued, Bool.false_eq_true, if_false, if_true]

theorem lexeme_sign {m : Mark} (sign : IsSign m c) (notStar : m ≠ .star) (rest : List Char) :
    lexeme c rest = .ok (.mark m, rest) := by
  have ⟨punctuation, _, notLiteral, notSymbol, notStart, _⟩ := sign
  simp only [lexeme, notLiteral, notSymbol, notStart, punctuation, Bool.false_eq_true, if_false]

theorem lexeme_star (sign : IsSign .star c) (single : rest.head? ≠ some '*') :
    lexeme c rest = .ok (.mark .star, rest) := by
  have ⟨punctuation, _, notLiteral, notSymbol, notStart, _⟩ := sign
  simp only [lexeme, notLiteral, notSymbol, notStart, punctuation, Bool.false_eq_true, if_false]
  split
  · exact absurd rfl single
  · rfl

theorem lexeme_stars (sign : IsSign .star c) (rest : List Char) :
    lexeme c ('*' :: rest) = .ok (.mark .caret, rest) := by
  have ⟨punctuation, _, notLiteral, notSymbol, notStart, _⟩ := sign
  simp only [lexeme, notLiteral, notSymbol, notStart, punctuation, Bool.false_eq_true, if_false]

end

theorem splitPower_of_breaks {rest : List Char} (breaks : Breaks rest) :
    splitPower rest = ([], rest) := by
  cases rest with
  | nil => rfl
  | cons e rest =>
    have notContinued := (breaks e rfl).2
    have notPower : (e == 'e' || e == 'E') = false := by
      rw [Bool.or_eq_false_iff, beq_eq_false_iff_ne, beq_eq_false_iff_ne]
      constructor
      · rintro rfl
        cases notContinued
      · rintro rfl
        cases notContinued
    simp only [splitPower, notPower, Bool.false_and, Bool.false_eq_true, if_false]

def before {α : Type} (rest : List Char) (step : α × List Char) : α × List Char :=
  (step.1, step.2 ++ rest)

section

variable {rest : List Char} (stops : Stops rest)

include stops

theorem splitSign_append (cs : List Char) :
    splitSign (cs ++ rest) = before rest (splitSign cs) := by
  cases cs with
  | nil =>
    rw [List.nil_append]
    unfold splitSign
    split
    · exact absurd rfl (stops.notSign '+' rfl).1
    · exact absurd rfl (stops.notSign '-' rfl).2
    · rfl
  | cons c cs =>
    rw [List.cons_append]
    unfold splitSign
    split <;> simp_all [before]

theorem splitPower_append (cs : List Char) :
    splitPower (cs ++ rest) = before rest (splitPower cs) := by
  have digit : ∀ c ∈ rest.head?, c.isDigit = false := by
    intro c first
    exact (Bool.or_eq_false_iff.mp (stops.breaks c first).1).1
  cases cs with
  | nil => exact splitPower_of_breaks stops.breaks
  | cons e cs =>
    simp only [List.cons_append, splitPower, splitSign_append stops, before,
      takeWhile_append digit, dropWhile_append digit]
    split <;> rfl

theorem numeral_append (cs : List Char) :
    numeral (cs ++ rest) = (numeral cs).map (before rest) := by
  have literal : ∀ c ∈ rest.head?, isLiteral c = false := fun c first => (stops.breaks c first).1
  simp only [numeral, takeWhile_append literal, dropWhile_append literal,
    splitPower_append stops, before]
  cases Decimal.literal? (cs.takeWhile isLiteral) (splitPower (cs.dropWhile isLiteral)).1 <;> rfl

theorem lexeme_append (c : Char) (cs : List Char) :
    lexeme c (cs ++ rest) = (lexeme c cs).map (before rest) := by
  have continued : ∀ c ∈ rest.head?, continuesName c = false :=
    fun c first => (stops.breaks c first).2
  unfold lexeme
  split
  · rw [← List.cons_append, numeral_append stops]
  split
  · rfl
  split
  · rw [takeWhile_append continued, dropWhile_append continued]
    rfl
  split
  · cases cs with
    | nil =>
      rw [List.nil_append]
      split
      · exact absurd rfl stops.notStar
      · rfl
    | cons d cs =>
      rw [List.cons_append]
      split <;> simp_all [before, Except.map]
  · rfl
  · rfl

end

theorem tokens_nil : tokens [] = .ok [] := by
  rw [tokens.eq_def]

theorem tokens_of_blank {c : Char} (blank : Text.isBlank c = true) (cs : List Char) :
    tokens (c :: cs) = tokens cs := by
  rw [tokens.eq_def]
  simp only [blank, if_true]

theorem tokens_of_lexeme {c : Char} {cs rest : List Char} {t : Token Float}
    (notBlank : Text.isBlank c = false) (h : lexeme c cs = .ok (t, rest)) :
    tokens (c :: cs) = (tokens rest).map (t :: ·) := by
  rw [tokens.eq_def]
  simp only [notBlank, Bool.false_eq_true, if_false]
  split
  · rename_i first
    rw [h] at first
    cases first
    cases tokens rest <;> rfl
  · rename_i first
    rw [h] at first
    cases first

theorem tokens_of_lexeme_error {c : Char} {cs : List Char} {error : Error}
    (notBlank : Text.isBlank c = false) (h : lexeme c cs = .error error) :
    tokens (c :: cs) = .error error := by
  rw [tokens.eq_def]
  simp only [notBlank, Bool.false_eq_true, if_false]
  split
  · rename_i first
    rw [h] at first
    cases first
  · rename_i first
    rw [h] at first
    cases first
    rfl

/-- Two texts in a row are scanned one after the other. An error in the first text comes first. -/
theorem tokens_append {rest : List Char} (stops : Stops rest) (cs : List Char) :
    tokens (cs ++ rest) = (do
      let ts ← tokens cs
      let us ← tokens rest
      .ok (ts ++ us)) := by
  fun_induction tokens cs with
  | case1 =>
    rw [List.nil_append]
    cases tokens rest <;> rfl
  | case2 c cs blank ih => rw [List.cons_append, tokens_of_blank blank, ih]
  | case3 c cs notBlank t after first _ ts others ih =>
    have first' := lexeme_append stops c cs
    rw [first] at first'
    rw [List.cons_append, tokens_of_lexeme (by simpa using notBlank) first', ih, others]
    cases tokens rest <;> rfl
  | case4 c cs notBlank t after first _ e others ih =>
    have first' := lexeme_append stops c cs
    rw [first] at first'
    rw [List.cons_append, tokens_of_lexeme (by simpa using notBlank) first', ih, others]
    rfl
  | case5 c cs notBlank e first =>
    have first' := lexeme_append stops c cs
    rw [first] at first'
    rw [List.cons_append, tokens_of_lexeme_error (by simpa using notBlank) first']
    rfl

end Reckoner.Scan
