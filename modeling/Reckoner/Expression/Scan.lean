import Reckoner.Decimal.Literal
import Reckoner.Error
import Reckoner.Text.Blank
import Reckoner.Text.Numeral

/-! From characters to tokens. One lexeme is read at a time; what is left after it is no longer
than what followed its first character, so scanning ends. -/
namespace Reckoner.Scan

/-- The digits and points of a literal. -/
def isLiteral (c : Char) : Bool := c.isDigit || c == '.'

/-- The letters that are constants by themselves and never part of a longer name. -/
def isSymbol (c : Char) : Bool := c == 'π' || c == 'φ'

def startsName (c : Char) : Bool := Text.isAlphabetic c || c == '_'

def continuesName (c : Char) : Bool := (Text.isAlphanumeric c || c == '_') && !isSymbol c

/-- The sign of a power of ten, if there is one, and what follows it. -/
def splitSign : List Char → List Char × List Char
  | '+' :: rest => (['+'], rest)
  | '-' :: rest => (['-'], rest)
  | rest => ([], rest)

/-- Splits off a power of ten: an `e`, a sign or none, and at least one digit. Without a digit the
`e` belongs to what follows. -/
def splitPower : List Char → List Char × List Char
  | e :: rest =>
    let (sign, tail) := splitSign rest
    let digits := tail.takeWhile Char.isDigit
    if (e == 'e' || e == 'E') && !digits.isEmpty then
      (sign ++ digits, tail.dropWhile Char.isDigit)
    else ([], e :: rest)
  | [] => ([], [])

def punctuation? : Char → Option Mark
  | '+' => some .plus
  | '-' | '−' => some .minus
  | '*' | '×' => some .star
  | '/' | '÷' => some .slash
  | '^' => some .caret
  | '%' => some .percent
  | '!' => some .bang
  | '√' => some .root
  | ',' => some .comma
  | '(' => some .opening
  | ')' => some .closing
  | _ => none

/-- A number, from the digits and points at the front of a text. -/
def numeral (cs : List Char) : Except Error (Token Float × List Char) :=
  let digits := cs.takeWhile isLiteral
  let (power, rest) := splitPower (cs.dropWhile isLiteral)
  match Decimal.literal? digits power with
  | some x => .ok (.number x, rest)
  | none =>
    let text := if power.isEmpty then digits else digits ++ 'e' :: power
    .error (.read (.malformedNumber (String.ofList text)))

/-- The token at the front of a text that does not begin with a blank. A doubled star is a power
sign. -/
def lexeme (c : Char) (cs : List Char) : Except Error (Token Float × List Char) :=
  if isLiteral c then numeral (c :: cs)
  else if isSymbol c then .ok (.name c.toString, cs)
  else if startsName c then
    .ok (.name (String.ofList (c :: cs.takeWhile continuesName)), cs.dropWhile continuesName)
  else
    match punctuation? c with
    | some .star =>
      match cs with
      | '*' :: rest => .ok (.mark .caret, rest)
      | _ => .ok (.mark .star, cs)
    | some m => .ok (.mark m, cs)
    | none => .error (.read (.unexpectedCharacter c))

theorem length_splitSign (cs : List Char) : (splitSign cs).2.length ≤ cs.length := by
  unfold splitSign
  split <;> simp

theorem length_splitPower (cs : List Char) : (splitPower cs).2.length ≤ cs.length := by
  cases cs with
  | nil => simp [splitPower]
  | cons e rest =>
    have sign := length_splitSign rest
    have digits := (List.dropWhile_sublist Char.isDigit (l := (splitSign rest).2)).length_le
    simp only [splitPower]
    split <;> simp only [List.length_cons] <;> omega

theorem length_numeral {c : Char} {cs rest : List Char} {t : Token Float} (hc : isLiteral c = true)
    (h : numeral (c :: cs) = .ok (t, rest)) : rest.length ≤ cs.length := by
  have power := length_splitPower (cs.dropWhile isLiteral)
  have literal := (List.dropWhile_sublist isLiteral (l := cs)).length_le
  simp only [numeral, List.dropWhile_cons, hc, if_true] at h
  split at h
  · cases h
    omega
  · cases h

theorem length_lexeme {c : Char} {cs rest : List Char} {t : Token Float}
    (h : lexeme c cs = .ok (t, rest)) : rest.length ≤ cs.length := by
  unfold lexeme at h
  split at h
  · exact length_numeral ‹_› h
  · split at h
    · cases h
      exact Nat.le_refl _
    · split at h
      · cases h
        exact (List.dropWhile_sublist continuesName).length_le
      · split at h
        · split at h <;> cases h <;> simp
        · cases h
          exact Nat.le_refl _
        · cases h

/-- The tokens of a text. The first lexeme that cannot be read is the error. -/
def tokens : List Char → Except Error (List (Token Float))
  | [] => .ok []
  | c :: cs =>
    if Text.isBlank c then tokens cs
    else
      match h : lexeme c cs with
      | .ok (t, rest) =>
        have := length_lexeme h
        match tokens rest with
        | .ok ts => .ok (t :: ts)
        | .error e => .error e
      | .error e => .error e
termination_by cs => cs.length

end Reckoner.Scan

namespace Reckoner

def tokenize (text : String) : Except Error (List (Token Float)) :=
  Scan.tokens text.toList

end Reckoner
