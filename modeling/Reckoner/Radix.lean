import Reckoner.Binary.Integral
import Reckoner.Error
import Reckoner.Text.Blank

/-! Integers written in base 2, 8, 10 and 16. -/
namespace Reckoner.Radix

def checkRadix (radix : Nat) : Except Error Unit :=
  if [2, 8, 10, 16].contains radix then .ok () else .error (.domain (.unsupportedRadix radix))

def digits (radix n : Nat) : List Char := (Nat.toDigits radix n).map Char.toUpper

/-- Writes a whole number of magnitude below `2 ^ 63`. -/
def toBase (x : Float) (radix : Nat) : Except Error String := do
  checkRadix radix
  match Binary.integer? x with
  | some n =>
    if n.natAbs < Nat.pow 2 63 then
      .ok (String.ofList ((if n < 0 then ['-'] else []) ++ digits radix n.natAbs))
    else .error (.domain (.notAnInteger x))
  | none => .error (.domain (.notAnInteger x))

def digitValue? (radix : Nat) (c : Char) : Option Nat :=
  let value :=
    if c.isDigit then some (c.toNat - '0'.toNat)
    else if 'a' ≤ c && c ≤ 'z' then some (c.toNat - 'a'.toNat + 10)
    else if 'A' ≤ c && c ≤ 'Z' then some (c.toNat - 'A'.toNat + 10)
    else none
  value.filter (· < radix)

def natural? (radix : Nat) (cs : List Char) : Option Nat :=
  if cs.isEmpty then none
  else cs.foldlM (fun n c => (digitValue? radix c).map (radix * n + ·)) 0

/-- Digits behind an optional plus sign, of a value below `2 ^ 64`. -/
def word? (radix : Nat) (cs : List Char) : Option Nat :=
  let body := match cs with
    | '+' :: rest => rest
    | _ => cs
  (natural? radix body).filter (· < Nat.pow 2 64)

/-- Takes a sign off the front; `true` for a minus. -/
def splitSign : List Char → Bool × List Char
  | '-' :: rest => (true, rest)
  | '+' :: rest => (false, rest)
  | cs => (false, cs)

/-- Takes the mark of a radix off the front. -/
def dropMark (radix : Nat) : List Char → List Char
  | '0' :: c :: rest =>
    if (radix = 2 && (c == 'b' || c == 'B')) || (radix = 8 && (c == 'o' || c == 'O')) ||
        (radix = 16 && (c == 'x' || c == 'X')) then rest
    else '0' :: c :: rest
  | cs => cs

/-- Reads a sign, the mark of the radix and digits, all but the digits optional. -/
def fromBase (text : String) (radix : Nat) : Except Error Float := do
  checkRadix radix
  let (negative, body) := splitSign (Text.trimmed text.toList)
  match word? radix (dropMark radix body) with
  | some n => .ok (Binary.Exact.nearest ⟨negative, n, 0⟩)
  | none => .error (.domain (.notInRadix text radix))

end Reckoner.Radix
