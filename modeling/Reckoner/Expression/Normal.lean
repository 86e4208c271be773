import Reckoner.Choice
import Reckoner.Constants
import Reckoner.Expression.Scan
import Reckoner.Expression.Symbols
import Reckoner.Function.Builtin

/-! From text to the tokens that are parsed: names are replaced by the values they stand for, and
missing closing parentheses are added. A name is replaced as a whole token, so a variable never
touches a longer name that contains it. -/
namespace Reckoner

/-- What to do about parentheses that are left open. Extra closing ones are always refused. -/
inductive ParenPolicy where
  | repair
  | strict
deriving DecidableEq, Repr

instance : Choice ParenPolicy where
  kind := "parenthesis policy"
  words := [("repair", .repair), ("strict", .strict)]

/-- The parentheses left open by a text. A closing one without a partner is refused at once. -/
def unclosedFrom : Nat → List Char → Except Error Nat
  | depth, [] => .ok depth
  | depth, '(' :: rest => unclosedFrom (depth + 1) rest
  | 0, ')' :: _ => .error (.paren .extraClosing)
  | depth + 1, ')' :: rest => unclosedFrom depth rest
  | depth, _ :: rest => unclosedFrom depth rest

def checkBalance (text : String) : Except Error Nat := unclosedFrom 0 text.toList

/-- A free variable and what stands for it. -/
structure Binding (ν : Type) where
  name : String
  value : ν

namespace Normal

variable {ν : Type}

def inParens (x : ν) : List (Token ν) := [.mark .opening, .number x, .mark .closing]

/-- A negative value stands in parentheses, so that its sign stays with it when it is written. -/
def spelled (number : Float → ν) (x : Float) : List (Token ν) :=
  if x < 0 then inParens (number x) else [.number (number x)]

/-- What a name stands for. The free variable comes first, then the last answer, the stored
variables, a function that is called, and the constants; any other name stays. -/
def replacement (number : Float → ν) (symbols : Symbols) (binding : Option (Binding ν))
    (called : Bool) (name : String) : List (Token ν) :=
  match binding.filter (·.name == name) with
  | some b => inParens b.value
  | none =>
    if name == "ANS" then spelled number symbols.answer
    else
      match symbols.named? name with
      | some x => spelled number x
      | none =>
        if called && Builtin.isName name then [.name name.toLower]
        else
          match expressionConstant? name with
          | some x => [.number (number x)]
          | none => [.name name]

/-- Whether an opening parenthesis stands next, as after the name in a call. -/
def isCalled : List (Token Float) → Bool
  | .mark .opening :: _ => true
  | _ => false

def replaceNames (number : Float → ν) (symbols : Symbols) (binding : Option (Binding ν)) :
    List (Token Float) → List (Token ν)
  | [] => []
  | .name s :: rest =>
    replacement number symbols binding (isCalled rest) s ++ replaceNames number symbols binding rest
  | .number x :: rest => .number (number x) :: replaceNames number symbols binding rest
  | .mark m :: rest => .mark m :: replaceNames number symbols binding rest

def isMark (m : Mark) : Token ν → Bool
  | .mark sign => sign == m
  | _ => false

def missing (ts : List (Token ν)) : Nat :=
  ts.countP (isMark .opening) - ts.countP (isMark .closing)

end Normal

/-- A balanced list of tokens, and how many closing parentheses were added at its end. -/
structure Normal (ν : Type) where
  tokens : List (Token ν)
  repaired : Nat

/-- Normalizes a text, with `number` taking values to what stands for them. -/
def normalizeWith {ν : Type} (number : Float → ν) (text : String) (symbols : Symbols)
    (binding : Option (Binding ν)) (policy : ParenPolicy) : Except Error (Normal ν) := do
  let unclosed ← checkBalance text
  if 0 < unclosed && policy == .strict then
    .error (.paren .missingClosing)
  else
    let ts := Normal.replaceNames number symbols binding (← tokenize text)
    let repaired := Normal.missing ts
    .ok ⟨ts ++ List.replicate repaired (.mark .closing), repaired⟩

def normalize (text : String) (symbols : Symbols) (binding : Option (Binding Float))
    (policy : ParenPolicy) : Except Error (Normal Float) :=
  normalizeWith id text symbols binding policy

/-- Tokens as text, with a space between two words. -/
def renderTokens : List (Token Float) → String
  | [] => ""
  | [t] => t.text
  | t :: u :: rest =>
    t.text ++ (if t.isWord && u.isWord then " " else "") ++ renderTokens (u :: rest)

def Normal.text (n : Normal Float) : String := renderTokens n.tokens

end Reckoner
