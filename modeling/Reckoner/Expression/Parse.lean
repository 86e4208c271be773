import Reckoner.Expression.Scan
import Reckoner.Expression.Tree

/-! From tokens to trees, one function for each level of the notation. Every phrase takes at least
one token, and the proof of that comes with the tokens it leaves, so the levels may call each other
freely. -/
namespace Reckoner.Parse

variable {ν : Type}

/-- A phrase and the tokens after it. -/
abbrev Phrase (α ν : Type) (ts : List (Token ν)) :=
  Except ReadFault (α × { rest : List (Token ν) // rest.length < ts.length })

/-- A continuation of a phrase, which may take no token at all. -/
abbrev Continued (α ν : Type) (ts : List (Token ν)) :=
  Except ReadFault (α × { rest : List (Token ν) // rest.length ≤ ts.length })

def startsOperand : List (Token ν) → Bool
  | t :: _ => t.startsOperand
  | [] => false

/-- The mark that stands next. After a complete phrase there is no operand to name, because a
product takes every operand that follows it. -/
def upcoming : List (Token ν) → Option Mark
  | .mark m :: _ => some m
  | _ => none

def additive? : Token ν → Option Char
  | .mark .plus => some '+'
  | .mark .minus => some '-'
  | _ => none

def multiplicative? : Token ν → Option Char
  | .mark .star => some '*'
  | .mark .slash => some '/'
  | .mark .percent => some '%'
  | _ => none

/-- Takes the marks after an operand. A percent sign before another operand is not one of them: it
is the remainder operator. -/
def marked (e : Expr ν) : List (Token ν) → Expr ν × List (Token ν)
  | .mark .bang :: rest => marked (.unary '!' e) rest
  | .mark .percent :: rest =>
    if startsOperand rest then (e, .mark .percent :: rest) else marked (.unary '%' e) rest
  | rest => (e, rest)

theorem length_marked (e : Expr ν) (ts : List (Token ν)) :
    (marked e ts).2.length ≤ ts.length := by
  fun_induction marked e ts with
  | case1 e rest ih => exact Nat.le_succ_of_le ih
  | case2 => exact Nat.le_refl _
  | case3 e rest _ ih => exact Nat.le_succ_of_le ih
  | case4 => exact Nat.le_refl _

def closing : (ts : List (Token ν)) →
    Except ReadFault { rest : List (Token ν) // rest.length < ts.length }
  | .mark .closing :: rest => .ok ⟨rest, Nat.lt_succ_self _⟩
  | ts => .error (.unclosed (upcoming ts))

mutual

def sum (ts : List (Token ν)) : Phrase (Expr ν) ν ts :=
  match product ts with
  | .error f => .error f
  | .ok (left, ⟨rest, _⟩) =>
    match sumRest left rest with
    | .error f => .error f
    | .ok (e, ⟨rest', _⟩) => .ok (e, ⟨rest', by omega⟩)
termination_by (ts.length, 6)

def sumRest (left : Expr ν) (ts : List (Token ν)) : Continued (Expr ν) ν ts :=
  match ts with
  | [] => .ok (left, ⟨[], Nat.le_refl _⟩)
  | t :: rest =>
    match additive? t with
    | none => .ok (left, ⟨t :: rest, Nat.le_refl _⟩)
    | some sign =>
      match product rest with
      | .error f => .error f
      | .ok (right, ⟨rest', _⟩) =>
        match sumRest (.binary left sign right) rest' with
        | .error f => .error f
        | .ok (e, ⟨rest'', _⟩) =>
          .ok (e, ⟨rest'', by simp only [List.length_cons]; omega⟩)
termination_by (ts.length, 0)

/-- A signed power, then any number of factors. A factor that begins with an operand is multiplied
without a sign. -/
def product (ts : List (Token ν)) : Phrase (Expr ν) ν ts :=
  match signed ts with
  | .error f => .error f
  | .ok (left, ⟨rest, _⟩) =>
    match productRest left rest with
    | .error f => .error f
    | .ok (e, ⟨rest', _⟩) => .ok (e, ⟨rest', by omega⟩)
termination_by (ts.length, 5)

def productRest (left : Expr ν) (ts : List (Token ν)) : Continued (Expr ν) ν ts :=
  match ts with
  | [] => .ok (left, ⟨[], Nat.le_refl _⟩)
  | t :: rest =>
    match multiplicative? t with
    | some sign =>
      match signed rest with
      | .error f => .error f
      | .ok (right, ⟨rest', _⟩) =>
        match productRest (.binary left sign right) rest' with
        | .error f => .error f
        | .ok (e, ⟨rest'', _⟩) =>
          .ok (e, ⟨rest'', by simp only [List.length_cons]; omega⟩)
    | none =>
      if t.startsOperand then
        match power (t :: rest) with
        | .error f => .error f
        | .ok (right, ⟨rest', _⟩) =>
          match productRest (.binary left '*' right) rest' with
          | .error f => .error f
          | .ok (e, ⟨rest'', _⟩) => .ok (e, ⟨rest'', by omega⟩)
      else .ok (left, ⟨t :: rest, Nat.le_refl _⟩)
termination_by (ts.length, 4)

/-- A power behind any number of signs. A plus leaves no node. -/
def signed (ts : List (Token ν)) : Phrase (Expr ν) ν ts :=
  match ts with
  | .mark .minus :: rest =>
    match signed rest with
    | .error f => .error f
    | .ok (e, ⟨rest', _⟩) =>
      .ok (.unary '-' e, ⟨rest', by simp only [List.length_cons]; omega⟩)
  | .mark .plus :: rest =>
    match signed rest with
    | .error f => .error f
    | .ok (e, ⟨rest', _⟩) => .ok (e, ⟨rest', by simp only [List.length_cons]; omega⟩)
  | ts => power ts
termination_by (ts.length, 4)

/-- An operand, perhaps raised to a signed power of its own. -/
def power (ts : List (Token ν)) : Phrase (Expr ν) ν ts :=
  match operand ts with
  | .error f => .error f
  | .ok (base, ⟨rest, shorter⟩) =>
    match rest, shorter with
    | .mark .caret :: rest, shorter =>
      have : rest.length < ts.length := Nat.lt_of_succ_lt shorter
      match signed rest with
      | .error f => .error f
      | .ok (exponent, ⟨rest', _⟩) => .ok (.binary base '^' exponent, ⟨rest', by omega⟩)
    | rest, shorter => .ok (base, ⟨rest, shorter⟩)
termination_by (ts.length, 3)

def operand (ts : List (Token ν)) : Phrase (Expr ν) ν ts :=
  match atom ts with
  | .error f => .error f
  | .ok (e, ⟨rest, _⟩) =>
    .ok ((marked e rest).1, ⟨(marked e rest).2, by have := length_marked e rest; omega⟩)
termination_by (ts.length, 2)

/-- A number, a name, a call, a sum in parentheses, or a root sign before an operand. -/
def atom (ts : List (Token ν)) : Phrase (Expr ν) ν ts :=
  match ts with
  | .number x :: rest => .ok (.number x, ⟨rest, Nat.lt_succ_self _⟩)
  | .name s :: .mark .opening :: rest =>
    match arguments rest with
    | .error f => .error f
    | .ok (es, ⟨rest', _⟩) => .ok (.call s es, ⟨rest', by simp only [List.length_cons]; omega⟩)
  | .name s :: rest => .ok (.name s, ⟨rest, Nat.lt_succ_self _⟩)
  | .mark .opening :: rest =>
    match sum rest with
    | .error f => .error f
    | .ok (e, ⟨rest', _⟩) =>
      match closing rest' with
      | .error f => .error f
      | .ok ⟨rest'', _⟩ => .ok (e, ⟨rest'', by simp only [List.length_cons]; omega⟩)
  | .mark .root :: rest =>
    match operand rest with
    | .error f => .error f
    | .ok (e, ⟨rest', _⟩) =>
      .ok (.call "sqrt" [e], ⟨rest', by simp only [List.length_cons]; omega⟩)
  | .mark m :: _ => .error (.unexpected (some m))
  | [] => .error (.unexpected none)
termination_by (ts.length, 1)

/-- The arguments of a call and the parenthesis that closes them. -/
def arguments (ts : List (Token ν)) : Phrase (List (Expr ν)) ν ts :=
  match ts with
  | .mark .closing :: rest => .ok ([], ⟨rest, Nat.lt_succ_self _⟩)
  | ts => someArguments ts
termination_by (ts.length, 8)

/-- At least one argument, with commas between. -/
def someArguments (ts : List (Token ν)) : Phrase (List (Expr ν)) ν ts :=
  match sum ts with
  | .error f => .error f
  | .ok (e, ⟨rest, shorter⟩) =>
    match rest, shorter with
    | .mark .comma :: rest, shorter =>
      have : rest.length < ts.length := Nat.lt_of_succ_lt shorter
      match someArguments rest with
      | .error f => .error f
      | .ok (es, ⟨rest', _⟩) => .ok (e :: es, ⟨rest', by omega⟩)
    | rest, _ =>
      match closing rest with
      | .error f => .error f
      | .ok ⟨rest', _⟩ => .ok ([e], ⟨rest', by omega⟩)
termination_by (ts.length, 7)

end

end Reckoner.Parse

namespace Reckoner

variable {ν : Type}

/-- The tree of a list of tokens, which must be one sum from end to end. -/
def parse (ts : List (Token ν)) : Except Error (Expr ν) :=
  match ts with
  | [] => .error (.read .emptyExpression)
  | ts =>
    match Parse.sum ts with
    | .error f => .error (.read f)
    | .ok (e, ⟨rest, _⟩) =>
      if rest.isEmpty then .ok e else .error (.read (.unexpected (Parse.upcoming rest)))

def parseText (text : String) : Except Error (Expr Float) := do
  parse (← tokenize text)

end Reckoner
