import Reckoner.Expression.Parse

/-! The notation as a grammar, without a word on how it is read. A phrase is described in front of
the tokens that follow it, because two rules look ahead: an operand takes every mark after it, and a
percent sign is a mark unless an operand follows it. -/
namespace Reckoner.Grammar

open Parse (startsOperand)

variable {ν : Type}

/-- Whether a mark of the operand before stands next. -/
def markFollows : List (Token ν) → Bool
  | .mark .bang :: _ => true
  | .mark .percent :: rest => !startsOperand rest
  | _ => false

/-- Whether an opening parenthesis stands next. A name before it is called. -/
def opens : List (Token ν) → Bool
  | .mark .opening :: _ => true
  | _ => false

mutual

/-- A product, then any number of signed products, from left to right. `IsSum ts e rest` says that
a sum with tree `e` stands at the front of `ts`, and `rest` after it; the other phrases alike. -/
inductive IsSum : List (Token ν) → Expr ν → List (Token ν) → Prop where
  | product {ts rest e} : IsProduct ts e rest → IsSum ts e rest
  | plus {ts mid rest l r} : IsSum ts l (.mark .plus :: mid) → IsProduct mid r rest →
      IsSum ts (.binary l '+' r) rest
  | minus {ts mid rest l r} : IsSum ts l (.mark .minus :: mid) → IsProduct mid r rest →
      IsSum ts (.binary l '-' r) rest

/-- A signed power, then any number of factors, from left to right. A power with nothing before it
is a factor too. -/
inductive IsProduct : List (Token ν) → Expr ν → List (Token ν) → Prop where
  | signed {ts rest e} : IsSigned ts e rest → IsProduct ts e rest
  | star {ts mid rest l r} : IsProduct ts l (.mark .star :: mid) → IsSigned mid r rest →
      IsProduct ts (.binary l '*' r) rest
  | slash {ts mid rest l r} : IsProduct ts l (.mark .slash :: mid) → IsSigned mid r rest →
      IsProduct ts (.binary l '/' r) rest
  | percent {ts mid rest l r} : IsProduct ts l (.mark .percent :: mid) →
      startsOperand mid = true → IsSigned mid r rest → IsProduct ts (.binary l '%' r) rest
  | juxtaposed {ts mid rest l r} : IsProduct ts l mid → startsOperand mid = true →
      IsPower mid r rest → IsProduct ts (.binary l '*' r) rest

/-- A power behind any number of signs. A plus leaves no node. -/
inductive IsSigned : List (Token ν) → Expr ν → List (Token ν) → Prop where
  | minus {ts rest e} : IsSigned ts e rest → IsSigned (.mark .minus :: ts) (.unary '-' e) rest
  | plus {ts rest e} : IsSigned ts e rest → IsSigned (.mark .plus :: ts) e rest
  | power {ts rest e} : IsPower ts e rest → IsSigned ts e rest

inductive IsPower : List (Token ν) → Expr ν → List (Token ν) → Prop where
  | operand {ts rest e} : IsOperand ts e rest → IsPower ts e rest
  | caret {ts mid rest b x} : IsOperand ts b (.mark .caret :: mid) → IsSigned mid x rest →
      IsPower ts (.binary b '^' x) rest

inductive IsOperand : List (Token ν) → Expr ν → List (Token ν) → Prop where
  | marked {ts rest e} : IsMarked ts e rest → markFollows rest = false → IsOperand ts e rest

inductive IsMarked : List (Token ν) → Expr ν → List (Token ν) → Prop where
  | atom {ts rest e} : IsAtom ts e rest → IsMarked ts e rest
  | bang {ts rest e} : IsMarked ts e (.mark .bang :: rest) → IsMarked ts (.unary '!' e) rest
  | percent {ts rest e} : IsMarked ts e (.mark .percent :: rest) → startsOperand rest = false →
      IsMarked ts (.unary '%' e) rest

/-- A number, a name that is not called, a call, a sum in parentheses, or a root sign before an
operand. -/
inductive IsAtom : List (Token ν) → Expr ν → List (Token ν) → Prop where
  | number {x rest} : IsAtom (.number x :: rest) (.number x) rest
  | name {s rest} : opens rest = false → IsAtom (.name s :: rest) (.name s) rest
  | call {s ts rest es} : IsArguments ts es rest →
      IsAtom (.name s :: .mark .opening :: ts) (.call s es) rest
  | group {ts rest e} : IsSum ts e (.mark .closing :: rest) →
      IsAtom (.mark .opening :: ts) e rest
  | root {ts rest e} : IsOperand ts e rest → IsAtom (.mark .root :: ts) (.call "sqrt" [e]) rest

inductive IsArguments : List (Token ν) → List (Expr ν) → List (Token ν) → Prop where
  | none {rest} : IsArguments (.mark .closing :: rest) [] rest
  | some {ts rest es} : IsSums ts es (.mark .closing :: rest) → IsArguments ts es rest

inductive IsSums : List (Token ν) → List (Expr ν) → List (Token ν) → Prop where
  | one {ts rest e} : IsSum ts e rest → IsSums ts [e] rest
  | more {ts mid rest e es} : IsSum ts e (.mark .comma :: mid) → IsSums mid es rest →
      IsSums ts (e :: es) rest

end

section

variable {ts rest : List (Token ν)} {e : Expr ν}

/-- An atom that no mark follows is a power by itself. -/
theorem IsAtom.isPower (atom : IsAtom ts e rest) (noMark : markFollows rest = false) :
    IsPower ts e rest :=
  .operand (.marked (.atom atom) noMark)

theorem IsPower.isProduct (power : IsPower ts e rest) : IsProduct ts e rest :=
  .signed (.power power)

theorem IsPower.isSum (power : IsPower ts e rest) : IsSum ts e rest := .product power.isProduct

end

end Reckoner.Grammar
