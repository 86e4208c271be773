import Reckoner.Proofs.Parse.Grammar

/-! The tokens that a phrase takes, and what may be changed after them. A phrase is the front of its
tokens, the numbers in it are the leaves of its tree in the same order, and a phrase that ends at
the end of the tokens can as well end at a closing parenthesis. -/
namespace Reckoner

variable {ν : Type}

def Token.number? : Token ν → Option ν
  | .number x => some x
  | _ => none

namespace Expr

mutual

def numbers : Expr ν → List ν
  | .number x => [x]
  | .name _ => []
  | .binary l _ r => l.numbers ++ r.numbers
  | .unary _ e => e.numbers
  | .call _ es => numbersAll es

def numbersAll : List (Expr ν) → List ν
  | [] => []
  | e :: es => e.numbers ++ numbersAll es

end

end Expr

namespace Grammar

open Parse (startsOperand)

def Spans (ts : List (Token ν)) (xs : List ν) (rest : List (Token ν)) : Prop :=
  ∃ front, ts = front ++ rest ∧ front.filterMap Token.number? = xs

namespace Spans

variable {ts mid rest : List (Token ν)} {xs ys : List ν}

theorem trans (h : Spans ts xs mid) (h' : Spans mid ys rest) : Spans ts (xs ++ ys) rest := by
  obtain ⟨front, rfl, rfl⟩ := h
  obtain ⟨front', rfl, rfl⟩ := h'
  exact ⟨front ++ front', (List.append_assoc _ _ _).symm, List.filterMap_append⟩

theorem mark (m : Mark) (ts : List (Token ν)) : Spans (.mark m :: ts) [] ts :=
  ⟨[.mark m], rfl, rfl⟩

theorem before_mark {m : Mark} (h : Spans ts xs (.mark m :: rest)) : Spans ts xs rest := by
  simpa using h.trans (mark m rest)

theorem after_mark {m : Mark} (h : Spans ts xs rest) : Spans (.mark m :: ts) xs rest :=
  (mark m ts).trans h

theorem suffix (h : Spans ts xs rest) : rest <:+ ts := by
  obtain ⟨front, rfl, _⟩ := h
  exact List.suffix_append front rest

end Spans

mutual

theorem IsSum.spans {ts rest : List (Token ν)} {e : Expr ν} :
    IsSum ts e rest → Spans ts e.numbers rest
  | .product h => h.spans
  | .plus before next => before.spans.before_mark.trans next.spans
  | .minus before next => before.spans.before_mark.trans next.spans

theorem IsProduct.spans {ts rest : List (Token ν)} {e : Expr ν} :
    IsProduct ts e rest → Spans ts e.numbers rest
  | .signed h => h.spans
  | .star before next => before.spans.before_mark.trans next.spans
  | .slash before next => before.spans.before_mark.trans next.spans
  | .percent before _ next => before.spans.before_mark.trans next.spans
  | .juxtaposed before _ next => before.spans.trans next.spans

theorem IsSigned.spans {ts rest : List (Token ν)} {e : Expr ν} :
    IsSigned ts e rest → Spans ts e.numbers rest
  | .minus h => h.spans.after_mark
  | .plus h => h.spans.after_mark
  | .power h => h.spans

theorem IsPower.spans {ts rest : List (Token ν)} {e : Expr ν} :
    IsPower ts e rest → Spans ts e.numbers rest
  | .operand h => h.spans
  | .caret base exponent => base.spans.before_mark.trans exponent.spans

theorem IsOperand.spans {ts rest : List (Token ν)} {e : Expr ν} :
    IsOperand ts e rest → Spans ts e.numbers rest
  | .marked h _ => h.spans

theorem IsMarked.spans {ts rest : List (Token ν)} {e : Expr ν} :
    IsMarked ts e rest → Spans ts e.numbers rest
  | .atom h => h.spans
  | .bang h => h.spans.before_mark
  | .percent h _ => h.spans.before_mark

theorem IsAtom.spans {ts rest : List (Token ν)} {e : Expr ν} :
    IsAtom ts e rest → Spans ts e.numbers rest
  | .number (x := x) => ⟨[.number x], rfl, rfl⟩
  | .name (s := s) _ => ⟨[.name s], rfl, rfl⟩
  | .call (s := s) h => by
    obtain ⟨front, rfl, numbers⟩ := h.spans
    exact ⟨.name s :: .mark .opening :: front, rfl, numbers⟩
  | .group h => h.spans.before_mark.after_mark
  | .root h => by
    simpa [Expr.numbers, Expr.numbersAll] using h.spans.after_mark

theorem IsArguments.spans {ts rest : List (Token ν)} {es : List (Expr ν)} :
    IsArguments ts es rest → Spans ts (Expr.numbersAll es) rest
  | .none => .mark _ _
  | .some h => h.spans.before_mark

theorem IsSums.spans {ts rest : List (Token ν)} {es : List (Expr ν)} :
    IsSums ts es rest → Spans ts (Expr.numbersAll es) rest
  | .one h => by
    simpa [Expr.numbersAll] using h.spans
  | .more h others => h.spans.before_mark.trans others.spans

end

/-! A closing parenthesis ends a phrase as the end of the tokens does. -/

theorem startsOperand_append_closing (ts k : List (Token ν)) :
    startsOperand (ts ++ .mark .closing :: k) = startsOperand ts := by
  cases ts <;> rfl

theorem opens_append_closing (ts k : List (Token ν)) :
    opens (ts ++ .mark .closing :: k) = opens ts := by
  rcases ts with _ | ⟨x | s | m, ts⟩
  case cons.mark => cases m <;> rfl
  all_goals rfl

theorem markFollows_append_closing (ts k : List (Token ν)) :
    markFollows (ts ++ .mark .closing :: k) = markFollows ts := by
  rcases ts with _ | ⟨x | s | m, ts⟩
  case cons.mark =>
    cases m
    case percent => simp only [List.cons_append, markFollows, startsOperand_append_closing]
    all_goals rfl
  all_goals rfl

section

variable (k : List (Token ν))

mutual

theorem IsSum.append_closing {ts rest : List (Token ν)} {e : Expr ν} :
    IsSum ts e rest → IsSum (ts ++ .mark .closing :: k) e (rest ++ .mark .closing :: k)
  | .product h => .product h.append_closing
  | .plus before next => .plus before.append_closing next.append_closing
  | .minus before next => .minus before.append_closing next.append_closing

theorem IsProduct.append_closing {ts rest : List (Token ν)} {e : Expr ν} :
    IsProduct ts e rest → IsProduct (ts ++ .mark .closing :: k) e (rest ++ .mark .closing :: k)
  | .signed h => .signed h.append_closing
  | .star before next => .star before.append_closing next.append_closing
  | .slash before next => .slash before.append_closing next.append_closing
  | .percent before starts next =>
    .percent before.append_closing ((startsOperand_append_closing _ k).trans starts)
      next.append_closing
  | .juxtaposed before starts next =>
    .juxtaposed before.append_closing ((startsOperand_append_closing _ k).trans starts)
      next.append_closing

theorem IsSigned.append_closing {ts rest : List (Token ν)} {e : Expr ν} :
    IsSigned ts e rest → IsSigned (ts ++ .mark .closing :: k) e (rest ++ .mark .closing :: k)
  | .minus h => .minus h.append_closing
  | .plus h => .plus h.append_closing
  | .power h => .power h.append_closing

theorem IsPower.append_closing {ts rest : List (Token ν)} {e : Expr ν} :
    IsPower ts e rest → IsPower (ts ++ .mark .closing :: k) e (rest ++ .mark .closing :: k)
  | .operand h => .operand h.append_closing
  | .caret base exponent => .caret base.append_closing exponent.append_closing

theorem IsOperand.append_closing {ts rest : List (Token ν)} {e : Expr ν} :
    IsOperand ts e rest → IsOperand (ts ++ .mark .closing :: k) e (rest ++ .mark .closing :: k)
  | .marked h noMark => .marked h.append_closing ((markFollows_append_closing _ k).trans noMark)

theorem IsMarked.append_closing {ts rest : List (Token ν)} {e : Expr ν} :
    IsMarked ts e rest → IsMarked (ts ++ .mark .closing :: k) e (rest ++ .mark .closing :: k)
  | .atom h => .atom h.append_closing
  | .bang h => .bang h.append_closing
  | .percent h noOperand =>
    .percent h.append_closing ((startsOperand_append_closing _ k).trans noOperand)

theorem IsAtom.append_closing {ts rest : List (Token ν)} {e : Expr ν} :
    IsAtom ts e rest → IsAtom (ts ++ .mark .closing :: k) e (rest ++ .mark .closing :: k)
  | .number => .number
  | .name notCalled => .name ((opens_append_closing _ k).trans notCalled)
  | .call h => .call h.append_closing
  | .group h => .group h.append_closing
  | .root h => .root h.append_closing

theorem IsArguments.append_closing {ts rest : List (Token ν)} {es : List (Expr ν)} :
    IsArguments ts es rest →
      IsArguments (ts ++ .mark .closing :: k) es (rest ++ .mark .closing :: k)
  | .none => .none
  | .some h => .some h.append_closing

theorem IsSums.append_closing {ts rest : List (Token ν)} {es : List (Expr ν)} :
    IsSums ts es rest → IsSums (ts ++ .mark .closing :: k) es (rest ++ .mark .closing :: k)
  | .one h => .one h.append_closing
  | .more h others => .more h.append_closing others.append_closing

end

end

end Grammar

end Reckoner
