import Reckoner.Proofs.Parse.Written

/-! What a tree keeps of its tokens. Read from left to right, a tree has every number, name and
operator of the tokens, once and in their order. Parentheses, commas and a plus before an operand go
into no tree, a root sign is the name of a function, and the one thing a tree has that the tokens may
lack is the sign of a product between two operands that stand side by side. -/
namespace Reckoner

open Parse (startsOperand)
open Grammar

variable {ν : Type}

def UnaryOp.mark : UnaryOp → Mark
  | .neg => .minus
  | .percent => .percent
  | .factorial => .bang

namespace Expr

mutual

/-- The numbers, names and operators of a tree from left to right: a minus before its operand, the
other unary signs after it, a binary sign between its operands, and the name of a call before the
arguments. A sign that means nothing has no token. -/
def inOrder : Expr ν → List (Token ν)
  | .number x => [.number x]
  | .name s => [.name s]
  | .binary l sign r =>
    l.inOrder ++ ((BinaryOp.ofSign? sign).toList.map (.mark ·.mark) ++ r.inOrder)
  | .unary sign e =>
    match UnaryOp.ofSign? sign with
    | some .neg => .mark .minus :: e.inOrder
    | some op => e.inOrder ++ [.mark op.mark]
    | none => e.inOrder
  | .call s es => .name s :: inOrderAll es

def inOrderAll : List (Expr ν) → List (Token ν)
  | [] => []
  | e :: es => e.inOrder ++ inOrderAll es

end

end Expr

/-- A token after which an operand may be complete. -/
def Token.endsOperand : Token ν → Bool
  | .number _ | .name _ | .mark .closing | .mark .bang | .mark .percent => true
  | .mark _ => false

/-- Whether a product without a sign is meant between a token and those after it: it ends an operand
and they begin another one. A name before a parenthesis is called, and a percent sign before an
operand is the remainder operator. -/
def Token.multiplies : Token ν → List (Token ν) → Bool
  | .name _, rest => Parse.startsOperand rest && !opens rest
  | .mark .percent, _ => false
  | t, rest => t.endsOperand && Parse.startsOperand rest

def withProducts : List (Token ν) → List (Token ν)
  | [] => []
  | t :: rest =>
    if t.multiplies rest then t :: .mark .star :: withProducts rest else t :: withProducts rest

/-- What is left of some tokens without parentheses, commas and signs of no effect. A plus has none
where no operand has ended before it. -/
def content (ended : Bool) : List (Token ν) → List (Token ν)
  | [] => []
  | .mark .opening :: rest | .mark .comma :: rest => content false rest
  | .mark .closing :: rest => content true rest
  | .mark .root :: rest => .name "sqrt" :: content false rest
  | .mark .plus :: rest => if ended then .mark .plus :: content false rest else content false rest
  | t :: rest => t :: content t.endsOperand rest

/-! A phrase is followed by whatever follows it, with the sign of a product if an operand does. -/

namespace Grammar

def contentAfter (rest : List (Token ν)) : List (Token ν) :=
  if startsOperand rest then .mark .star :: content false (withProducts rest)
  else content true (withProducts rest)

section

variable {rest : List (Token ν)} {m : Mark}

theorem withProducts_mark (alone : (Token.mark m : Token ν).multiplies rest = false) :
    withProducts (.mark m :: rest) = .mark m :: withProducts rest := by
  rw [withProducts, alone]
  rfl

theorem withProducts_of_multiplies (t : Token ν) (rest : List (Token ν))
    (h : t.multiplies rest = startsOperand rest) :
    ∃ tail, withProducts (t :: rest) = t :: tail ∧ content true tail = contentAfter rest := by
  rw [withProducts, h, contentAfter]
  cases startsOperand rest with
  | true => exact ⟨_, rfl, rfl⟩
  | false => exact ⟨_, rfl, rfl⟩

/-- What begins with an operand does not begin with a plus. -/
theorem content_of_startsOperand (starts : startsOperand rest = true) :
    content true (withProducts rest) = content false (withProducts rest) := by
  rcases rest with _ | ⟨x | s | m, rest⟩
  case nil => rfl
  case cons.mark => cases m <;> cases starts <;> rw [withProducts_mark rfl] <;> rfl
  all_goals
    rw [withProducts]
    split <;> rfl

theorem content_number (x : ν) (rest : List (Token ν)) :
    content false (withProducts (.number x :: rest)) = .number x :: contentAfter rest := by
  obtain ⟨tail, products, after⟩ := withProducts_of_multiplies (.number x) rest rfl
  rw [products, ← after]
  rfl

theorem content_name (s : String) (notCalled : opens rest = false) :
    content false (withProducts (.name s :: rest)) = .name s :: contentAfter rest := by
  have multiplies : (Token.name s).multiplies rest = startsOperand rest := by
    rw [Token.multiplies, notCalled, Bool.not_false, Bool.and_true]
  obtain ⟨tail, products, after⟩ := withProducts_of_multiplies _ _ multiplies
  rw [products, ← after]
  rfl

theorem content_call (s : String) (rest : List (Token ν)) :
    content false (withProducts (.name s :: .mark .opening :: rest)) =
      .name s :: content false (withProducts rest) := by
  rw [withProducts, withProducts_mark rfl]
  rfl

theorem content_closing (ended : Bool) (rest : List (Token ν)) :
    content ended (withProducts (.mark .closing :: rest)) = contentAfter rest := by
  obtain ⟨tail, products, after⟩ := withProducts_of_multiplies (.mark .closing) rest rfl
  rw [products, ← after]
  rfl

theorem content_minus (rest : List (Token ν)) :
    content false (withProducts (.mark .minus :: rest)) =
      .mark .minus :: content false (withProducts rest) := by
  rw [withProducts_mark rfl]
  rfl

theorem content_plus (rest : List (Token ν)) :
    content false (withProducts (.mark .plus :: rest)) = content false (withProducts rest) := by
  rw [withProducts_mark rfl]
  rfl

theorem content_opening (rest : List (Token ν)) :
    content false (withProducts (.mark .opening :: rest)) = content false (withProducts rest) := by
  rw [withProducts_mark rfl]
  rfl

theorem content_root (rest : List (Token ν)) :
    content false (withProducts (.mark .root :: rest)) =
      .name "sqrt" :: content false (withProducts rest) := by
  rw [withProducts_mark rfl]
  rfl

/-! What follows a phrase may go on with it. -/

theorem contentAfter_operator (op : BinaryOp) (remainder : op = .rem → startsOperand rest = true) :
    contentAfter (.mark op.mark :: rest) =
      .mark op.mark :: content false (withProducts rest) := by
  cases op with
  | rem =>
    rw [BinaryOp.mark, contentAfter, withProducts_mark rfl,
      ← content_of_startsOperand (remainder rfl)]
    rfl
  | _ =>
    rw [BinaryOp.mark, contentAfter, withProducts_mark rfl]
    rfl

theorem contentAfter_bang (rest : List (Token ν)) :
    contentAfter (.mark .bang :: rest) = .mark .bang :: contentAfter rest := by
  obtain ⟨tail, products, after⟩ := withProducts_of_multiplies (.mark .bang) rest rfl
  rw [contentAfter, products, ← after]
  rfl

theorem contentAfter_percent (noOperand : startsOperand rest = false) :
    contentAfter (.mark .percent :: rest) = .mark .percent :: contentAfter rest := by
  rw [contentAfter, withProducts_mark rfl, contentAfter, noOperand]
  rfl

theorem contentAfter_comma (rest : List (Token ν)) :
    contentAfter (.mark .comma :: rest) = content false (withProducts rest) := by
  rw [contentAfter, withProducts_mark rfl]
  rfl

theorem contentAfter_closing (rest : List (Token ν)) :
    contentAfter (.mark .closing :: rest) = contentAfter rest :=
  content_closing true rest

end

/-- Some tokens have a reading at their front, and `rest` after it. -/
def Keeps (ts reading rest : List (Token ν)) : Prop :=
  content false (withProducts ts) = reading ++ contentAfter rest

theorem Keeps.binary {ts mid rest : List (Token ν)} {l r : Expr ν} {sign : Char} (op : BinaryOp)
    (known : BinaryOp.ofSign? sign = some op) (left : Keeps ts l.inOrder (.mark op.mark :: mid))
    (remainder : op = .rem → startsOperand mid = true) (right : Keeps mid r.inOrder rest) :
    Keeps ts (Expr.binary l sign r).inOrder rest := by
  rw [Keeps, left, contentAfter_operator op remainder, right]
  simp [Expr.inOrder, known]

mutual

theorem IsSum.keeps {ts rest : List (Token ν)} {e : Expr ν} :
    IsSum ts e rest → Keeps ts e.inOrder rest
  | .product h => h.keeps
  | .plus before next => before.keeps.binary .add rfl nofun next.keeps
  | .minus before next => before.keeps.binary .sub rfl nofun next.keeps

theorem IsProduct.keeps {ts rest : List (Token ν)} {e : Expr ν} :
    IsProduct ts e rest → Keeps ts e.inOrder rest
  | .signed h => h.keeps
  | .star before next => before.keeps.binary .mul rfl nofun next.keeps
  | .slash before next => before.keeps.binary .div rfl nofun next.keeps
  | .percent before starts next => before.keeps.binary .rem rfl (fun _ => starts) next.keeps
  | .juxtaposed before starts next => by
    rw [Keeps, before.keeps, contentAfter, if_pos starts, next.keeps, Expr.inOrder]
    simp [BinaryOp.ofSign?, BinaryOp.mark]

theorem IsSigned.keeps {ts rest : List (Token ν)} {e : Expr ν} :
    IsSigned ts e rest → Keeps ts e.inOrder rest
  | .minus h => by
    rw [Keeps, content_minus, h.keeps]
    rfl
  | .plus h => by
    rw [Keeps, content_plus, h.keeps]
  | .power h => h.keeps

theorem IsPower.keeps {ts rest : List (Token ν)} {e : Expr ν} :
    IsPower ts e rest → Keeps ts e.inOrder rest
  | .operand h => h.keeps
  | .caret base exponent => base.keeps.binary .pow rfl nofun exponent.keeps

theorem IsOperand.keeps {ts rest : List (Token ν)} {e : Expr ν} :
    IsOperand ts e rest → Keeps ts e.inOrder rest
  | .marked h _ => h.keeps

theorem IsMarked.keeps {ts rest : List (Token ν)} {e : Expr ν} :
    IsMarked ts e rest → Keeps ts e.inOrder rest
  | .atom h => h.keeps
  | .bang h => by
    rw [Keeps, h.keeps, contentAfter_bang, Expr.inOrder]
    simp [UnaryOp.ofSign?, UnaryOp.mark]
  | .percent h noOperand => by
    rw [Keeps, h.keeps, contentAfter_percent noOperand, Expr.inOrder]
    simp [UnaryOp.ofSign?, UnaryOp.mark]

theorem IsAtom.keeps {ts rest : List (Token ν)} {e : Expr ν} :
    IsAtom ts e rest → Keeps ts e.inOrder rest
  | .number => content_number _ _
  | .name notCalled => content_name _ notCalled
  | .call h => by
    rw [Keeps, content_call, h.keeps]
    rfl
  | .group h => by
    rw [Keeps, content_opening, h.keeps, contentAfter_closing]
  | .root h => by
    rw [Keeps, content_root, h.keeps]
    simp [Expr.inOrder, Expr.inOrderAll]

theorem IsArguments.keeps {ts rest : List (Token ν)} {es : List (Expr ν)} :
    IsArguments ts es rest → Keeps ts (Expr.inOrderAll es) rest
  | .none => content_closing _ _
  | .some h => by
    rw [Keeps, h.keeps, contentAfter_closing]

theorem IsSums.keeps {ts rest : List (Token ν)} {es : List (Expr ν)} :
    IsSums ts es rest → Keeps ts (Expr.inOrderAll es) rest
  | .one h => by
    rw [Keeps, h.keeps]
    simp [Expr.inOrderAll]
  | .more h others => by
    rw [Keeps, h.keeps, contentAfter_comma, others.keeps, Expr.inOrderAll, List.append_assoc]

end

end Grammar

/-- The numbers, names and operators of an accepted tree are those of its tokens, in their order. The
tokens may lack the sign of a product, where one operand stands right after another. -/
theorem inOrder_of_parse {ts : List (Token ν)} {e : Expr ν} (accepted : parse ts = .ok e) :
    e.inOrder = content false (withProducts ts) := by
  have kept : content false (withProducts ts) = e.inOrder ++ contentAfter [] :=
    (parse_eq_ok_iff_isSum.mp accepted).keeps
  have ended : contentAfter ([] : List (Token ν)) = [] := rfl
  rw [kept, ended, List.append_nil]

/-- Two factors without a sign after a call with a root, a remainder, and signs of no effect. -/
theorem inOrder_of_parse_remainderOfCall :
    let tokens : List (Token Nat) :=
      [.number 2, .name "f", .mark .opening, .mark .plus, .number 1, .mark .comma, .mark .root,
        .number 4, .name "y", .mark .closing, .mark .bang, .mark .percent, .mark .opening,
        .number 3, .mark .plus, .mark .plus, .name "x", .mark .closing, .name "z"]
    let tree : Expr Nat :=
      .binary
        (.binary
          (.binary (.number 2) '*'
            (.unary '!'
              (.call "f" [.number 1, .binary (.call "sqrt" [.number 4]) '*' (.name "y")])))
          '%' (.binary (.number 3) '+' (.name "x")))
        '*' (.name "z")
    parse tokens = .ok tree ∧ tree.inOrder = content false (withProducts tokens) ∧
      content false (withProducts tokens) =
        [.number 2, .mark .star, .name "f", .number 1, .name "sqrt", .number 4, .mark .star,
          .name "y", .mark .bang, .mark .percent, .number 3, .mark .plus, .name "x", .mark .star,
          .name "z"] := by
  intro tokens tree
  have two : IsProduct tokens (.number 2) (tokens.drop 1) := (IsAtom.number.isPower rfl).isProduct
  have first : IsSum (tokens.drop 3) (.number 1) (tokens.drop 5) :=
    .product (.signed (.plus (.power (IsAtom.number.isPower rfl))))
  have root : IsAtom (tokens.drop 6) (.call "sqrt" [.number 4]) (tokens.drop 8) :=
    .root (.marked (.atom .number) rfl)
  have second : IsSum (tokens.drop 6) (.binary (.call "sqrt" [.number 4]) '*' (.name "y"))
      (tokens.drop 9) :=
    .product (.juxtaposed (root.isPower rfl).isProduct rfl ((IsAtom.name rfl).isPower rfl))
  have call : IsAtom (tokens.drop 1)
      (.call "f" [.number 1, .binary (.call "sqrt" [.number 4]) '*' (.name "y")])
      (tokens.drop 10) :=
    .call (.some (.more first (.one second)))
  have divisor : IsAtom (tokens.drop 12) (.binary (.number 3) '+' (.name "x")) (tokens.drop 18) :=
    .group (.plus (IsAtom.number.isPower rfl).isSum
      (.signed (.plus (.power ((IsAtom.name rfl).isPower rfl)))))
  have remainder := IsProduct.percent
    (.juxtaposed two rfl (.operand (.marked (.bang (.atom call)) rfl))) rfl
    (.power (divisor.isPower rfl))
  have accepted : parse tokens = .ok tree := parse_eq_ok_iff_isSum.mpr
    (.product (.juxtaposed remainder rfl ((IsAtom.name rfl).isPower rfl)))
  exact ⟨accepted, inOrder_of_parse accepted, rfl⟩

end Reckoner
