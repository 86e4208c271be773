import Reckoner.Proofs.Parse.Descent

/-! Reading with a position. The same levels, written as calls that move one position over fixed
tokens: nothing tells them how many tokens are left, so nothing but the tokens makes them end. The
number of calls that may stand inside each other is given. There is such a number for every list of
tokens, linear in their count, with which every level ends, accepting or not. -/
namespace Reckoner.Parse

variable {ν α β : Type}

/-- A step of reading. It moves the position, also when it ends with a fault, and it has no answer
at all when its calls are nested too deep. -/
abbrev Walk := ExceptT ReadFault (StateT Nat Option)

namespace Walk

def from? (step : Walk α) (position : Nat) : Option (Except ReadFault α × Nat) :=
  step.run.run position

/-- What a step comes to when no further call is allowed. -/
def exhausted : Walk α := ExceptT.mk fun _ => none

variable (ts : List (Token ν))

def peek : Walk (Option (Token ν)) := do
  let position ← get
  return ts[position]?

def consume : Walk (Option (Token ν)) := do
  let token ← peek ts
  if token.isSome then modify (· + 1)
  return token

def operandNext : Walk Bool := do
  let position ← get
  return startsOperand (ts.drop (position + 1))

def expectClosing : Walk Unit := do
  match ← consume ts with
  | some (.mark .closing) => return
  | token => throw (.unclosed (upcoming token.toList))

mutual

/-- The levels, with the number of calls that may still be opened inside each other. -/
def sum : Nat → Walk (Expr ν)
  | 0 => exhausted
  | n + 1 => do
    let left ← product n
    sumRest n left

def sumRest : Nat → Expr ν → Walk (Expr ν)
  | 0, _ => exhausted
  | n + 1, left => do
    match (← peek ts).bind additive? with
    | some sign =>
      let _ ← consume ts
      let right ← product n
      sumRest n (.binary left sign right)
    | none => return left

def product : Nat → Walk (Expr ν)
  | 0 => exhausted
  | n + 1 => do
    let left ← signed n
    productRest n left

def productRest : Nat → Expr ν → Walk (Expr ν)
  | 0, _ => exhausted
  | n + 1, left => do
    match ← peek ts with
    | some t =>
      match multiplicative? t with
      | some sign =>
        let _ ← consume ts
        let right ← signed n
        productRest n (.binary left sign right)
      | none =>
        if t.startsOperand then
          let right ← power n
          productRest n (.binary left '*' right)
        else return left
    | none => return left

def signed : Nat → Walk (Expr ν)
  | 0 => exhausted
  | n + 1 => do
    match ← peek ts with
    | some (.mark .minus) =>
      let _ ← consume ts
      let e ← signed n
      return .unary '-' e
    | some (.mark .plus) =>
      let _ ← consume ts
      signed n
    | _ => power n

def power : Nat → Walk (Expr ν)
  | 0 => exhausted
  | n + 1 => do
    let base ← operand n
    match ← peek ts with
    | some (.mark .caret) =>
      let _ ← consume ts
      let exponent ← signed n
      return .binary base '^' exponent
    | _ => return base

def operand : Nat → Walk (Expr ν)
  | 0 => exhausted
  | n + 1 => do
    let e ← atom n
    marks n e

def marks : Nat → Expr ν → Walk (Expr ν)
  | 0, _ => exhausted
  | n + 1, e => do
    match ← peek ts with
    | some (.mark .bang) =>
      let _ ← consume ts
      marks n (.unary '!' e)
    | some (.mark .percent) =>
      if ← operandNext ts then return e
      else
        let _ ← consume ts
        marks n (.unary '%' e)
    | _ => return e

def atom : Nat → Walk (Expr ν)
  | 0 => exhausted
  | n + 1 => do
    match ← consume ts with
    | some (.number x) => return .number x
    | some (.name s) =>
      match ← peek ts with
      | some (.mark .opening) =>
        let _ ← consume ts
        let es ← arguments n
        return .call s es
      | _ => return .name s
    | some (.mark .opening) =>
      let e ← sum n
      expectClosing ts
      return e
    | some (.mark .root) =>
      let e ← operand n
      return .call "sqrt" [e]
    | some (.mark m) => throw (.unexpected (some m))
    | none => throw (.unexpected none)

def arguments : Nat → Walk (List (Expr ν))
  | 0 => exhausted
  | n + 1 => do
    match ← peek ts with
    | some (.mark .closing) =>
      let _ ← consume ts
      return []
    | _ => sums n

def sums : Nat → Walk (List (Expr ν))
  | 0 => exhausted
  | n + 1 => do
    let e ← sum n
    match ← peek ts with
    | some (.mark .comma) =>
      let _ ← consume ts
      let es ← sums n
      return e :: es
    | _ =>
      expectClosing ts
      return [e]

end

/-! What a step does from a position. -/

theorem from?_bind (step : Walk α) (next : α → Walk β) (position : Nat) :
    (step >>= next).from? position =
      match step.from? position with
      | some (.ok a, position') => (next a).from? position'
      | some (.error f, position') => some (.error f, position')
      | none => none := by
  change (step position).bind (fun answer => ExceptT.bindCont next answer.1 answer.2) = _
  rcases h : step position with _ | ⟨f | a, position'⟩ <;>
    simp only [from?, ExceptT.run, StateT.run, h] <;> rfl

theorem from?_consume (position : Nat) :
    (consume ts).from? position =
      some (.ok ts[position]?, if ts[position]?.isSome then position + 1 else position) := by
  have seen : (peek ts).from? position = some (.ok ts[position]?, position) := rfl
  rw [consume, from?_bind, seen]
  cases ts[position]? <;> rfl

end Walk

structure At (ts : List (Token ν)) (position : Nat) (rest : List (Token ν)) : Prop where
  inside : position ≤ ts.length
  drop : ts.drop position = rest

section

variable {ts rest : List (Token ν)} {p : Nat}

theorem at_start (ts : List (Token ν)) : At ts 0 ts := ⟨Nat.zero_le _, rfl⟩

theorem At.length (here : At ts p rest) : p + rest.length = ts.length := by
  have inside := here.inside
  rw [← here.drop, List.length_drop]
  omega

theorem At.token (here : At ts p rest) : ts[p]? = rest.head? := by
  rw [← here.drop, List.head?_drop]

theorem At.next {t : Token ν} (here : At ts p (t :: rest)) : At ts (p + 1) rest where
  inside := by
    have length := here.length
    rw [List.length_cons] at length
    omega
  drop := by rw [← List.tail_drop, here.drop, List.tail_cons]

end

/-- A step from a position ends as reading from there ends: with the same answer or fault, where the
tokens that are left begin. Neither goes back, nor beyond the end. -/
def Follows (ts : List (Token ν)) (p : Nat) (step : Walk α) :
    Except ReadFault (α × List (Token ν)) → Prop
  | .ok (a, rest) => ∃ p', p ≤ p' ∧ At ts p' rest ∧ step.from? p = some (.ok a, p')
  | .error f => ∃ p', p ≤ p' ∧ p' ≤ ts.length ∧ step.from? p = some (.error f, p')

namespace Follows

variable {ts rest : List (Token ν)} {p : Nat} {t : Token ν}

/-- A step that comes to another one further on. -/
theorem of_eq {step : Walk α} {step' : Walk α} {p' : Nat}
    {answer : Except ReadFault (α × List (Token ν))} (forward : p ≤ p')
    (same : step.from? p = step'.from? p') (after : Follows ts p' step' answer) :
    Follows ts p step answer := by
  cases answer with
  | ok read =>
    obtain ⟨p'', forward', here, ends⟩ := after
    exact ⟨p'', Nat.le_trans forward forward', here, same.trans ends⟩
  | error f =>
    obtain ⟨p'', forward', inside, ends⟩ := after
    exact ⟨p'', Nat.le_trans forward forward', inside, same.trans ends⟩

/-- A step that moves on and tells something. -/
theorem after {step : Walk α} {a : α} {p' : Nat} {next : α → Walk β}
    {answer : Except ReadFault (β × List (Token ν))} (forward : p ≤ p')
    (ends : step.from? p = some (.ok a, p')) (further : Follows ts p' (next a) answer) :
    Follows ts p (step >>= next) answer := by
  refine of_eq forward ?_ further
  rw [Walk.from?_bind, ends]

theorem bind {step : Walk α} {next : α → Walk β} {answer : Except ReadFault (α × List (Token ν))}
    {further : α × List (Token ν) → Except ReadFault (β × List (Token ν))}
    (first : Follows ts p step answer)
    (second : ∀ a p' rest, answer = .ok (a, rest) → At ts p' rest →
      Follows ts p' (next a) (further (a, rest))) :
    Follows ts p (step >>= next) (answer >>= further) := by
  rcases answer with f | ⟨a, rest⟩
  · obtain ⟨p', forward, inside, ends⟩ := first
    exact ⟨p', forward, inside, by rw [Walk.from?_bind, ends]⟩
  · obtain ⟨p', forward, here, ends⟩ := first
    exact after forward ends (second a p' rest rfl here)

theorem peek {next : Option (Token ν) → Walk α} {answer : Except ReadFault (α × List (Token ν))}
    (here : At ts p rest) (further : Follows ts p (next rest.head?) answer) :
    Follows ts p (Walk.peek ts >>= next) answer :=
  after (Nat.le_refl p) rfl (here.token ▸ further)

theorem consume {next : Option (Token ν) → Walk α}
    {answer : Except ReadFault (α × List (Token ν))} (here : At ts p (t :: rest))
    (further : Follows ts (p + 1) (next (some t)) answer) :
    Follows ts p (Walk.consume ts >>= next) answer := by
  have token : ts[p]? = some t := here.token
  refine after (Nat.le_succ p) ?_ further
  rw [Walk.from?_consume, token]
  rfl

theorem consume_end {next : Option (Token ν) → Walk α}
    {answer : Except ReadFault (α × List (Token ν))} (here : At ts p [])
    (further : Follows ts p (next none) answer) :
    Follows ts p (Walk.consume ts >>= next) answer := by
  have token : ts[p]? = none := here.token
  refine after (Nat.le_refl p) ?_ further
  rw [Walk.from?_consume, token]
  rfl

theorem operandNext {next : Bool → Walk α} {answer : Except ReadFault (α × List (Token ν))}
    (here : At ts p (t :: rest)) (further : Follows ts p (next (startsOperand rest)) answer) :
    Follows ts p (Walk.operandNext ts >>= next) answer :=
  after (Nat.le_refl p) rfl (here.next.drop ▸ further)

theorem pure (here : At ts p rest) (a : α) : Follows ts p (Pure.pure a) (.ok (a, rest)) :=
  ⟨p, Nat.le_refl p, here, rfl⟩

theorem throw (here : At ts p rest) (f : ReadFault) :
    Follows ts p (MonadExcept.throw f : Walk α) (.error f) :=
  ⟨p, Nat.le_refl p, here.inside, rfl⟩

end Follows

end Reckoner.Parse
