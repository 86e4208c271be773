import Reckoner.Proofs.Parse.Grammar
import Reckoner.Proofs.Result

/-! The levels of the notation by what they answer: a tree and the tokens after it. The proof that
every level carries, that it leaves fewer tokens than it found, is set apart here as one fact, and
each level gets one equation over the answers of the others. -/
namespace Reckoner.Parse

open Grammar (opens)

variable {ν α : Type}

def outcome {p : List (Token ν) → Prop} (r : Except ReadFault (α × { rest // p rest })) :
    Except ReadFault (α × List (Token ν)) :=
  r.map fun (a, rest) => (a, rest.1)

/-- The tokens left by a level have the size that the level promises. -/
theorem outcome_bound {p : List (Token ν) → Prop} {r : Except ReadFault (α × { rest // p rest })}
    {a : α} {rest : List (Token ν)} (h : outcome r = .ok (a, rest)) : p rest := by
  rcases r with f | ⟨b, rest', bound⟩
  · cases h
  · cases h
    exact bound

def closed : List (Token ν) → Except ReadFault (List (Token ν))
  | .mark .closing :: rest => .ok rest
  | ts => .error (.unclosed (upcoming ts))

theorem closed_eq_ok_iff {ts rest : List (Token ν)} :
    closed ts = .ok rest ↔ ts = .mark .closing :: rest := by
  constructor
  · intro h
    unfold closed at h
    split at h <;> cases h
    rfl
  · rintro rfl
    rfl

theorem opens_eq_true_iff {ts : List (Token ν)} :
    opens ts = true ↔ ∃ ts', ts = .mark .opening :: ts' := by
  constructor
  · intro h
    unfold opens at h
    split at h
    · exact ⟨_, rfl⟩
    · cases h
  · rintro ⟨ts', rfl⟩
    rfl

theorem outcome_sum (ts : List (Token ν)) :
    outcome (sum ts) = (do
      let (left, rest) ← outcome (product ts)
      outcome (sumRest left rest)) := by
  rw [sum]
  rcases product ts with f | ⟨left, rest, _⟩
  · rfl
  · simp only [outcome, Except.map, ok_bind]
    rcases sumRest left rest with f | ⟨e, rest', _⟩ <;> rfl

theorem outcome_sumRest_nil (left : Expr ν) : outcome (sumRest left []) = .ok (left, []) := by
  rw [sumRest]
  rfl

theorem outcome_sumRest_cons (left : Expr ν) (t : Token ν) (rest : List (Token ν)) :
    outcome (sumRest left (t :: rest)) =
      match additive? t with
      | some sign => do
        let (right, rest') ← outcome (product rest)
        outcome (sumRest (.binary left sign right) rest')
      | none => .ok (left, t :: rest) := by
  rw [sumRest]
  cases additive? t with
  | none => rfl
  | some sign =>
    rcases product rest with f | ⟨right, rest', _⟩
    · rfl
    · simp only [outcome, Except.map, ok_bind]
      rcases sumRest (.binary left sign right) rest' with f | ⟨e, rest'', _⟩ <;> rfl

theorem outcome_product (ts : List (Token ν)) :
    outcome (product ts) = (do
      let (left, rest) ← outcome (signed ts)
      outcome (productRest left rest)) := by
  rw [product]
  rcases signed ts with f | ⟨left, rest, _⟩
  · rfl
  · simp only [outcome, Except.map, ok_bind]
    rcases productRest left rest with f | ⟨e, rest', _⟩ <;> rfl

theorem outcome_productRest_nil (left : Expr ν) :
    outcome (productRest left []) = .ok (left, []) := by
  rw [productRest]
  rfl

theorem outcome_productRest_cons (left : Expr ν) (t : Token ν) (rest : List (Token ν)) :
    outcome (productRest left (t :: rest)) =
      match multiplicative? t with
      | some sign => do
        let (right, rest') ← outcome (signed rest)
        outcome (productRest (.binary left sign right) rest')
      | none =>
        if t.startsOperand then do
          let (right, rest') ← outcome (power (t :: rest))
          outcome (productRest (.binary left '*' right) rest')
        else .ok (left, t :: rest) := by
  rw [productRest]
  cases multiplicative? t with
  | some sign =>
    rcases signed rest with f | ⟨right, rest', _⟩
    · rfl
    · simp only [outcome, Except.map, ok_bind]
      rcases productRest (.binary left sign right) rest' with f | ⟨e, rest'', _⟩ <;> rfl
  | none =>
    cases t.startsOperand with
    | false => rfl
    | true =>
      simp only [if_true]
      rcases power (t :: rest) with f | ⟨right, rest', _⟩
      · rfl
      · simp only [outcome, Except.map, ok_bind]
        rcases productRest (.binary left '*' right) rest' with f | ⟨e, rest'', _⟩ <;> rfl

theorem outcome_signed_minus (ts : List (Token ν)) :
    outcome (signed (.mark .minus :: ts)) = (do
      let (e, rest) ← outcome (signed ts)
      .ok (.unary '-' e, rest)) := by
  rw [signed]
  rcases signed ts with f | ⟨e, rest, _⟩ <;> rfl

theorem outcome_signed_plus (ts : List (Token ν)) :
    outcome (signed (.mark .plus :: ts)) = outcome (signed ts) := by
  rw [signed]
  rcases signed ts with f | ⟨e, rest, _⟩ <;> rfl

theorem outcome_signed_mark {m : Mark} (ts : List (Token ν)) (notMinus : m ≠ .minus)
    (notPlus : m ≠ .plus) :
    outcome (signed (.mark m :: ts)) = outcome (power (.mark m :: ts)) := by
  rw [signed]
  · rintro rest h
    cases h
    exact notMinus rfl
  · rintro rest h
    cases h
    exact notPlus rfl

theorem outcome_signed_of_startsOperand {ts : List (Token ν)} (h : startsOperand ts = true) :
    outcome (signed ts) = outcome (power ts) := by
  rw [signed]
  · rintro rest rfl
    cases h
  · rintro rest rfl
    cases h

theorem outcome_signed_nil :
    outcome (signed ([] : List (Token ν))) = outcome (power ([] : List (Token ν))) := by
  rw [signed]
  · intro rest h
    cases h
  · intro rest h
    cases h

theorem signed_cases (ts : List (Token ν)) :
    (∃ ts', ts = .mark .minus :: ts') ∨ (∃ ts', ts = .mark .plus :: ts') ∨
      outcome (signed ts) = outcome (power ts) := by
  rcases ts with _ | ⟨x | s | m, ts⟩
  · exact .inr (.inr outcome_signed_nil)
  · exact .inr (.inr (outcome_signed_of_startsOperand rfl))
  · exact .inr (.inr (outcome_signed_of_startsOperand rfl))
  · by_cases minus : m = .minus
    · exact .inl ⟨ts, by rw [minus]⟩
    by_cases plus : m = .plus
    · exact .inr (.inl ⟨ts, by rw [plus]⟩)
    exact .inr (.inr (outcome_signed_mark ts minus plus))

def raised (base : Expr ν) : List (Token ν) → Except ReadFault (Expr ν × List (Token ν))
  | .mark .caret :: rest => do
    let (exponent, rest') ← outcome (signed rest)
    .ok (.binary base '^' exponent, rest')
  | rest => .ok (base, rest)

theorem outcome_power (ts : List (Token ν)) :
    outcome (power ts) = (do
      let (base, rest) ← outcome (operand ts)
      raised base rest) := by
  rw [power]
  rcases operand ts with f | ⟨base, _ | ⟨x | s | m, rest⟩, _⟩
  case ok.cons.mark =>
    cases m
    case caret =>
      simp only [outcome, Except.map, ok_bind, raised]
      rcases signed rest with f | ⟨exponent, rest', _⟩ <;> rfl
    all_goals rfl
  all_goals rfl

theorem outcome_operand (ts : List (Token ν)) :
    outcome (operand ts) = (do
      let (e, rest) ← outcome (atom ts)
      .ok (marked e rest)) := by
  rw [operand]
  rcases atom ts with f | ⟨e, rest, _⟩ <;> rfl

theorem outcome_atom_nil : outcome (atom ([] : List (Token ν))) = .error (.unexpected none) := by
  rw [atom]
  rfl

theorem outcome_atom_number (x : ν) (ts : List (Token ν)) :
    outcome (atom (.number x :: ts)) = .ok (.number x, ts) := by
  rw [atom]
  rfl

theorem outcome_atom_name (s : String) {ts : List (Token ν)} (h : opens ts = false) :
    outcome (atom (.name s :: ts)) = .ok (.name s, ts) := by
  rw [atom]
  · rfl
  · rintro rest rfl
    cases h

theorem outcome_atom_call (s : String) (ts : List (Token ν)) :
    outcome (atom (.name s :: .mark .opening :: ts)) = (do
      let (es, rest) ← outcome (arguments ts)
      .ok (.call s es, rest)) := by
  rw [atom]
  rcases arguments ts with f | ⟨es, rest, _⟩ <;> rfl

theorem outcome_atom_group (ts : List (Token ν)) :
    outcome (atom (.mark .opening :: ts)) = (do
      let (e, rest) ← outcome (sum ts)
      let rest' ← closed rest
      .ok (e, rest')) := by
  rw [atom]
  rcases sum ts with f | ⟨e, _ | ⟨x | s | m, rest⟩, _⟩
  case ok.cons.mark => cases m <;> rfl
  all_goals rfl

theorem outcome_atom_root (ts : List (Token ν)) :
    outcome (atom (.mark .root :: ts)) = (do
      let (e, rest) ← outcome (operand ts)
      .ok (.call "sqrt" [e], rest)) := by
  rw [atom]
  rcases operand ts with f | ⟨e, rest, _⟩ <;> rfl

theorem outcome_atom_mark {m : Mark} (ts : List (Token ν)) (notOpening : m ≠ .opening)
    (notRoot : m ≠ .root) :
    outcome (atom (.mark m :: ts)) = .error (.unexpected (some m)) := by
  rw [atom]
  · rfl
  · exact notOpening
  · exact notRoot

theorem outcome_arguments_closing (ts : List (Token ν)) :
    outcome (arguments (.mark .closing :: ts)) = .ok ([], ts) := by
  rw [arguments]
  rfl

theorem outcome_arguments_of_ne {ts : List (Token ν)} (h : ∀ ts', ts ≠ .mark .closing :: ts') :
    outcome (arguments ts) = outcome (someArguments ts) := by
  rw [arguments]
  exact h

theorem arguments_cases (ts : List (Token ν)) :
    (∃ ts', ts = .mark .closing :: ts') ∨ outcome (arguments ts) = outcome (someArguments ts) := by
  by_cases empty : ∃ ts', ts = .mark .closing :: ts'
  · exact .inl empty
  · exact .inr (outcome_arguments_of_ne (not_exists.mp empty))

def listed (e : Expr ν) :
    List (Token ν) → Except ReadFault (List (Expr ν) × List (Token ν))
  | .mark .comma :: rest => do
    let (es, rest') ← outcome (someArguments rest)
    .ok (e :: es, rest')
  | rest => do
    let rest' ← closed rest
    .ok ([e], rest')

theorem outcome_someArguments (ts : List (Token ν)) :
    outcome (someArguments ts) = (do
      let (e, rest) ← outcome (sum ts)
      listed e rest) := by
  rw [someArguments]
  rcases sum ts with f | ⟨e, _ | ⟨x | s | m, rest⟩, _⟩
  case ok.cons.mark =>
    cases m
    case comma =>
      simp only [outcome, Except.map, ok_bind, listed]
      rcases someArguments rest with f | ⟨es, rest', _⟩ <;> rfl
    all_goals rfl
  all_goals rfl

theorem listed_of_ne {ts : List (Token ν)} (h : ∀ ts', ts ≠ .mark .comma :: ts') (e : Expr ν) :
    listed e ts = (do
      let rest ← closed ts
      .ok ([e], rest)) := by
  unfold listed
  split
  · exact absurd rfl (h _)
  · rfl

theorem listed_cases (e : Expr ν) (ts : List (Token ν)) :
    (∃ ts', ts = .mark .comma :: ts') ∨
    listed e ts = (do
      let rest ← closed ts
      .ok ([e], rest)) := by
  by_cases comma : ∃ ts', ts = .mark .comma :: ts'
  · exact .inl comma
  · exact .inr (listed_of_ne (not_exists.mp comma) e)

end Reckoner.Parse
