import Reckoner.Proofs.Parse.Soundness

/-! The levels of the notation read exactly its grammar. What they read is in it; in the other
direction a derivation goes from left to right as the levels do, so a level that has read the front
of a phrase goes on with the rest, and a loop that stands at the end of a phrase ends there. -/
namespace Reckoner.Parse

open Grammar

variable {ν : Type}

theorem grip_of_startsOperand {ts : List (Token ν)} (h : startsOperand ts = true) :
    grip ts = 2 := by
  rcases ts with _ | ⟨x | s | m, rest⟩
  case nil => cases h
  case cons.mark => cases m <;> simp_all [startsOperand, Token.startsOperand, grip]
  all_goals rfl

theorem sumRest_of_grip {ts : List (Token ν)} (stop : grip ts = 0) (e : Expr ν) :
    outcome (sumRest e ts) = .ok (e, ts) := by
  rcases ts with _ | ⟨x | s | m, rest⟩
  case nil => exact outcome_sumRest_nil e
  case cons.mark =>
    rw [outcome_sumRest_cons]
    cases m <;> simp_all [additive?, grip]
  all_goals cases stop

theorem productRest_of_grip {ts : List (Token ν)} (stop : grip ts ≤ 1) (e : Expr ν) :
    outcome (productRest e ts) = .ok (e, ts) := by
  rcases ts with _ | ⟨x | s | m, rest⟩
  case nil => exact outcome_productRest_nil e
  case cons.mark =>
    rw [outcome_productRest_cons]
    cases m
    case percent =>
      simp only [grip] at stop
      split at stop <;> omega
    all_goals simp_all [multiplicative?, grip, Token.startsOperand]
  all_goals simp [grip] at stop

theorem productRest_juxtaposed {ts : List (Token ν)} (starts : startsOperand ts = true)
    (e : Expr ν) :
    outcome (productRest e ts) = (do
      let (right, rest) ← outcome (power ts)
      outcome (productRest (.binary e '*' right) rest)) := by
  rcases ts with _ | ⟨x | s | m, rest⟩
  case nil => cases starts
  case cons.mark =>
    rw [outcome_productRest_cons]
    cases m <;> simp_all [startsOperand, Token.startsOperand, multiplicative?]
  all_goals exact outcome_productRest_cons _ _ _

theorem raised_of_grip {ts : List (Token ν)} (stop : grip ts ≤ 2) (base : Expr ν) :
    raised base ts = .ok (base, ts) := by
  rcases raised_cases base ts with ⟨ts', rfl, _⟩ | ⟨_, alone⟩
  · simp [grip] at stop
  · exact alone

theorem startsOperand_of_isAtom {ts rest : List (Token ν)} {e : Expr ν} (h : IsAtom ts e rest) :
    startsOperand ts = true := by
  cases h <;> rfl

theorem startsOperand_of_isMarked {ts rest : List (Token ν)} {e : Expr ν} :
    IsMarked ts e rest → startsOperand ts = true
  | .atom h => startsOperand_of_isAtom h
  | .bang h => startsOperand_of_isMarked h
  | .percent h _ => startsOperand_of_isMarked h

theorem startsOperand_of_isPower {ts rest : List (Token ν)} {e : Expr ν} :
    IsPower ts e rest → startsOperand ts = true
  | .operand (.marked h _) => startsOperand_of_isMarked h
  | .caret (.marked h _) _ => startsOperand_of_isMarked h

theorem not_isProduct_closing {ts rest : List (Token ν)} {e : Expr ν} :
    ¬ IsProduct (.mark .closing :: ts) e rest
  | .signed (.power h) => nomatch startsOperand_of_isPower h
  | .star before _ => not_isProduct_closing before
  | .slash before _ => not_isProduct_closing before
  | .percent before _ _ => not_isProduct_closing before
  | .juxtaposed before _ _ => not_isProduct_closing before

theorem not_isSum_closing {ts rest : List (Token ν)} {e : Expr ν} :
    ¬ IsSum (.mark .closing :: ts) e rest
  | .product h => not_isProduct_closing h
  | .plus before _ => not_isSum_closing before
  | .minus before _ => not_isSum_closing before

theorem arguments_of_isSums {ts stop : List (Token ν)} {es : List (Expr ν)}
    (h : IsSums ts es stop) : outcome (arguments ts) = outcome (someArguments ts) := by
  rcases arguments_cases ts with ⟨ts', rfl⟩ | notEmpty
  · cases h with
    | one h => exact absurd h not_isSum_closing
    | more h _ => exact absurd h not_isSum_closing
  · exact notEmpty

mutual

theorem sum_of_isSum {ts rest : List (Token ν)} {e : Expr ν} :
    IsSum ts e rest → grip rest ≤ 1 → outcome (sum ts) = outcome (sumRest e rest)
  | .product h, stop => by
    rw [outcome_sum, product_of_isProduct h (Nat.le_succ_of_le stop), productRest_of_grip stop]
    rfl
  | .plus before next, stop => by
    rw [sum_of_isSum before (Nat.le_refl _), outcome_sumRest_cons]
    simp only [additive?]
    rw [product_of_isProduct next (Nat.le_succ_of_le stop), productRest_of_grip stop]
    rfl
  | .minus before next, stop => by
    rw [sum_of_isSum before (Nat.le_refl _), outcome_sumRest_cons]
    simp only [additive?]
    rw [product_of_isProduct next (Nat.le_succ_of_le stop), productRest_of_grip stop]
    rfl

theorem product_of_isProduct {ts rest : List (Token ν)} {e : Expr ν} :
    IsProduct ts e rest → grip rest ≤ 2 → outcome (product ts) = outcome (productRest e rest)
  | .signed h, stop => by
    rw [outcome_product, signed_of_isSigned h stop]
    rfl
  | .star before next, stop => by
    rw [product_of_isProduct before (Nat.le_refl _), outcome_productRest_cons]
    simp only [multiplicative?]
    rw [signed_of_isSigned next stop]
    rfl
  | .slash before next, stop => by
    rw [product_of_isProduct before (Nat.le_refl _), outcome_productRest_cons]
    simp only [multiplicative?]
    rw [signed_of_isSigned next stop]
    rfl
  | .percent before starts next, stop => by
    rw [product_of_isProduct before (by simp [grip, starts]), outcome_productRest_cons]
    simp only [multiplicative?]
    rw [signed_of_isSigned next stop]
    rfl
  | .juxtaposed before starts next, stop => by
    rw [product_of_isProduct before (Nat.le_of_eq (grip_of_startsOperand starts)),
      productRest_juxtaposed starts, power_of_isPower next stop]
    rfl

theorem signed_of_isSigned {ts rest : List (Token ν)} {e : Expr ν} :
    IsSigned ts e rest → grip rest ≤ 2 → outcome (signed ts) = .ok (e, rest)
  | .minus h, stop => by
    rw [outcome_signed_minus, signed_of_isSigned h stop]
    rfl
  | .plus h, stop => by
    rw [outcome_signed_plus, signed_of_isSigned h stop]
  | .power h, stop => by
    rw [outcome_signed_of_startsOperand (startsOperand_of_isPower h), power_of_isPower h stop]

theorem power_of_isPower {ts rest : List (Token ν)} {e : Expr ν} :
    IsPower ts e rest → grip rest ≤ 2 → outcome (power ts) = .ok (e, rest)
  | .operand h, stop => by
    rw [outcome_power, operand_of_isOperand h, ok_bind]
    exact raised_of_grip stop e
  | .caret base exponent, stop => by
    rw [outcome_power, operand_of_isOperand base, ok_bind]
    simp only [raised]
    rw [signed_of_isSigned exponent stop]
    rfl

theorem operand_of_isOperand {ts rest : List (Token ν)} {e : Expr ν} :
    IsOperand ts e rest → outcome (operand ts) = .ok (e, rest)
  | .marked h noMark => by
    rw [operand_of_isMarked h, marked_eq_self ((markFollows_eq_false_iff rest).mp noMark)]

theorem operand_of_isMarked {ts rest : List (Token ν)} {e : Expr ν} :
    IsMarked ts e rest → outcome (operand ts) = .ok (marked e rest)
  | .atom h => by
    rw [outcome_operand, atom_of_isAtom h]
    rfl
  | .bang h => by
    rw [operand_of_isMarked h, marked]
  | .percent h noOperand => by
    rw [operand_of_isMarked h, marked, noOperand]
    rfl

theorem atom_of_isAtom {ts rest : List (Token ν)} {e : Expr ν} :
    IsAtom ts e rest → outcome (atom ts) = .ok (e, rest)
  | .number => outcome_atom_number _ _
  | .name notCalled => outcome_atom_name _ notCalled
  | .call h => by
    rw [outcome_atom_call, arguments_of_isArguments h]
    rfl
  | .group h => by
    rw [outcome_atom_group, sum_of_isSum h (Nat.zero_le _), sumRest_of_grip rfl]
    rfl
  | .root h => by
    rw [outcome_atom_root, operand_of_isOperand h]
    rfl

theorem arguments_of_isArguments {ts rest : List (Token ν)} {es : List (Expr ν)} :
    IsArguments ts es rest → outcome (arguments ts) = .ok (es, rest)
  | .none => outcome_arguments_closing _
  | .some h => by
    rw [arguments_of_isSums h]
    exact someArguments_of_isSums h rfl

theorem someArguments_of_isSums {ts rest stop : List (Token ν)} {es : List (Expr ν)} :
    IsSums ts es stop → stop = .mark .closing :: rest → outcome (someArguments ts) = .ok (es, rest)
  | .one h, closes => by
    have ended : grip stop = 0 := by rw [closes]; rfl
    rw [outcome_someArguments, sum_of_isSum h (ended ▸ Nat.zero_le 1), sumRest_of_grip ended, closes]
    rfl
  | .more h others, closes => by
    rw [outcome_someArguments, sum_of_isSum h (Nat.zero_le _), sumRest_of_grip rfl, ok_bind]
    simp only [listed]
    rw [someArguments_of_isSums others closes]
    rfl

end

/-- A sum is read to its end wherever nothing after it holds on to it. -/
theorem outcome_sum_eq_ok_iff {ts rest : List (Token ν)} {e : Expr ν} :
    outcome (sum ts) = .ok (e, rest) ↔ IsSum ts e rest ∧ grip rest = 0 := by
  constructor
  · exact sum_sound
  · rintro ⟨isSum, stop⟩
    rw [sum_of_isSum isSum (stop ▸ Nat.zero_le 1), sumRest_of_grip stop]

end Reckoner.Parse

namespace Reckoner

open Grammar Parse

variable {ν : Type}

theorem parse_eq (ts : List (Token ν)) (nonempty : ts ≠ []) :
    parse ts =
      match outcome (sum ts) with
      | .error f => .error (.read f)
      | .ok (e, []) => .ok e
      | .ok (_, t :: rest) => .error (.read (.unexpected (upcoming (t :: rest)))) := by
  unfold parse
  split
  · contradiction
  · rcases sum ts with f | ⟨e, _ | ⟨t, rest⟩, _⟩ <;> rfl

theorem parse_eq_ok_iff (ts : List (Token ν)) (e : Expr ν) :
    parse ts = .ok e ↔ outcome (sum ts) = .ok (e, []) := by
  by_cases empty : ts = []
  · subst empty
    constructor
    · intro h
      cases h
    · intro h
      exact absurd (outcome_bound h) (Nat.lt_irrefl _)
  · rw [parse_eq ts empty]
    constructor
    · intro h
      split at h <;> simp_all
    · intro h
      rw [h]

/-- A tree that is read is a sum from end to end. -/
theorem parse_eq_ok_iff_isSum {ts : List (Token ν)} {e : Expr ν} :
    parse ts = .ok e ↔ IsSum ts e [] := by
  rw [parse_eq_ok_iff, outcome_sum_eq_ok_iff]
  simp [grip]

/-- A list of tokens is accepted with a tree exactly if the tree derives it from end to end, and
refused exactly if no tree does. No list has two trees. -/
theorem parse_recognizes_grammar (ts : List (Token ν)) :
    (∀ e, parse ts = .ok e ↔ IsSum ts e []) ∧
      ((∃ error, parse ts = .error error) ↔ ∀ e, ¬ IsSum ts e []) ∧
      ∀ e e', IsSum ts e [] → IsSum ts e' [] → e = e' := by
  refine ⟨fun e => parse_eq_ok_iff_isSum, ?_, ?_⟩
  · simp only [← parse_eq_ok_iff_isSum]
    cases parse ts <;> simp
  · intro e e' h h'
    rw [← parse_eq_ok_iff_isSum] at h h'
    exact Except.ok.inj (h.symm.trans h')

example : parse [.number 2, .mark .caret, .mark .minus, .number 3, .mark .percent, .number 4] =
    .ok (.binary (.binary (.number 2) '^' (.unary '-' (.number 3))) '%' (.number 4)) := by
  cbv

example : parse [.number 5, .mark .percent, .mark .minus, .number 2] =
    .ok (.binary (.unary '%' (.number 5)) '-' (.number 2)) := by
  cbv

end Reckoner
