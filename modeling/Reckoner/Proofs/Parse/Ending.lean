import Reckoner.Proofs.Parse.Walk

/-! The levels with a position end. A call goes to tokens that are fewer, or to a level that makes
fewer calls on the same tokens, so nine calls for each token are enough; and what the levels then
answer, and where, is what they answer without a position. -/
namespace Reckoner.Parse

variable {ν α : Type}

/-- Every level follows its reading of the tokens from the position, when some number of calls may be
opened inside each other. A token pays for nine of them, which is more than any level of the notation
makes before it passes a token. -/
structure FollowsWithin (ts : List (Token ν)) (n : Nat) : Prop where
  sum {p rest} : At ts p rest → 9 * rest.length + 6 < n →
    Follows ts p (Walk.sum ts n) (outcome (sum rest))
  sumRest {p rest left} : At ts p rest → 9 * rest.length < n →
    Follows ts p (Walk.sumRest ts n left) (outcome (sumRest left rest))
  product {p rest} : At ts p rest → 9 * rest.length + 5 < n →
    Follows ts p (Walk.product ts n) (outcome (product rest))
  productRest {p rest left} : At ts p rest → 9 * rest.length + 4 < n →
    Follows ts p (Walk.productRest ts n left) (outcome (productRest left rest))
  signed {p rest} : At ts p rest → 9 * rest.length + 4 < n →
    Follows ts p (Walk.signed ts n) (outcome (signed rest))
  power {p rest} : At ts p rest → 9 * rest.length + 3 < n →
    Follows ts p (Walk.power ts n) (outcome (power rest))
  operand {p rest} : At ts p rest → 9 * rest.length + 2 < n →
    Follows ts p (Walk.operand ts n) (outcome (operand rest))
  marks {p rest e} : At ts p rest → 9 * rest.length < n →
    Follows ts p (Walk.marks ts n e) (.ok (marked e rest))
  atom {p rest} : At ts p rest → 9 * rest.length + 1 < n →
    Follows ts p (Walk.atom ts n) (outcome (atom rest))
  arguments {p rest} : At ts p rest → 9 * rest.length + 8 < n →
    Follows ts p (Walk.arguments ts n) (outcome (arguments rest))
  sums {p rest} : At ts p rest → 9 * rest.length + 7 < n →
    Follows ts p (Walk.sums ts n) (outcome (someArguments rest))

section

variable {ts rest : List (Token ν)} {n p : Nat}

theorem expectClosing_follows (here : At ts p rest) :
    Follows ts p (Walk.expectClosing ts) ((closed rest).map (Prod.mk ())) := by
  rw [Walk.expectClosing]
  rcases rest with _ | ⟨x | s | m, rest⟩
  · exact .consume_end here (.throw here _)
  · exact .consume here (.throw here.next _)
  · exact .consume here (.throw here.next _)
  · refine .consume here ?_
    cases m
    case closing => exact .pure here.next ()
    all_goals exact .throw here.next _

/-- A closing parenthesis after which a step ends with what it has. -/
theorem closing_follows (here : At ts p rest) (a : α) :
    Follows ts p (do Walk.expectClosing ts; return a) (do
      let rest' ← closed rest
      .ok (a, rest')) := by
  have paired : (do let rest' ← closed rest; .ok (a, rest')) =
      ((closed rest).map (Prod.mk ()) >>= fun read => Except.ok (a, read.2)) := by
    cases closed rest <;> rfl
  rw [paired]
  exact (expectClosing_follows here).bind fun _ _ _ _ there => .pure there a

variable (ih : FollowsWithin ts n)

include ih

theorem sum_within (here : At ts p rest) (room : 9 * rest.length + 6 < n + 1) :
    Follows ts p (Walk.sum ts (n + 1)) (outcome (sum rest)) := by
  rw [Walk.sum, outcome_sum]
  refine (ih.product here (by omega)).bind fun left p' mid first there => ?_
  have shorter := outcome_bound first
  exact ih.sumRest there (by omega)

theorem sumRest_within {left : Expr ν} (here : At ts p rest) (room : 9 * rest.length < n + 1) :
    Follows ts p (Walk.sumRest ts (n + 1) left) (outcome (sumRest left rest)) := by
  rw [Walk.sumRest]
  refine .peek here ?_
  rcases rest with _ | ⟨t, rest⟩
  · rw [outcome_sumRest_nil]
    exact .pure here left
  rw [List.length_cons] at room
  rw [outcome_sumRest_cons, List.head?_cons, Option.bind_some]
  cases additive? t with
  | none => exact .pure here left
  | some sign =>
    refine .consume here ((ih.product here.next (by omega)).bind fun right p' mid next there => ?_)
    have shorter := outcome_bound next
    exact ih.sumRest there (by omega)

theorem product_within (here : At ts p rest) (room : 9 * rest.length + 5 < n + 1) :
    Follows ts p (Walk.product ts (n + 1)) (outcome (product rest)) := by
  rw [Walk.product, outcome_product]
  refine (ih.signed here (by omega)).bind fun left p' mid first there => ?_
  have shorter := outcome_bound first
  exact ih.productRest there (by omega)

theorem productRest_within {left : Expr ν} (here : At ts p rest)
    (room : 9 * rest.length + 4 < n + 1) :
    Follows ts p (Walk.productRest ts (n + 1) left) (outcome (productRest left rest)) := by
  rw [Walk.productRest]
  refine .peek here ?_
  rcases rest with _ | ⟨t, rest⟩
  · rw [outcome_productRest_nil]
    exact .pure here left
  rw [outcome_productRest_cons, List.head?_cons]
  dsimp only
  cases multiplicative? t with
  | some sign =>
    rw [List.length_cons] at room
    refine .consume here ((ih.signed here.next (by omega)).bind fun right p' mid next there => ?_)
    have shorter := outcome_bound next
    have room' : 9 * mid.length + 4 < n := by omega
    exact ih.productRest there room'
  | none =>
    cases starts : t.startsOperand with
    | false => exact .pure here left
    | true =>
      refine (ih.power here (by omega)).bind fun right p' mid next there => ?_
      have shorter := outcome_bound next
      have room' : 9 * mid.length + 4 < n := by omega
      exact ih.productRest there room'

theorem signed_within (here : At ts p rest) (room : 9 * rest.length + 4 < n + 1) :
    Follows ts p (Walk.signed ts (n + 1)) (outcome (signed rest)) := by
  rw [Walk.signed]
  refine .peek here ?_
  rcases rest with _ | ⟨x | s | m, rest⟩
  · rw [outcome_signed_nil]
    exact ih.power here (by omega)
  · rw [outcome_signed_of_startsOperand rfl]
    exact ih.power here (by omega)
  · rw [outcome_signed_of_startsOperand rfl]
    exact ih.power here (by omega)
  · cases m
    case minus =>
      rw [List.length_cons] at room
      rw [outcome_signed_minus]
      exact .consume here ((ih.signed here.next (by omega)).bind fun e _ _ _ there =>
        .pure there _)
    case plus =>
      rw [List.length_cons] at room
      rw [outcome_signed_plus]
      exact .consume here (ih.signed here.next (by omega))
    all_goals
      rw [outcome_signed_mark rest (by decide) (by decide)]
      exact ih.power here (by omega)

theorem power_within (here : At ts p rest) (room : 9 * rest.length + 3 < n + 1) :
    Follows ts p (Walk.power ts (n + 1)) (outcome (power rest)) := by
  rw [Walk.power, outcome_power]
  refine (ih.operand here (by omega)).bind fun base p' mid first there => .peek there ?_
  have shorter := outcome_bound first
  rcases mid with _ | ⟨x | s | m, mid⟩
  case cons.mark =>
    cases m
    case caret =>
      rw [List.length_cons] at shorter
      exact .consume there ((ih.signed there.next (by omega)).bind fun exponent _ _ _ there =>
        .pure there _)
    all_goals exact .pure there base
  all_goals exact .pure there base

theorem operand_within (here : At ts p rest) (room : 9 * rest.length + 2 < n + 1) :
    Follows ts p (Walk.operand ts (n + 1)) (outcome (operand rest)) := by
  rw [Walk.operand, outcome_operand]
  refine (ih.atom here (by omega)).bind fun e p' mid first there => ?_
  have shorter := outcome_bound first
  exact ih.marks there (by omega)

theorem marks_within {e : Expr ν} (here : At ts p rest) (room : 9 * rest.length < n + 1) :
    Follows ts p (Walk.marks ts (n + 1) e) (.ok (marked e rest)) := by
  rw [Walk.marks]
  refine .peek here ?_
  rcases rest with _ | ⟨x | s | m, rest⟩
  case cons.mark =>
    rw [List.length_cons] at room
    cases m
    case bang => exact .consume here (ih.marks here.next (by omega))
    case percent =>
      refine .operandNext here ?_
      rw [marked]
      cases startsOperand rest with
      | true => exact .pure here e
      | false => exact .consume here (ih.marks here.next (by omega))
    all_goals exact .pure here e
  all_goals exact .pure here e

theorem atom_within (here : At ts p rest) (room : 9 * rest.length + 1 < n + 1) :
    Follows ts p (Walk.atom ts (n + 1)) (outcome (atom rest)) := by
  rw [Walk.atom]
  rcases rest with _ | ⟨x | s | m, rest⟩
  · rw [outcome_atom_nil]
    exact .consume_end here (.throw here _)
  all_goals
    rw [List.length_cons] at room
    refine .consume here ?_
  · rw [outcome_atom_number]
    exact .pure here.next _
  · refine .peek here.next ?_
    cases called : Grammar.opens rest
    · rw [outcome_atom_name s called]
      rcases rest with _ | ⟨x | s | m, rest⟩
      case cons.mark =>
        cases m
        case opening => cases called
        all_goals exact .pure here.next _
      all_goals exact .pure here.next _
    · obtain ⟨rest', rfl⟩ := opens_eq_true_iff.mp called
      rw [List.length_cons] at room
      rw [outcome_atom_call]
      exact .consume here.next ((ih.arguments here.next.next (by omega)).bind fun es _ _ _ there =>
        .pure there _)
  · by_cases opening : m = .opening
    · subst opening
      rw [outcome_atom_group]
      exact (ih.sum here.next (by omega)).bind fun e _ _ _ there => closing_follows there e
    by_cases root : m = .root
    · subst root
      rw [outcome_atom_root]
      exact (ih.operand here.next (by omega)).bind fun e _ _ _ there => .pure there _
    rw [outcome_atom_mark rest opening root]
    cases m
    case opening => exact absurd rfl opening
    case root => exact absurd rfl root
    all_goals exact .throw here.next _

theorem arguments_within (here : At ts p rest) (room : 9 * rest.length + 8 < n + 1) :
    Follows ts p (Walk.arguments ts (n + 1)) (outcome (arguments rest)) := by
  rw [Walk.arguments]
  refine .peek here ?_
  by_cases empty : ∃ rest', rest = .mark .closing :: rest'
  · obtain ⟨rest', rfl⟩ := empty
    rw [outcome_arguments_closing]
    exact .consume here (.pure here.next [])
  · rw [outcome_arguments_of_ne (not_exists.mp empty)]
    have inner := ih.sums here (by omega)
    rcases rest with _ | ⟨x | s | m, rest⟩
    case cons.mark =>
      cases m
      case closing => exact absurd ⟨rest, rfl⟩ empty
      all_goals exact inner
    all_goals exact inner

theorem sums_within (here : At ts p rest) (room : 9 * rest.length + 7 < n + 1) :
    Follows ts p (Walk.sums ts (n + 1)) (outcome (someArguments rest)) := by
  rw [Walk.sums, outcome_someArguments]
  refine (ih.sum here (by omega)).bind fun e p' mid first there => .peek there ?_
  have shorter := outcome_bound first
  rcases mid with _ | ⟨x | s | m, mid⟩
  case cons.mark =>
    cases m
    case comma =>
      rw [List.length_cons] at shorter
      exact .consume there ((ih.sums there.next (by omega)).bind fun es _ _ _ there =>
        .pure there _)
    all_goals exact closing_follows there [e]
  all_goals exact closing_follows there [e]

end

theorem followsWithin (ts : List (Token ν)) (n : Nat) : FollowsWithin ts n := by
  induction n with
  | zero => constructor <;> exact fun _ room => absurd room (Nat.not_lt_zero _)
  | succ n ih =>
    exact {
      sum := sum_within ih
      sumRest := sumRest_within ih
      product := product_within ih
      productRest := productRest_within ih
      signed := signed_within ih
      power := power_within ih
      operand := operand_within ih
      marks := marks_within ih
      atom := atom_within ih
      arguments := arguments_within ih
      sums := sums_within ih }

def left (answer : Except ReadFault (α × List (Token ν))) :
    Except ReadFault (Unit × List (Token ν)) :=
  answer.map fun read => ((), read.2)

theorem Follows.discard {ts : List (Token ν)} {p : Nat} {step : Walk α}
    {answer : Except ReadFault (α × List (Token ν))} (h : Follows ts p step answer) :
    Follows ts p (do let _ ← step) (left answer) := by
  have further : left answer = (answer >>= fun read => .ok ((), read.2)) := by
    cases answer <;> rfl
  rw [further]
  exact h.bind fun _ _ _ _ there => .pure there ()

theorem length_left {p : List (Token ν) → Prop} {r : Except ReadFault (α × { rest // p rest })}
    {rest : List (Token ν)} (h : left (outcome r) = .ok ((), rest)) : p rest := by
  rcases r with f | ⟨a, rest', bound⟩
  · cases h
  · cases h
    exact bound

namespace Level

def walk (ts : List (Token ν)) (n : Nat) : Level → Walk Unit
  | sum => do let _ ← Walk.sum ts n
  | product => do let _ ← Walk.product ts n
  | signed => do let _ ← Walk.signed ts n
  | power => do let _ ← Walk.power ts n
  | operand => do let _ ← Walk.operand ts n
  | atom => do let _ ← Walk.atom ts n
  | arguments => do let _ ← Walk.arguments ts n
  | sums => do let _ ← Walk.sums ts n
  | closing => Walk.expectClosing ts

def leaves (ts : List (Token ν)) : Level → Except ReadFault (Unit × List (Token ν))
  | sum => left (outcome (Parse.sum ts))
  | product => left (outcome (Parse.product ts))
  | signed => left (outcome (Parse.signed ts))
  | power => left (outcome (Parse.power ts))
  | operand => left (outcome (Parse.operand ts))
  | atom => left (outcome (Parse.atom ts))
  | arguments => left (outcome (Parse.arguments ts))
  | sums => left (outcome (someArguments ts))
  | closing => (closed ts).map (Prod.mk ())

variable {ts rest rest' : List (Token ν)} {n p : Nat}

theorem follows_walk (level : Level) (here : At ts p rest)
    (room : 9 * rest.length + level.rank < n) :
    Follows ts p (level.walk ts n) (level.leaves rest) := by
  have within := followsWithin ts n
  cases level with
  | sum => exact (within.sum here room).discard
  | product => exact (within.product here room).discard
  | signed => exact (within.signed here room).discard
  | power => exact (within.power here room).discard
  | operand => exact (within.operand here room).discard
  | atom => exact (within.atom here room).discard
  | arguments => exact (within.arguments here room).discard
  | sums => exact (within.sums here room).discard
  | closing => exact expectClosing_follows here

/-- A level that has an answer has passed a token. -/
theorem length_leaves (level : Level) (h : level.leaves rest = .ok ((), rest')) :
    rest'.length < rest.length := by
  cases level with
  | closing =>
    rw [leaves] at h
    unfold closed at h
    split at h <;> cases h
    exact Nat.lt_succ_self _
  | _ => exact length_left h

/-- From every position a level ends, accepting or not, and never behind the last token. With an
answer it has passed a token. -/
theorem ends (level : Level) (inside : p ≤ ts.length)
    (room : 9 * (ts.length - p) + level.rank < n) :
    ∃ p', p ≤ p' ∧ p' ≤ ts.length ∧
      ((p < p' ∧ level.leaves (ts.drop p) = .ok ((), ts.drop p') ∧
          (level.walk ts n).from? p = some (.ok (), p')) ∨
        ∃ f, level.leaves (ts.drop p) = .error f ∧
          (level.walk ts n).from? p = some (.error f, p')) := by
  have here : At ts p (ts.drop p) := ⟨inside, rfl⟩
  rw [← List.length_drop] at room
  have follows := level.follows_walk here room
  rcases h : level.leaves (ts.drop p) with f | ⟨⟨⟩, rest⟩
  · rw [h] at follows
    obtain ⟨p', forward, inside', ends⟩ := follows
    exact ⟨p', forward, inside', .inr ⟨f, rfl, ends⟩⟩
  · rw [h] at follows
    obtain ⟨p', forward, there, ends⟩ := follows
    have shorter := level.length_leaves h
    have before := here.length
    have after := there.length
    have passed : p < p' := by omega
    exact ⟨p', forward, there.inside, .inl ⟨passed, by rw [there.drop], ends⟩⟩

end Level

def Walk.whole (ts : List (Token ν)) (n : Nat) : Walk (Expr ν) :=
  if ts.isEmpty then throw .emptyExpression
  else do
    let e ← Walk.sum ts n
    match ← peek ts with
    | some t => throw (.unexpected (upcoming [t]))
    | none => return e

def ended (e : Expr ν) : List (Token ν) → Except ReadFault (Expr ν × List (Token ν))
  | [] => .ok (e, [])
  | t :: _ => .error (.unexpected (upcoming [t]))

theorem whole_follows {ts : List (Token ν)} {n : Nat} (nonempty : ts ≠ [])
    (room : 9 * ts.length + 6 < n) :
    Follows ts 0 (Walk.whole ts n) (outcome (sum ts) >>= fun read => ended read.1 read.2) := by
  have notEmpty : ¬ ts.isEmpty = true := by simpa using nonempty
  rw [Walk.whole, if_neg notEmpty]
  refine ((followsWithin ts n).sum (at_start ts) room).bind fun e p' rest _ there =>
    .peek there ?_
  rcases rest with _ | ⟨t, rest⟩
  · exact .pure there e
  · exact .throw there _

end Reckoner.Parse

namespace Reckoner

open Parse

variable {ν : Type}

/-- The tree of some tokens, if so many calls inside each other are enough to find it or a fault. -/
def parseWithin (n : Nat) (ts : List (Token ν)) : Option (Except Error (Expr ν)) :=
  ((Walk.whole ts n).from? 0).map fun (answer, _) => answer.mapError .read

theorem parse_eq_ended {ts : List (Token ν)} (nonempty : ts ≠ []) :
    parse ts =
      ((outcome (sum ts) >>= fun read => ended read.1 read.2).map Prod.fst).mapError .read := by
  rw [parse_eq ts nonempty]
  rcases outcome (sum ts) with f | ⟨e, _ | ⟨x | s | m, rest⟩⟩ <;> rfl

theorem parseWithin_eq {ts : List (Token ν)} {n : Nat} (room : 9 * ts.length + 6 < n) :
    parseWithin n ts = some (parse ts) := by
  by_cases empty : ts = []
  · subst empty
    rfl
  have follows := whole_follows empty room
  rw [parse_eq_ended empty, parseWithin]
  rcases h : (outcome (sum ts) >>= fun read => ended read.1 read.2) with f | ⟨e, rest⟩
  · rw [h] at follows
    obtain ⟨_, _, _, ends⟩ := follows
    rw [ends]
    rfl
  · rw [h] at follows
    obtain ⟨_, _, _, ends⟩ := follows
    rw [ends]
    rfl

end Reckoner
