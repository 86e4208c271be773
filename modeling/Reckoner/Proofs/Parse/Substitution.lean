import Reckoner.Proofs.Parse.Recognition
import Reckoner.Proofs.Parse.Span

/-! Tokens in the place of numbers. A block of tokens that stands for an operand, a number or a
phrase in parentheses, is an atom wherever a number is one: reading a list with blocks in it gives
the tree of the list with numbers, with the tree of each block in the place of the number, and it
fails where and as that list fails. Only a name is in the way, since a parenthesis after it makes it
a call. -/
namespace Reckoner

open Grammar Parse

variable {ν μ : Type}

/-- Tokens that are one operand. -/
inductive Stands : List (Token μ) → Expr μ → Prop where
  | number (x : μ) : Stands [.number x] (.number x)
  | group {ts : List (Token μ)} {e : Expr μ} : IsSum ts e [] →
      Stands (.mark .opening :: ts ++ [.mark .closing]) e

structure Substitution (ν μ : Type) where
  block : ν → List (Token μ)
  tree : ν → Expr μ
  stands : ∀ x, Stands (block x) (tree x)

namespace Substitution

variable (S : Substitution ν μ)

def expandToken : Token ν → List (Token μ)
  | .number x => S.block x
  | .name s => [.name s]
  | .mark m => [.mark m]

def expand (ts : List (Token ν)) : List (Token μ) := ts.flatMap S.expandToken

@[simp] theorem expand_nil : S.expand [] = [] := rfl

@[simp] theorem expand_number (x : ν) (ts : List (Token ν)) :
    S.expand (.number x :: ts) = S.block x ++ S.expand ts := rfl

@[simp] theorem expand_name (s : String) (ts : List (Token ν)) :
    S.expand (.name s :: ts) = .name s :: S.expand ts := rfl

@[simp] theorem expand_mark (m : Mark) (ts : List (Token ν)) :
    S.expand (.mark m :: ts) = .mark m :: S.expand ts := rfl

/-- Whether no block with a parenthesis in front comes to stand after a name. -/
def Apart (ts : List (Token ν)) : Prop :=
  ∀ before s x after, ts = before ++ .name s :: .number x :: after → opens (S.block x) = false

theorem Apart.of_suffix {S : Substitution ν μ} {ts rest : List (Token ν)} (apart : S.Apart ts)
    (h : rest <:+ ts) : S.Apart rest := by
  obtain ⟨front, rfl⟩ := h
  rintro before s x after rfl
  exact apart (front ++ before) s x after (by simp)

theorem Apart.cons {S : Substitution ν μ} {t : Token ν} {ts : List (Token ν)}
    (head : ∀ s x after, t = .name s → ts = .number x :: after → opens (S.block x) = false)
    (apart : S.Apart ts) : S.Apart (t :: ts) := by
  rintro (_ | ⟨u, before⟩) s x after same
  · cases same
    exact head s x after rfl rfl
  · rw [List.cons_append, List.cons.injEq] at same
    exact apart before s x after same.2

theorem Apart.number {S : Substitution ν μ} {ts : List (Token ν)} (apart : S.Apart ts) (x : ν) :
    S.Apart (.number x :: ts) :=
  .cons (fun _ _ _ h => by cases h) apart

theorem Apart.mark {S : Substitution ν μ} {ts : List (Token ν)} (apart : S.Apart ts) (m : Mark) :
    S.Apart (.mark m :: ts) :=
  .cons (fun _ _ _ h => by cases h) apart

def carry (answer : Expr ν × List (Token ν)) : Expr μ × List (Token μ) :=
  (answer.1.bind S.tree, S.expand answer.2)

def carryAll (answer : List (Expr ν) × List (Token ν)) : List (Expr μ) × List (Token μ) :=
  (Expr.bindAll S.tree answer.1, S.expand answer.2)

theorem atom_block (x : ν) (k : List (Token μ)) :
    outcome (atom (S.block x ++ k)) = .ok (S.tree x, k) := by
  have stands := S.stands x
  generalize S.block x = block, S.tree x = tree at stands
  cases stands with
  | number y => exact outcome_atom_number y k
  | @group ts _ isSum =>
    have inner := isSum.append_closing k
    have read := outcome_sum_eq_ok_iff.mpr ⟨inner, rfl⟩
    rw [List.append_cons] at read
    rw [List.cons_append, List.cons_append, outcome_atom_group, read]
    rfl

theorem startsOperand_block (x : ν) (k : List (Token μ)) :
    startsOperand (S.block x ++ k) = true := by
  have stands := S.stands x
  generalize S.block x = block, S.tree x = tree at stands
  cases stands <;> rfl

theorem opens_block (x : ν) (k : List (Token μ)) :
    opens (S.block x ++ k) = opens (S.block x) := by
  have stands := S.stands x
  generalize S.block x = block, S.tree x = tree at stands
  cases stands <;> rfl

theorem startsOperand_expand (ts : List (Token ν)) :
    startsOperand (S.expand ts) = startsOperand ts := by
  rcases ts with _ | ⟨x | s | m, ts⟩
  case cons.number => exact S.startsOperand_block x _
  case cons.mark => cases m <;> rfl
  all_goals rfl

theorem expand_ne_mark {m : Mark} {ts : List (Token ν)}
    (notOperand : (.mark m : Token μ).startsOperand = false) (h : ∀ ts', ts ≠ .mark m :: ts')
    (k : List (Token μ)) : S.expand ts ≠ .mark m :: k := by
  intro same
  rcases ts with _ | ⟨x | s | m', ts⟩
  · cases same
  · have starts := S.startsOperand_block x (S.expand ts)
    rw [expand_number] at same
    rw [same] at starts
    cases notOperand.symm.trans starts
  · cases same
  · cases same
    exact h ts rfl

theorem grip_expand (ts : List (Token ν)) : grip (S.expand ts) = grip ts := by
  rcases ts with _ | ⟨x | s | m, ts⟩
  case cons.number => exact grip_of_startsOperand (S.startsOperand_block x _)
  case cons.mark =>
    cases m
    case percent => simp only [expand_mark, grip, startsOperand_expand]
    all_goals rfl
  all_goals rfl

theorem opens_expand {s : String} {ts : List (Token ν)} (apart : S.Apart (.name s :: ts)) :
    opens (S.expand ts) = opens ts := by
  rcases ts with _ | ⟨x | s' | m, ts⟩
  case cons.number =>
    rw [expand_number, opens_block]
    exact apart [] s x ts rfl
  case cons.mark => cases m <;> rfl
  all_goals rfl

theorem closed_expand {ts : List (Token ν)} (stop : grip ts = 0) :
    closed (S.expand ts) = (closed ts).map S.expand := by
  -- The fault names the next mark. Only a block could hide it, and none stands after a sum.
  rcases ts with _ | ⟨x | s | m, ts⟩
  case cons.number => cases stop
  case cons.mark => cases m <;> rfl
  all_goals rfl

theorem marked_expand (e : Expr ν) (ts : List (Token ν)) :
    marked (e.bind S.tree) (S.expand ts) = S.carry (marked e ts) := by
  fun_induction marked e ts with
  | case1 e rest ih => exact ih
  | case2 e rest starts =>
    rw [expand_mark, marked, startsOperand_expand, starts]
    rfl
  | case3 e rest starts ih =>
    rw [expand_mark, marked, startsOperand_expand, if_neg starts]
    exact ih
  | case4 e rest notBang notPercent =>
    refine marked_eq_self ?_ _
    rw [grip_expand, ← markFollows_eq_false_iff]
    unfold markFollows
    split <;> simp_all

theorem additive_mark {m : Mark} {sign : Char} (h : additive? (.mark m : Token ν) = some sign) :
    additive? (.mark m : Token μ) = some sign := by
  rw [← h]
  cases m <;> rfl

theorem multiplicative_mark {m : Mark} {sign : Char}
    (h : multiplicative? (.mark m : Token ν) = some sign) :
    multiplicative? (.mark m : Token μ) = some sign := by
  rw [← h]
  cases m <;> rfl

/-- Every level reads the expanded tokens as it reads the tokens, on lists that are shorter than a
bound. -/
structure CarriesBelow (n : Nat) : Prop where
  sum {ts : List (Token ν)} : ts.length < n → S.Apart ts →
    outcome (sum (S.expand ts)) = (outcome (sum ts)).map S.carry
  sumRest (left : Expr ν) {ts : List (Token ν)} : ts.length < n → S.Apart ts → grip ts ≤ 1 →
    outcome (sumRest (left.bind S.tree) (S.expand ts)) = (outcome (sumRest left ts)).map S.carry
  product {ts : List (Token ν)} : ts.length < n → S.Apart ts →
    outcome (product (S.expand ts)) = (outcome (product ts)).map S.carry
  productRest (left : Expr ν) {ts : List (Token ν)} : ts.length < n → S.Apart ts → grip ts ≤ 2 →
    outcome (productRest (left.bind S.tree) (S.expand ts)) =
      (outcome (productRest left ts)).map S.carry
  signed {ts : List (Token ν)} : ts.length < n → S.Apart ts →
    outcome (signed (S.expand ts)) = (outcome (signed ts)).map S.carry
  operand {ts : List (Token ν)} : ts.length < n → S.Apart ts →
    outcome (operand (S.expand ts)) = (outcome (operand ts)).map S.carry
  arguments {ts : List (Token ν)} : ts.length < n → S.Apart ts →
    outcome (arguments (S.expand ts)) = (outcome (arguments ts)).map S.carryAll
  someArguments {ts : List (Token ν)} : ts.length < n → S.Apart ts →
    outcome (someArguments (S.expand ts)) = (outcome (someArguments ts)).map S.carryAll

section

variable {S} {n : Nat} (below : S.CarriesBelow n) {ts : List (Token ν)}

include below

theorem atom_expand (size : ts.length ≤ n) (apart : S.Apart ts) :
    outcome (atom (S.expand ts)) = (outcome (atom ts)).map S.carry := by
  rcases ts with _ | ⟨x | s | m, ts⟩
  · rw [expand_nil, outcome_atom_nil, outcome_atom_nil]
    rfl
  · rw [expand_number, atom_block, outcome_atom_number]
    rfl
  · cases called : opens ts
    · rw [expand_name, outcome_atom_name s called,
        outcome_atom_name s ((S.opens_expand apart).trans called)]
      rfl
    · obtain ⟨ts', rfl⟩ := opens_eq_true_iff.mp called
      have apart' : S.Apart ts' := apart.of_suffix ⟨[.name s, .mark .opening], rfl⟩
      rw [expand_name, expand_mark, outcome_atom_call, outcome_atom_call,
        below.arguments (Nat.lt_of_succ_lt size) apart']
      cases outcome (arguments ts') <;> rfl
  · have apart' : S.Apart ts := apart.of_suffix (List.suffix_cons _ _)
    by_cases opening : m = .opening
    · subst opening
      rw [expand_mark, outcome_atom_group, outcome_atom_group, below.sum size apart']
      cases read : outcome (sum ts) with
      | error f => rfl
      | ok answer =>
        obtain ⟨inner, mid⟩ := answer
        simp only [Except.map, ok_bind, carry, S.closed_expand (sum_sound read).2]
        cases closed mid <;> rfl
    by_cases root : m = .root
    · subst root
      rw [expand_mark, outcome_atom_root, outcome_atom_root, below.operand size apart']
      cases outcome (operand ts) <;> rfl
    · rw [expand_mark, outcome_atom_mark _ opening root, outcome_atom_mark _ opening root]
      rfl

theorem operand_expand (size : ts.length ≤ n) (apart : S.Apart ts) :
    outcome (operand (S.expand ts)) = (outcome (operand ts)).map S.carry := by
  rw [outcome_operand, outcome_operand, atom_expand below size apart]
  cases outcome (atom ts) with
  | error f => rfl
  | ok answer => exact congrArg Except.ok (S.marked_expand answer.1 answer.2)

theorem power_expand (size : ts.length ≤ n) (apart : S.Apart ts) :
    outcome (power (S.expand ts)) = (outcome (power ts)).map S.carry := by
  rw [outcome_power, outcome_power, operand_expand below size apart]
  cases read : outcome (operand ts) with
  | error f => rfl
  | ok answer =>
    obtain ⟨base, mid⟩ := answer
    have shorter := outcome_bound read
    have ⟨isOperand, stop⟩ := operand_sound read
    simp only [Except.map, ok_bind, carry]
    rcases raised_cases base mid with ⟨mid', rfl, _⟩ | ⟨noCaret, alone⟩
    · have fewer := Nat.lt_of_lt_of_le (Nat.lt_of_succ_lt shorter) size
      have apart' := apart.of_suffix isOperand.spans.before_mark.suffix
      simp only [expand_mark, raised]
      rw [below.signed fewer apart']
      cases outcome (signed mid') <;> rfl
    · -- No block is a caret, so the operand stays alone.
      rw [alone, raised_of_grip (le_of_eq_of_le (S.grip_expand mid) (noCaret stop))]

theorem signed_expand (size : ts.length ≤ n) (apart : S.Apart ts) :
    outcome (signed (S.expand ts)) = (outcome (signed ts)).map S.carry := by
  have asPower := power_expand below size apart
  rcases ts with _ | ⟨x | s | m, ts⟩
  · rwa [expand_nil, outcome_signed_nil, outcome_signed_nil]
  · rwa [outcome_signed_of_startsOperand (S.startsOperand_expand _),
      outcome_signed_of_startsOperand rfl]
  · rwa [outcome_signed_of_startsOperand (S.startsOperand_expand _),
      outcome_signed_of_startsOperand rfl]
  · have apart' : S.Apart ts := apart.of_suffix (List.suffix_cons _ _)
    by_cases minus : m = .minus
    · subst minus
      rw [expand_mark, outcome_signed_minus, outcome_signed_minus, below.signed size apart']
      cases outcome (signed ts) <;> rfl
    by_cases plus : m = .plus
    · subst plus
      rw [expand_mark, outcome_signed_plus, outcome_signed_plus, below.signed size apart']
    · rwa [expand_mark, outcome_signed_mark _ minus plus, outcome_signed_mark _ minus plus]

theorem productRest_expand (left : Expr ν) (size : ts.length ≤ n) (apart : S.Apart ts) (stop : grip ts ≤ 2) :
    outcome (productRest (left.bind S.tree) (S.expand ts)) =
      (outcome (productRest left ts)).map S.carry := by
  rcases factor_cases stop with ended | starts | ⟨m, sign, ts', rfl, multiplicative⟩
  · rw [productRest_of_grip ended, productRest_of_grip (le_of_eq_of_le (S.grip_expand ts) ended)]
    rfl
  · rw [productRest_juxtaposed starts,
      productRest_juxtaposed ((S.startsOperand_expand ts).trans starts),
      power_expand below size apart]
    cases read : outcome (power ts) with
    | error f => rfl
    | ok answer =>
      obtain ⟨right, mid⟩ := answer
      have ⟨isPower, stop'⟩ := power_sound read
      have fewer := Nat.lt_of_lt_of_le (outcome_bound read) size
      exact below.productRest (.binary left '*' right) fewer (apart.of_suffix isPower.spans.suffix) stop'
  · have apart' : S.Apart ts' := apart.of_suffix (List.suffix_cons _ _)
    rw [expand_mark, outcome_productRest_cons, outcome_productRest_cons]
    simp only [multiplicative, multiplicative_mark multiplicative]
    rw [below.signed size apart']
    cases read : outcome (signed ts') with
    | error f => rfl
    | ok answer =>
      obtain ⟨right, mid⟩ := answer
      have ⟨isSigned, stop'⟩ := signed_sound read
      have fewer := Nat.lt_trans (outcome_bound read) size
      exact below.productRest (.binary left sign right) fewer (apart'.of_suffix isSigned.spans.suffix) stop'

theorem product_expand (size : ts.length ≤ n) (apart : S.Apart ts) :
    outcome (product (S.expand ts)) = (outcome (product ts)).map S.carry := by
  rw [outcome_product, outcome_product, signed_expand below size apart]
  cases read : outcome (signed ts) with
  | error f => rfl
  | ok answer =>
    obtain ⟨left, mid⟩ := answer
    have ⟨isSigned, stop⟩ := signed_sound read
    have fewer := Nat.lt_of_lt_of_le (outcome_bound read) size
    exact below.productRest left fewer (apart.of_suffix isSigned.spans.suffix) stop

theorem sumRest_expand (left : Expr ν) (size : ts.length ≤ n) (apart : S.Apart ts) (stop : grip ts ≤ 1) :
    outcome (sumRest (left.bind S.tree) (S.expand ts)) =
      (outcome (sumRest left ts)).map S.carry := by
  rcases term_cases stop with ended | ⟨m, sign, ts', rfl, additive⟩
  · rw [sumRest_of_grip ended, sumRest_of_grip ((S.grip_expand ts).trans ended)]
    rfl
  · have apart' : S.Apart ts' := apart.of_suffix (List.suffix_cons _ _)
    rw [expand_mark, outcome_sumRest_cons, outcome_sumRest_cons]
    simp only [additive, additive_mark additive]
    rw [below.product size apart']
    cases read : outcome (product ts') with
    | error f => rfl
    | ok answer =>
      obtain ⟨right, mid⟩ := answer
      have ⟨isProduct, stop'⟩ := product_sound read
      have fewer := Nat.lt_trans (outcome_bound read) size
      exact below.sumRest (.binary left sign right) fewer (apart'.of_suffix isProduct.spans.suffix) stop'

theorem sum_expand (size : ts.length ≤ n) (apart : S.Apart ts) :
    outcome (sum (S.expand ts)) = (outcome (sum ts)).map S.carry := by
  rw [outcome_sum, outcome_sum, product_expand below size apart]
  cases read : outcome (product ts) with
  | error f => rfl
  | ok answer =>
    obtain ⟨left, mid⟩ := answer
    have ⟨isProduct, stop⟩ := product_sound read
    have fewer := Nat.lt_of_lt_of_le (outcome_bound read) size
    exact below.sumRest left fewer (apart.of_suffix isProduct.spans.suffix) stop

theorem someArguments_expand (size : ts.length ≤ n) (apart : S.Apart ts) :
    outcome (someArguments (S.expand ts)) = (outcome (someArguments ts)).map S.carryAll := by
  rw [outcome_someArguments, outcome_someArguments, sum_expand below size apart]
  cases read : outcome (sum ts) with
  | error f => rfl
  | ok answer =>
    obtain ⟨e, mid⟩ := answer
    have shorter := outcome_bound read
    have ⟨isSum, stop⟩ := sum_sound read
    simp only [Except.map, ok_bind, carry]
    by_cases comma : ∃ mid', mid = .mark .comma :: mid'
    · obtain ⟨mid', rfl⟩ := comma
      have fewer := Nat.lt_of_lt_of_le (Nat.lt_of_succ_lt shorter) size
      have apart' := apart.of_suffix isSum.spans.before_mark.suffix
      simp only [expand_mark, listed]
      rw [below.someArguments fewer apart']
      cases outcome (someArguments mid') <;> rfl
    · have noComma := not_exists.mp comma
      rw [listed_of_ne noComma, listed_of_ne (S.expand_ne_mark rfl noComma), S.closed_expand stop]
      cases closed mid <;> rfl

theorem arguments_expand (size : ts.length ≤ n) (apart : S.Apart ts) :
    outcome (arguments (S.expand ts)) = (outcome (arguments ts)).map S.carryAll := by
  by_cases empty : ∃ ts', ts = .mark .closing :: ts'
  · obtain ⟨ts', rfl⟩ := empty
    rw [expand_mark, outcome_arguments_closing, outcome_arguments_closing]
    rfl
  · have notEmpty := not_exists.mp empty
    rw [outcome_arguments_of_ne notEmpty,
      outcome_arguments_of_ne (S.expand_ne_mark rfl notEmpty)]
    exact someArguments_expand below size apart

end

theorem carriesBelow (n : Nat) : S.CarriesBelow n := by
  induction n with
  | zero => constructor <;> nofun
  | succ n below =>
    exact {
      sum := fun size => sum_expand below (Nat.le_of_lt_succ size)
      sumRest := fun left _ size => sumRest_expand below left (Nat.le_of_lt_succ size)
      product := fun size => product_expand below (Nat.le_of_lt_succ size)
      productRest := fun left _ size => productRest_expand below left (Nat.le_of_lt_succ size)
      signed := fun size => signed_expand below (Nat.le_of_lt_succ size)
      operand := fun size => operand_expand below (Nat.le_of_lt_succ size)
      arguments := fun size => arguments_expand below (Nat.le_of_lt_succ size)
      someArguments := fun size => someArguments_expand below (Nat.le_of_lt_succ size) }

theorem expand_ne_nil {ts : List (Token ν)} (nonempty : ts ≠ []) : S.expand ts ≠ [] := by
  rcases ts with _ | ⟨x | s | m, ts⟩
  · contradiction
  · intro empty
    have starts := S.startsOperand_block x (S.expand ts)
    rw [expand_number] at empty
    rw [empty] at starts
    cases starts
  · exact List.cons_ne_nil _ _
  · exact List.cons_ne_nil _ _

/-- Blocks that stand for numbers are read as numbers are, and what fails, fails alike. -/
theorem parse_expand {ts : List (Token ν)} (apart : S.Apart ts) :
    parse (S.expand ts) = (parse ts).map (·.bind S.tree) := by
  by_cases nonempty : ts = []
  · subst nonempty
    rfl
  rw [parse_eq ts nonempty, parse_eq _ (S.expand_ne_nil nonempty),
    sum_expand (S.carriesBelow ts.length) (Nat.le_refl _) apart]
  cases read : outcome (sum ts) with
  | error f => rfl
  | ok answer =>
    obtain ⟨e, rest⟩ := answer
    have stop := (sum_sound read).2
    rcases rest with _ | ⟨x | s | m, rest⟩
    · rfl
    · cases stop
    · cases stop
    · rfl

end Substitution

end Reckoner
