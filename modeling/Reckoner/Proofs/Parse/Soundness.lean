import Reckoner.Proofs.Parse.Outcome

/-! A phrase that was read is in the grammar, and what stands after it cannot be part of it. -/
namespace Reckoner.Parse

open Grammar

variable {ν : Type}

/-- How tightly what stands next holds on to the operand before it: a mark most of all, then a
caret, a factor, a term of a sum. Anything else ends every phrase. -/
def grip : List (Token ν) → Nat
  | [] => 0
  | .number _ :: _ => 2
  | .name _ :: _ => 2
  | .mark m :: rest =>
    match m with
    | .bang => 4
    | .percent => if startsOperand rest then 2 else 4
    | .caret => 3
    | .star | .slash | .opening | .root => 2
    | .plus | .minus => 1
    | .comma | .closing => 0

theorem markFollows_eq_false_iff (ts : List (Token ν)) : markFollows ts = false ↔ grip ts ≤ 3 := by
  rcases ts with _ | ⟨x | s | m, rest⟩
  case cons.mark =>
    cases m
    case percent => cases h : startsOperand rest <;> simp [markFollows, grip, h]
    all_goals simp [markFollows, grip]
  all_goals simp [markFollows, grip]

theorem grip_marked (e : Expr ν) (ts : List (Token ν)) : grip (marked e ts).2 ≤ 3 := by
  fun_induction marked e ts with
  | case1 e rest ih => exact ih
  | case2 e rest starts => simp [grip, starts]
  | case3 e rest starts ih => exact ih
  | case4 e rest notBang notPercent =>
    rw [← markFollows_eq_false_iff]
    unfold markFollows
    split <;> simp_all

theorem marked_eq_self {ts : List (Token ν)} (h : grip ts ≤ 3) (e : Expr ν) :
    marked e ts = (e, ts) := by
  rw [← markFollows_eq_false_iff] at h
  unfold markFollows at h
  unfold marked
  split <;> simp_all

/-! Each loop stops where the next token is not its own. -/

theorem grip_of_not_additive {t : Token ν} {ts : List (Token ν)} (h : grip (t :: ts) ≤ 1)
    (notAdditive : additive? t = none) : grip (t :: ts) = 0 := by
  rcases t with x | s | m
  case mark =>
    cases m
    case percent =>
      simp only [grip] at h
      split at h <;> omega
    all_goals simp_all [grip, additive?]
  all_goals simp [grip] at h

theorem grip_of_not_factor {t : Token ν} {ts : List (Token ν)} (h : grip (t :: ts) ≤ 2)
    (notMultiplicative : multiplicative? t = none) (notOperand : t.startsOperand = false) :
    grip (t :: ts) ≤ 1 := by
  rcases t with x | s | m
  case mark => cases m <;> simp_all [grip, multiplicative?, Token.startsOperand]
  all_goals cases notOperand

theorem term_cases {ts : List (Token ν)} (h : grip ts ≤ 1) :
    grip ts = 0 ∨ ∃ m sign ts', ts = .mark m :: ts' ∧ additive? (.mark m : Token ν) = some sign := by
  rcases ts with _ | ⟨x | s | m, ts⟩
  case nil => exact .inl rfl
  case cons.mark =>
    cases additive : additive? (.mark m : Token ν)
    · exact .inl (grip_of_not_additive h additive)
    · exact .inr ⟨m, _, ts, rfl, additive⟩
  all_goals simp [grip] at h

theorem factor_cases {ts : List (Token ν)} (h : grip ts ≤ 2) :
    grip ts ≤ 1 ∨ startsOperand ts = true ∨
      ∃ m sign ts', ts = .mark m :: ts' ∧ multiplicative? (.mark m : Token ν) = some sign := by
  rcases ts with _ | ⟨x | s | m, ts⟩
  case nil => exact .inl (Nat.zero_le _)
  case cons.mark =>
    cases multiplicative : multiplicative? (.mark m : Token ν)
    · cases operand : (.mark m : Token ν).startsOperand
      · exact .inl (grip_of_not_factor h multiplicative operand)
      · exact .inr (.inl operand)
    · exact .inr (.inr ⟨m, _, ts, rfl, multiplicative⟩)
  all_goals exact .inr (.inl rfl)

theorem raised_cases (base : Expr ν) (ts : List (Token ν)) :
    (∃ ts', ts = .mark .caret :: ts' ∧ raised base ts = (do
      let (exponent, rest) ← outcome (signed ts')
      .ok (.binary base '^' exponent, rest))) ∨
    ((grip ts ≤ 3 → grip ts ≤ 2) ∧ raised base ts = .ok (base, ts)) := by
  rcases ts with _ | ⟨x | s | m, ts⟩
  case cons.mark =>
    cases m
    case caret => exact .inl ⟨ts, rfl, rfl⟩
    case percent =>
      refine .inr ⟨?_, rfl⟩
      simp only [grip]
      split <;> simp
    all_goals exact .inr ⟨by simp [grip], rfl⟩
  all_goals exact .inr ⟨by simp [grip], rfl⟩

theorem isMarked_marked {ts rest : List (Token ν)} {e : Expr ν} (h : IsMarked ts e rest) :
    IsMarked ts (marked e rest).1 (marked e rest).2 := by
  fun_induction marked e rest with
  | case1 e rest ih => exact ih (.bang h)
  | case2 => exact h
  | case3 e rest starts ih => exact ih (.percent h (by simpa using starts))
  | case4 => exact h

theorem isSum_additive {ts mid rest : List (Token ν)} {t : Token ν} {sign : Char} {l r : Expr ν}
    (additive : additive? t = some sign) (before : IsSum ts l (t :: mid))
    (next : IsProduct mid r rest) : IsSum ts (.binary l sign r) rest := by
  unfold additive? at additive
  split at additive <;> cases additive
  · exact .plus before next
  · exact .minus before next

theorem isProduct_multiplicative {ts mid rest : List (Token ν)} {t : Token ν} {sign : Char}
    {l r : Expr ν} (multiplicative : multiplicative? t = some sign)
    (before : IsProduct ts l (t :: mid)) (stop : grip (t :: mid) ≤ 2)
    (next : IsSigned mid r rest) : IsProduct ts (.binary l sign r) rest := by
  unfold multiplicative? at multiplicative
  split at multiplicative <;> cases multiplicative
  · exact .star before next
  · exact .slash before next
  · have operand : startsOperand mid = true := by
      cases h : startsOperand mid
      · simp [grip, h] at stop
      · rfl
    exact .percent before operand next

/-- Every level reads phrases of the grammar, on lists that are shorter than a bound. What stands
after a phrase does not hold on to it. -/
structure SoundBelow (ν : Type) (n : Nat) : Prop where
  sum {ts rest : List (Token ν)} {e} : ts.length < n →
    outcome (sum ts) = .ok (e, rest) → IsSum ts e rest ∧ grip rest = 0
  sumRest {ts mid rest : List (Token ν)} {left e} : mid.length < n → IsSum ts left mid →
    grip mid ≤ 1 → outcome (sumRest left mid) = .ok (e, rest) → IsSum ts e rest ∧ grip rest = 0
  product {ts rest : List (Token ν)} {e} : ts.length < n →
    outcome (product ts) = .ok (e, rest) → IsProduct ts e rest ∧ grip rest ≤ 1
  productRest {ts mid rest : List (Token ν)} {left e} : mid.length < n → IsProduct ts left mid →
    grip mid ≤ 2 → outcome (productRest left mid) = .ok (e, rest) →
      IsProduct ts e rest ∧ grip rest ≤ 1
  signed {ts rest : List (Token ν)} {e} : ts.length < n →
    outcome (signed ts) = .ok (e, rest) → IsSigned ts e rest ∧ grip rest ≤ 2
  operand {ts rest : List (Token ν)} {e} : ts.length < n →
    outcome (operand ts) = .ok (e, rest) → IsOperand ts e rest ∧ grip rest ≤ 3
  arguments {ts rest : List (Token ν)} {es} : ts.length < n →
    outcome (arguments ts) = .ok (es, rest) → IsArguments ts es rest
  someArguments {ts rest : List (Token ν)} {es} : ts.length < n →
    outcome (someArguments ts) = .ok (es, rest) → IsSums ts es (.mark .closing :: rest)

/-! One token more. The levels are taken in an order in which each calls earlier ones on the same
list and any other on a shorter one. -/

section

variable {n : Nat} (below : SoundBelow ν n) {ts mid rest : List (Token ν)} {left e : Expr ν}
  {es : List (Expr ν)}

include below

theorem atom_step (size : ts.length ≤ n) (h : outcome (atom ts) = .ok (e, rest)) :
    IsAtom ts e rest := by
  rcases ts with _ | ⟨x | s | m, ts⟩
  · rw [outcome_atom_nil] at h
    cases h
  · rw [outcome_atom_number] at h
    cases h
    exact .number
  · cases called : opens ts
    · rw [outcome_atom_name s called] at h
      cases h
      exact .name called
    · obtain ⟨ts', rfl⟩ := opens_eq_true_iff.mp called
      rw [outcome_atom_call, bind_eq_ok] at h
      obtain ⟨⟨es, rest'⟩, next, h⟩ := h
      cases h
      exact .call (below.arguments (Nat.lt_of_succ_lt size) next)
  · by_cases opening : m = .opening
    · subst opening
      rw [outcome_atom_group, bind_eq_ok] at h
      obtain ⟨⟨inner, mid⟩, next, h⟩ := h
      obtain ⟨rest', closes, h⟩ := bind_eq_ok.mp h
      cases h
      obtain rfl := closed_eq_ok_iff.mp closes
      exact .group (below.sum size next).1
    by_cases root : m = .root
    · subst root
      rw [outcome_atom_root, bind_eq_ok] at h
      obtain ⟨⟨inner, mid⟩, next, h⟩ := h
      cases h
      exact .root (below.operand size next).1
    · rw [outcome_atom_mark ts opening root] at h
      cases h

theorem operand_step (size : ts.length ≤ n) (h : outcome (operand ts) = .ok (e, rest)) :
    IsOperand ts e rest ∧ grip rest ≤ 3 := by
  rw [outcome_operand, bind_eq_ok] at h
  obtain ⟨⟨inner, mid⟩, first, h⟩ := h
  have isMarked := isMarked_marked (.atom (atom_step below size first))
  have stop := grip_marked inner mid
  simp only [Except.ok.injEq] at h
  rw [h] at isMarked stop
  exact ⟨.marked isMarked ((markFollows_eq_false_iff _).mpr stop), stop⟩

theorem power_step (size : ts.length ≤ n) (h : outcome (power ts) = .ok (e, rest)) :
    IsPower ts e rest ∧ grip rest ≤ 2 := by
  rw [outcome_power, bind_eq_ok] at h
  obtain ⟨⟨base, mid⟩, first, h⟩ := h
  have shorter := outcome_bound first
  have ⟨isOperand, stop⟩ := operand_step below size first
  rcases raised_cases base mid with ⟨mid', rfl, caret⟩ | ⟨noCaret, alone⟩
  · simp only [caret] at h
    obtain ⟨⟨exponent, rest'⟩, next, h⟩ := bind_eq_ok.mp h
    cases h
    have ⟨isSigned, stop'⟩ := below.signed (Nat.lt_of_lt_of_le (Nat.lt_of_succ_lt shorter) size) next
    exact ⟨.caret isOperand isSigned, stop'⟩
  · simp only [alone] at h
    cases h
    exact ⟨.operand isOperand, noCaret stop⟩

theorem signed_step (size : ts.length ≤ n) (h : outcome (signed ts) = .ok (e, rest)) :
    IsSigned ts e rest ∧ grip rest ≤ 2 := by
  rcases signed_cases ts with ⟨ts', rfl⟩ | ⟨ts', rfl⟩ | noSign
  · rw [outcome_signed_minus, bind_eq_ok] at h
    obtain ⟨⟨inner, mid⟩, next, h⟩ := h
    cases h
    have ⟨isSigned, stop⟩ := below.signed size next
    exact ⟨.minus isSigned, stop⟩
  · rw [outcome_signed_plus] at h
    have ⟨isSigned, stop⟩ := below.signed size h
    exact ⟨.plus isSigned, stop⟩
  · rw [noSign] at h
    have ⟨isPower, stop⟩ := power_step below size h
    exact ⟨.power isPower, stop⟩

theorem productRest_step (size : mid.length ≤ n) (before : IsProduct ts left mid)
    (stop : grip mid ≤ 2) (h : outcome (productRest left mid) = .ok (e, rest)) :
    IsProduct ts e rest ∧ grip rest ≤ 1 := by
  cases mid with
  | nil =>
    rw [outcome_productRest_nil] at h
    cases h
    exact ⟨before, Nat.zero_le _⟩
  | cons t mid =>
    rw [outcome_productRest_cons] at h
    cases multiplicative : multiplicative? t with
    | some sign =>
      simp only [multiplicative] at h
      obtain ⟨⟨right, mid'⟩, next, h⟩ := bind_eq_ok.mp h
      have fewer := Nat.lt_trans (outcome_bound next) size
      have ⟨isSigned, stop'⟩ := below.signed size next
      exact below.productRest fewer (isProduct_multiplicative multiplicative before stop isSigned)
        stop' h
    | none =>
      simp only [multiplicative] at h
      split at h
      · rename_i operand
        obtain ⟨⟨right, mid'⟩, next, h⟩ := bind_eq_ok.mp h
        have fewer := Nat.lt_of_lt_of_le (outcome_bound next) size
        have ⟨isPower, stop'⟩ := power_step below size next
        exact below.productRest fewer (.juxtaposed before operand isPower) stop' h
      · rename_i notOperand
        cases h
        exact ⟨before, grip_of_not_factor stop multiplicative (by simpa using notOperand)⟩

theorem product_step (size : ts.length ≤ n) (h : outcome (product ts) = .ok (e, rest)) :
    IsProduct ts e rest ∧ grip rest ≤ 1 := by
  rw [outcome_product, bind_eq_ok] at h
  obtain ⟨⟨left, mid⟩, first, h⟩ := h
  have fewer := Nat.lt_of_lt_of_le (outcome_bound first) size
  have ⟨isSigned, stop⟩ := signed_step below size first
  exact below.productRest fewer (.signed isSigned) stop h

theorem sumRest_step (size : mid.length ≤ n) (before : IsSum ts left mid) (stop : grip mid ≤ 1)
    (h : outcome (sumRest left mid) = .ok (e, rest)) : IsSum ts e rest ∧ grip rest = 0 := by
  cases mid with
  | nil =>
    rw [outcome_sumRest_nil] at h
    cases h
    exact ⟨before, rfl⟩
  | cons t mid =>
    rw [outcome_sumRest_cons] at h
    cases additive : additive? t with
    | none =>
      simp only [additive] at h
      cases h
      exact ⟨before, grip_of_not_additive stop additive⟩
    | some sign =>
      simp only [additive] at h
      obtain ⟨⟨right, mid'⟩, next, h⟩ := bind_eq_ok.mp h
      have fewer := Nat.lt_trans (outcome_bound next) size
      have ⟨isProduct, stop'⟩ := below.product size next
      exact below.sumRest fewer (isSum_additive additive before isProduct) stop' h

theorem sum_step (size : ts.length ≤ n) (h : outcome (sum ts) = .ok (e, rest)) :
    IsSum ts e rest ∧ grip rest = 0 := by
  rw [outcome_sum, bind_eq_ok] at h
  obtain ⟨⟨left, mid⟩, first, h⟩ := h
  have fewer := Nat.lt_of_lt_of_le (outcome_bound first) size
  have ⟨isProduct, stop⟩ := product_step below size first
  exact below.sumRest fewer (.product isProduct) stop h

theorem someArguments_step (size : ts.length ≤ n)
    (h : outcome (someArguments ts) = .ok (es, rest)) : IsSums ts es (.mark .closing :: rest) := by
  rw [outcome_someArguments, bind_eq_ok] at h
  obtain ⟨⟨e, mid⟩, first, h⟩ := h
  have shorter := outcome_bound first
  have isSum := (sum_step below size first).1
  rcases listed_cases e mid with ⟨mid', rfl⟩ | last
  · simp only [listed] at h
    obtain ⟨⟨es', rest'⟩, next, h⟩ := bind_eq_ok.mp h
    cases h
    have fewer := Nat.lt_of_lt_of_le (Nat.lt_of_succ_lt shorter) size
    exact .more isSum (below.someArguments fewer next)
  · simp only [last] at h
    obtain ⟨rest', closes, h⟩ := bind_eq_ok.mp h
    cases h
    obtain rfl := closed_eq_ok_iff.mp closes
    exact .one isSum

theorem arguments_step (size : ts.length ≤ n) (h : outcome (arguments ts) = .ok (es, rest)) :
    IsArguments ts es rest := by
  rcases arguments_cases ts with ⟨ts', rfl⟩ | notEmpty
  · rw [outcome_arguments_closing] at h
    cases h
    exact .none
  · rw [notEmpty] at h
    exact .some (someArguments_step below size h)

end

theorem soundBelow (ν : Type) (n : Nat) : SoundBelow ν n := by
  induction n with
  | zero => constructor <;> nofun
  | succ n below =>
    exact {
      sum := fun size => sum_step below (Nat.le_of_lt_succ size)
      sumRest := fun size => sumRest_step below (Nat.le_of_lt_succ size)
      product := fun size => product_step below (Nat.le_of_lt_succ size)
      productRest := fun size => productRest_step below (Nat.le_of_lt_succ size)
      signed := fun size => signed_step below (Nat.le_of_lt_succ size)
      operand := fun size => operand_step below (Nat.le_of_lt_succ size)
      arguments := fun size => arguments_step below (Nat.le_of_lt_succ size)
      someArguments := fun size => someArguments_step below (Nat.le_of_lt_succ size) }

section

variable {ts rest : List (Token ν)} {e : Expr ν} {es : List (Expr ν)}

theorem sum_sound (h : outcome (sum ts) = .ok (e, rest)) : IsSum ts e rest ∧ grip rest = 0 :=
  sum_step (soundBelow ν ts.length) (Nat.le_refl _) h

theorem product_sound (h : outcome (product ts) = .ok (e, rest)) :
    IsProduct ts e rest ∧ grip rest ≤ 1 :=
  product_step (soundBelow ν ts.length) (Nat.le_refl _) h

theorem signed_sound (h : outcome (signed ts) = .ok (e, rest)) :
    IsSigned ts e rest ∧ grip rest ≤ 2 :=
  signed_step (soundBelow ν ts.length) (Nat.le_refl _) h

theorem power_sound (h : outcome (power ts) = .ok (e, rest)) : IsPower ts e rest ∧ grip rest ≤ 2 :=
  power_step (soundBelow ν ts.length) (Nat.le_refl _) h

theorem operand_sound (h : outcome (operand ts) = .ok (e, rest)) :
    IsOperand ts e rest ∧ grip rest ≤ 3 :=
  operand_step (soundBelow ν ts.length) (Nat.le_refl _) h

end

end Reckoner.Parse
