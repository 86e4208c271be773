import Reckoner.Proofs.Parse.Recognition
import Reckoner.Proofs.Parse.Span

/-! Where reading fails. A level finds few faults by itself: it calls other levels, and a fault
comes up from the one that found it. The calls are listed here with the parentheses that are opened
on the way to each, so a fault has a depth, which is the number of parentheses that the levels above
the one that found it are still to close. -/
namespace Reckoner.Parse

open Grammar

variable {ν : Type}

/-- The levels of the notation, and the closing parenthesis that two of them expect. -/
inductive Level where
  | sum
  | product
  | signed
  | power
  | operand
  | atom
  | arguments
  | sums
  | closing
deriving DecidableEq

/-- Each call of one level by another. `Calls p ts opened q rest` says that `p`, which reads `ts`,
comes to have `q` read `rest`, behind `opened` parentheses that `p` has opened. What `p` has read
before that is a phrase. -/
inductive Calls : Level → List (Token ν) → Nat → Level → List (Token ν) → Prop where
  | firstProduct {ts} : Calls .sum ts 0 .product ts
  | nextProduct {ts rest t e sign} : IsSum ts e (t :: rest) → additive? t = some sign →
      Calls .sum ts 0 .product rest
  | firstSigned {ts} : Calls .product ts 0 .signed ts
  | nextSigned {ts rest t e sign} : IsProduct ts e (t :: rest) → grip (t :: rest) ≤ 2 →
      multiplicative? t = some sign → Calls .product ts 0 .signed rest
  | nextPower {ts rest e} : IsProduct ts e rest → startsOperand rest = true →
      Calls .product ts 0 .power rest
  | minus {ts} : Calls .signed (.mark .minus :: ts) 0 .signed ts
  | plus {ts} : Calls .signed (.mark .plus :: ts) 0 .signed ts
  | unsigned {ts} : (∀ ts', ts ≠ .mark .minus :: ts') → (∀ ts', ts ≠ .mark .plus :: ts') →
      Calls .signed ts 0 .power ts
  | base {ts} : Calls .power ts 0 .operand ts
  | exponent {ts rest e} : IsOperand ts e (.mark .caret :: rest) → Calls .power ts 0 .signed rest
  | atom {ts} : Calls .operand ts 0 .atom ts
  | call {s ts} : Calls .atom (.name s :: .mark .opening :: ts) 1 .arguments ts
  | group {ts} : Calls .atom (.mark .opening :: ts) 1 .sum ts
  | groupClosing {ts rest e} : IsSum ts e rest → grip rest = 0 →
      Calls .atom (.mark .opening :: ts) 1 .closing rest
  | root {ts} : Calls .atom (.mark .root :: ts) 0 .operand ts
  | sums {ts} : (∀ ts', ts ≠ .mark .closing :: ts') → Calls .arguments ts 0 .sums ts
  | firstSum {ts} : Calls .sums ts 0 .sum ts
  | nextSums {ts rest e} : IsSum ts e (.mark .comma :: rest) → Calls .sums ts 0 .sums rest
  | sumsClosing {ts rest e} : IsSum ts e rest → grip rest = 0 →
      (∀ ts', rest ≠ .mark .comma :: ts') → Calls .sums ts 0 .closing rest

/-- While a sum is read from `ts`, a level comes to read `rest`, behind `depth` parentheses that the
levels above it have opened and are still to close. -/
inductive Reached (ts : List (Token ν)) : Nat → Level → List (Token ν) → Prop where
  | start : Reached ts 0 .sum ts
  | call {p q mid rest depth opened} : Reached ts depth p mid → Calls p mid opened q rest →
      Reached ts (depth + opened) q rest

inductive Raises : Level → List (Token ν) → ReadFault → Prop where
  | ended : Raises .atom [] (.unexpected none)
  | mark {m rest} : m ≠ .opening → m ≠ .root →
      Raises .atom (.mark m :: rest) (.unexpected (some m))
  | closing {ts} : (∀ ts', ts ≠ .mark .closing :: ts') →
      Raises .closing ts (.unclosed (upcoming ts))

/-- While a sum is read from some tokens, a fault is found where `depth` parentheses are open. -/
def FailsAt (ts : List (Token ν)) (depth : Nat) (f : ReadFault) : Prop :=
  ∃ q rest, Reached ts depth q rest ∧ Raises q rest f

namespace Level

def Fails (ts : List (Token ν)) (f : ReadFault) : Level → Prop
  | sum => outcome (Parse.sum ts) = .error f
  | product => outcome (Parse.product ts) = .error f
  | signed => outcome (Parse.signed ts) = .error f
  | power => outcome (Parse.power ts) = .error f
  | operand => outcome (Parse.operand ts) = .error f
  | atom => outcome (Parse.atom ts) = .error f
  | arguments => outcome (Parse.arguments ts) = .error f
  | sums => outcome (someArguments ts) = .error f
  | closing => closed ts = .error f

/-- The order in which levels call each other on the same tokens. -/
def rank : Level → Nat
  | closing => 0
  | atom => 1
  | operand => 2
  | power => 3
  | signed => 4
  | product => 5
  | sum => 6
  | sums => 7
  | arguments => 8

end Level

/-! A level ends with every fault that comes up from a call. -/

theorem grip_of_additive {t : Token ν} {sign : Char} (additive : additive? t = some sign)
    (ts : List (Token ν)) : grip (t :: ts) = 1 := by
  unfold additive? at additive
  split at additive <;> cases additive <;> rfl

theorem outcome_signed_unsigned {ts : List (Token ν)} (notMinus : ∀ ts', ts ≠ .mark .minus :: ts')
    (notPlus : ∀ ts', ts ≠ .mark .plus :: ts') : outcome (signed ts) = outcome (power ts) := by
  rcases signed_cases ts with ⟨ts', rfl⟩ | ⟨ts', rfl⟩ | unsigned
  · exact absurd rfl (notMinus ts')
  · exact absurd rfl (notPlus ts')
  · exact unsigned

theorem closed_of_ne {ts : List (Token ν)} (h : ∀ ts', ts ≠ .mark .closing :: ts') :
    closed ts = .error (.unclosed (upcoming ts)) := by
  unfold closed
  split
  · exact absurd rfl (h _)
  · rfl

theorem Raises.fails {q : Level} {ts : List (Token ν)} {f : ReadFault} (h : Raises q ts f) :
    q.Fails ts f := by
  cases h with
  | ended => exact outcome_atom_nil
  | mark notOpening notRoot => exact outcome_atom_mark _ notOpening notRoot
  | closing notClosing => exact closed_of_ne notClosing

theorem Calls.fails {p q : Level} {ts rest : List (Token ν)} {opened : Nat} {f : ReadFault}
    (h : Calls p ts opened q rest) (inner : q.Fails rest f) : p.Fails ts f := by
  cases h with
  | firstProduct =>
    rw [Level.Fails, outcome_sum]
    exact bind_eq_error.mpr (.inl inner)
  | nextProduct before additive =>
    have stop := Nat.le_of_eq (grip_of_additive additive rest)
    rw [Level.Fails, sum_of_isSum before stop, outcome_sumRest_cons, additive]
    exact bind_eq_error.mpr (.inl inner)
  | firstSigned =>
    rw [Level.Fails, outcome_product]
    exact bind_eq_error.mpr (.inl inner)
  | nextSigned before stop multiplicative =>
    rw [Level.Fails, product_of_isProduct before stop, outcome_productRest_cons, multiplicative]
    exact bind_eq_error.mpr (.inl inner)
  | nextPower before starts =>
    have stop := Nat.le_of_eq (grip_of_startsOperand starts)
    rw [Level.Fails, product_of_isProduct before stop, productRest_juxtaposed starts]
    exact bind_eq_error.mpr (.inl inner)
  | minus =>
    rw [Level.Fails, outcome_signed_minus]
    exact bind_eq_error.mpr (.inl inner)
  | plus =>
    rw [Level.Fails, outcome_signed_plus]
    exact inner
  | unsigned notMinus notPlus =>
    rw [Level.Fails, outcome_signed_unsigned notMinus notPlus]
    exact inner
  | base =>
    rw [Level.Fails, outcome_power]
    exact bind_eq_error.mpr (.inl inner)
  | exponent before =>
    rw [Level.Fails, outcome_power, operand_of_isOperand before, ok_bind]
    exact bind_eq_error.mpr (.inl inner)
  | atom =>
    rw [Level.Fails, outcome_operand]
    exact bind_eq_error.mpr (.inl inner)
  | call =>
    rw [Level.Fails, outcome_atom_call]
    exact bind_eq_error.mpr (.inl inner)
  | group =>
    rw [Level.Fails, outcome_atom_group]
    exact bind_eq_error.mpr (.inl inner)
  | groupClosing before stop =>
    rw [Level.Fails, outcome_atom_group, outcome_sum_eq_ok_iff.mpr ⟨before, stop⟩, ok_bind]
    exact bind_eq_error.mpr (.inl inner)
  | root =>
    rw [Level.Fails, outcome_atom_root]
    exact bind_eq_error.mpr (.inl inner)
  | sums notClosing =>
    rw [Level.Fails, outcome_arguments_of_ne notClosing]
    exact inner
  | firstSum =>
    rw [Level.Fails, outcome_someArguments]
    exact bind_eq_error.mpr (.inl inner)
  | nextSums before =>
    rw [Level.Fails, outcome_someArguments, outcome_sum_eq_ok_iff.mpr ⟨before, rfl⟩, ok_bind]
    exact bind_eq_error.mpr (.inl inner)
  | sumsClosing before stop notComma =>
    rw [Level.Fails, outcome_someArguments, outcome_sum_eq_ok_iff.mpr ⟨before, stop⟩, ok_bind]
    exact (listed_of_ne notComma _).trans (bind_eq_error.mpr (.inl inner))

theorem Reached.fails {q : Level} {ts rest : List (Token ν)} {depth : Nat} {f : ReadFault}
    (h : Reached ts depth q rest) (inner : q.Fails rest f) : outcome (sum ts) = .error f := by
  induction h with
  | start => exact inner
  | call _ last ih => exact ih (last.fails inner)

/-! A level that ends with a fault has found it by itself or in a call. -/

def Passes (p : Level) (ts : List (Token ν)) (f : ReadFault) : Prop :=
  ∃ opened q rest, Calls p ts opened q rest ∧ q.Fails rest f

theorem sumRest_fails {ts mid : List (Token ν)} {left : Expr ν} {f : ReadFault}
    (before : IsSum ts left mid) (stop : grip mid ≤ 1)
    (h : outcome (sumRest left mid) = .error f) : Passes .sum ts f := by
  induction size : mid.length using Nat.strongRecOn generalizing mid left with
  | _ n ih =>
    rcases term_cases stop with ended | ⟨m, sign, mid', rfl, additive⟩
    · rw [sumRest_of_grip ended] at h
      cases h
    · rw [outcome_sumRest_cons, additive] at h
      rcases bind_eq_error.mp h with inner | ⟨⟨right, rest⟩, next, h⟩
      · exact ⟨_, _, _, .nextProduct before additive, inner⟩
      · have ⟨isProduct, stop'⟩ := product_sound next
        have shorter : rest.length < n := size ▸ Nat.lt_succ_of_lt (outcome_bound next)
        exact ih _ shorter (isSum_additive additive before isProduct) stop' h rfl

theorem productRest_fails {ts mid : List (Token ν)} {left : Expr ν} {f : ReadFault}
    (before : IsProduct ts left mid) (stop : grip mid ≤ 2)
    (h : outcome (productRest left mid) = .error f) : Passes .product ts f := by
  induction size : mid.length using Nat.strongRecOn generalizing mid left with
  | _ n ih =>
    rcases factor_cases stop with ended | starts | ⟨m, sign, mid', rfl, multiplicative⟩
    · rw [productRest_of_grip ended] at h
      cases h
    · rw [productRest_juxtaposed starts] at h
      rcases bind_eq_error.mp h with inner | ⟨⟨right, rest⟩, next, h⟩
      · exact ⟨_, _, _, .nextPower before starts, inner⟩
      · have ⟨isPower, stop'⟩ := power_sound next
        have shorter : rest.length < n := size ▸ outcome_bound next
        exact ih _ shorter (.juxtaposed before starts isPower) stop' h rfl
    · rw [outcome_productRest_cons, multiplicative] at h
      rcases bind_eq_error.mp h with inner | ⟨⟨right, rest⟩, next, h⟩
      · exact ⟨_, _, _, .nextSigned before stop multiplicative, inner⟩
      · have ⟨isSigned, stop'⟩ := signed_sound next
        have shorter : rest.length < n := size ▸ Nat.lt_succ_of_lt (outcome_bound next)
        have longer := isProduct_multiplicative multiplicative before stop isSigned
        exact ih _ shorter longer stop' h rfl

theorem sum_fails {ts : List (Token ν)} {f : ReadFault} (h : outcome (sum ts) = .error f) :
    Passes .sum ts f := by
  rw [outcome_sum] at h
  rcases bind_eq_error.mp h with inner | ⟨⟨left, mid⟩, first, h⟩
  · exact ⟨_, _, _, .firstProduct, inner⟩
  · have ⟨isProduct, stop⟩ := product_sound first
    exact sumRest_fails (.product isProduct) stop h

theorem product_fails {ts : List (Token ν)} {f : ReadFault}
    (h : outcome (product ts) = .error f) : Passes .product ts f := by
  rw [outcome_product] at h
  rcases bind_eq_error.mp h with inner | ⟨⟨left, mid⟩, first, h⟩
  · exact ⟨_, _, _, .firstSigned, inner⟩
  · have ⟨isSigned, stop⟩ := signed_sound first
    exact productRest_fails (.signed isSigned) stop h

theorem signed_fails {ts : List (Token ν)} {f : ReadFault} (h : outcome (signed ts) = .error f) :
    Passes .signed ts f := by
  by_cases minus : ∃ ts', ts = .mark .minus :: ts'
  · obtain ⟨ts', rfl⟩ := minus
    rw [outcome_signed_minus] at h
    rcases bind_eq_error.mp h with inner | ⟨_, _, h⟩
    · exact ⟨_, _, _, .minus, inner⟩
    · cases h
  by_cases plus : ∃ ts', ts = .mark .plus :: ts'
  · obtain ⟨ts', rfl⟩ := plus
    rw [outcome_signed_plus] at h
    exact ⟨_, _, _, .plus, h⟩
  · have notMinus := not_exists.mp minus
    have notPlus := not_exists.mp plus
    rw [outcome_signed_unsigned notMinus notPlus] at h
    exact ⟨_, _, _, .unsigned notMinus notPlus, h⟩

theorem power_fails {ts : List (Token ν)} {f : ReadFault} (h : outcome (power ts) = .error f) :
    Passes .power ts f := by
  rw [outcome_power] at h
  rcases bind_eq_error.mp h with inner | ⟨⟨base, mid⟩, first, h⟩
  · exact ⟨_, _, _, .base, inner⟩
  · rcases raised_cases base mid with ⟨mid', rfl, caret⟩ | ⟨_, alone⟩
    · simp only [caret] at h
      rcases bind_eq_error.mp h with inner | ⟨_, _, h⟩
      · exact ⟨_, _, _, .exponent (operand_sound first).1, inner⟩
      · cases h
    · simp only [alone] at h
      cases h

theorem closed_fails {ts : List (Token ν)} {f : ReadFault} (h : closed ts = .error f) :
    Raises .closing ts f := by
  by_cases closes : ∃ ts', ts = .mark .closing :: ts'
  · obtain ⟨ts', rfl⟩ := closes
    cases h
  · have notClosing := not_exists.mp closes
    rw [closed_of_ne notClosing] at h
    cases h
    exact .closing notClosing

theorem atom_fails {ts : List (Token ν)} {f : ReadFault} (h : outcome (atom ts) = .error f) :
    Raises .atom ts f ∨ Passes .atom ts f := by
  rcases ts with _ | ⟨x | s | m, ts⟩
  · rw [outcome_atom_nil] at h
    cases h
    exact .inl .ended
  · rw [outcome_atom_number] at h
    cases h
  · cases called : opens ts
    · rw [outcome_atom_name s called] at h
      cases h
    · obtain ⟨ts', rfl⟩ := opens_eq_true_iff.mp called
      rw [outcome_atom_call] at h
      rcases bind_eq_error.mp h with inner | ⟨_, _, h⟩
      · exact .inr ⟨_, _, _, .call, inner⟩
      · cases h
  · by_cases opening : m = .opening
    · subst opening
      rw [outcome_atom_group] at h
      rcases bind_eq_error.mp h with inner | ⟨⟨e, mid⟩, first, h⟩
      · exact .inr ⟨_, _, _, .group, inner⟩
      rcases bind_eq_error.mp h with inner | ⟨_, _, h⟩
      · have ⟨isSum, stop⟩ := sum_sound first
        exact .inr ⟨_, _, _, .groupClosing isSum stop, inner⟩
      · cases h
    by_cases root : m = .root
    · subst root
      rw [outcome_atom_root] at h
      rcases bind_eq_error.mp h with inner | ⟨_, _, h⟩
      · exact .inr ⟨_, _, _, .root, inner⟩
      · cases h
    · rw [outcome_atom_mark ts opening root] at h
      cases h
      exact .inl (.mark opening root)

theorem someArguments_fails {ts : List (Token ν)} {f : ReadFault}
    (h : outcome (someArguments ts) = .error f) : Passes .sums ts f := by
  rw [outcome_someArguments] at h
  rcases bind_eq_error.mp h with inner | ⟨⟨e, mid⟩, first, h⟩
  · exact ⟨_, _, _, .firstSum, inner⟩
  have ⟨isSum, stop⟩ := sum_sound first
  by_cases comma : ∃ mid', mid = .mark .comma :: mid'
  · obtain ⟨mid', rfl⟩ := comma
    rcases bind_eq_error.mp h with inner | ⟨_, _, h⟩
    · exact ⟨_, _, _, .nextSums isSum, inner⟩
    · cases h
  · have notComma := not_exists.mp comma
    simp only [listed_of_ne notComma] at h
    rcases bind_eq_error.mp h with inner | ⟨_, _, h⟩
    · exact ⟨_, _, _, .sumsClosing isSum stop notComma, inner⟩
    · cases h

theorem arguments_fails {ts : List (Token ν)} {f : ReadFault}
    (h : outcome (arguments ts) = .error f) : Passes .arguments ts f := by
  by_cases empty : ∃ ts', ts = .mark .closing :: ts'
  · obtain ⟨ts', rfl⟩ := empty
    rw [outcome_arguments_closing] at h
    cases h
  · have notClosing := not_exists.mp empty
    rw [outcome_arguments_of_ne notClosing] at h
    exact ⟨_, _, _, .sums notClosing, h⟩

theorem Level.Fails.cases {p : Level} {ts : List (Token ν)} {f : ReadFault} (h : p.Fails ts f) :
    Raises p ts f ∨ Passes p ts f := by
  cases p with
  | sum => exact .inr (sum_fails h)
  | product => exact .inr (product_fails h)
  | signed => exact .inr (signed_fails h)
  | power => exact .inr (power_fails h)
  | operand =>
    rw [Level.Fails, outcome_operand] at h
    rcases bind_eq_error.mp h with inner | ⟨_, _, h⟩
    · exact .inr ⟨_, _, _, .atom, inner⟩
    · cases h
  | atom => exact atom_fails h
  | arguments => exact .inr (arguments_fails h)
  | sums => exact .inr (someArguments_fails h)
  | closing => exact .inl (closed_fails h)

/-- A call takes tokens away, or goes to a level of lower rank. -/
theorem Calls.descends {p q : Level} {ts rest : List (Token ν)} {opened : Nat}
    (h : Calls p ts opened q rest) :
    rest.length < ts.length ∨ rest.length ≤ ts.length ∧ q.rank < p.rank := by
  cases h with
  | nextProduct before _ => exact .inl before.spans.suffix.length_le
  | nextSigned before _ _ => exact .inl before.spans.suffix.length_le
  | nextPower before _ => exact .inr ⟨before.spans.suffix.length_le, by decide⟩
  | exponent before => exact .inl before.spans.suffix.length_le
  | call => exact .inl (Nat.lt_succ_of_lt (Nat.lt_succ_self _))
  | groupClosing before _ => exact .inl (Nat.lt_succ_of_le before.spans.suffix.length_le)
  | nextSums before => exact .inl before.spans.suffix.length_le
  | sumsClosing before _ _ => exact .inr ⟨before.spans.suffix.length_le, by decide⟩
  | minus | plus | group | root => exact .inl (Nat.lt_succ_self _)
  | firstProduct | firstSigned | unsigned | base | atom | sums | firstSum =>
    exact .inr ⟨Nat.le_refl _, by decide⟩

theorem Reached.failsAt {p : Level} {ts mid : List (Token ν)} {depth : Nat} {f : ReadFault}
    (reached : Reached ts depth p mid) (h : p.Fails mid f) : ∃ depth', FailsAt ts depth' f := by
  -- A level has rank 8 at most, so a token outweighs every rank.
  induction weight : 9 * mid.length + p.rank using Nat.strongRecOn generalizing depth p mid with
  | _ n ih =>
    rcases h.cases with raises | ⟨opened, q, rest, call, inner⟩
    · exact ⟨depth, p, mid, reached, raises⟩
    · have lighter : 9 * rest.length + q.rank < n := by
        have descends := call.descends
        have bound : q.rank ≤ 8 := by cases q <;> decide
        omega
      exact ih _ lighter (reached.call call) inner rfl

/-- A sum cannot be read exactly if a fault is found at some depth. -/
theorem sum_eq_error_iff {ts : List (Token ν)} {f : ReadFault} :
    outcome (sum ts) = .error f ↔ ∃ depth, FailsAt ts depth f := by
  constructor
  · exact Reached.failsAt .start
  · rintro ⟨depth, q, rest, reached, raises⟩
    exact reached.fails raises.fails

end Reckoner.Parse
