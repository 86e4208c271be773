import Reckoner.Evaluation
import Reckoner.Proofs.Normal.Balance
import Reckoner.Proofs.Parse.Descent

/-! Reading a normal form. The parentheses that the levels have open are at every moment those that
the tokens read so far leave open. The tokens of a normal form are balanced, so they cannot run out
behind an open parenthesis, and a sum cannot end at a closing one that no level has opened. -/
namespace Reckoner

open Paren Grammar Parse

variable {ν : Type}

/-- The tokens before `rest` leave `depth` more parentheses open than there were before them, and
close none of those. -/
def Enters (ts : List (Token ν)) (depth : Nat) (rest : List (Token ν)) : Prop :=
  ∃ front, ts = front ++ rest ∧ ∀ outer, depthAfter outer (tokenParens front) = some (outer + depth)

namespace Enters

variable {ts mid rest : List (Token ν)} {t : Token ν} {depth depth' : Nat}

theorem refl (ts : List (Token ν)) : Enters ts 0 ts := ⟨[], rfl, fun _ => rfl⟩

theorem trans (h : Enters ts depth mid) (h' : Enters mid depth' rest) :
    Enters ts (depth + depth') rest := by
  obtain ⟨front, rfl, reaches⟩ := h
  obtain ⟨front', rfl, reaches'⟩ := h'
  refine ⟨front ++ front', (List.append_assoc _ _ _).symm, fun outer => ?_⟩
  rw [tokenParens_append, depthAfter_append, reaches outer, Option.bind_some, reaches',
    Nat.add_assoc]

theorem plain (h : t.paren? = none) (ts : List (Token ν)) : Enters (t :: ts) 0 ts := by
  refine ⟨[t], rfl, fun outer => ?_⟩
  rw [tokenParens_cons, h]
  rfl

theorem opening (ts : List (Token ν)) : Enters (.mark .opening :: ts) 1 ts :=
  ⟨[.mark .opening], rfl, fun _ => rfl⟩

theorem closed (h : Enters ts (depth + 1) (.mark .closing :: rest)) : Enters ts depth rest := by
  obtain ⟨front, rfl, reaches⟩ := h
  refine ⟨front ++ [.mark .closing], by simp, fun outer => ?_⟩
  rw [tokenParens_append, depthAfter_append, reaches outer]
  rfl

/-- The parentheses that are open are closed by what is left of balanced tokens. -/
theorem depthAfter_rest (h : Enters ts depth rest)
    (balanced : depthAfter 0 (tokenParens ts) = some 0) :
    depthAfter depth (tokenParens rest) = some 0 := by
  obtain ⟨front, rfl, reaches⟩ := h
  rw [tokenParens_append, depthAfter_append, reaches 0, Nat.zero_add] at balanced
  exact balanced

end Enters

/-! Phrases open and close in pairs. -/

mutual

theorem Grammar.IsSum.enters {ts rest : List (Token ν)} {e : Expr ν} :
    IsSum ts e rest → Enters ts 0 rest
  | .product h => h.enters
  | .plus before next => (before.enters.trans (.plain rfl _)).trans next.enters
  | .minus before next => (before.enters.trans (.plain rfl _)).trans next.enters

theorem Grammar.IsProduct.enters {ts rest : List (Token ν)} {e : Expr ν} :
    IsProduct ts e rest → Enters ts 0 rest
  | .signed h => h.enters
  | .star before next => (before.enters.trans (.plain rfl _)).trans next.enters
  | .slash before next => (before.enters.trans (.plain rfl _)).trans next.enters
  | .percent before _ next => (before.enters.trans (.plain rfl _)).trans next.enters
  | .juxtaposed before _ next => before.enters.trans next.enters

theorem Grammar.IsSigned.enters {ts rest : List (Token ν)} {e : Expr ν} :
    IsSigned ts e rest → Enters ts 0 rest
  | .minus h => (Enters.plain rfl _).trans h.enters
  | .plus h => (Enters.plain rfl _).trans h.enters
  | .power h => h.enters

theorem Grammar.IsPower.enters {ts rest : List (Token ν)} {e : Expr ν} :
    IsPower ts e rest → Enters ts 0 rest
  | .operand h => h.enters
  | .caret base exponent => (base.enters.trans (.plain rfl _)).trans exponent.enters

theorem Grammar.IsOperand.enters {ts rest : List (Token ν)} {e : Expr ν} :
    IsOperand ts e rest → Enters ts 0 rest
  | .marked h _ => h.enters

theorem Grammar.IsMarked.enters {ts rest : List (Token ν)} {e : Expr ν} :
    IsMarked ts e rest → Enters ts 0 rest
  | .atom h => h.enters
  | .bang h => h.enters.trans (.plain rfl _)
  | .percent h _ => h.enters.trans (.plain rfl _)

theorem Grammar.IsAtom.enters {ts rest : List (Token ν)} {e : Expr ν} :
    IsAtom ts e rest → Enters ts 0 rest
  | .number => .plain rfl _
  | .name _ => .plain rfl _
  | .call h => (Enters.plain rfl _).trans h.enters
  | .group h => ((Enters.opening _).trans h.enters).closed
  | .root h => (Enters.plain rfl _).trans h.enters

theorem Grammar.IsArguments.enters {ts rest : List (Token ν)} {es : List (Expr ν)} :
    IsArguments ts es rest → Enters (.mark .opening :: ts) 0 rest
  | .none => (Enters.opening _).closed
  | .some h => ((Enters.opening _).trans h.enters).closed

theorem Grammar.IsSums.enters {ts rest : List (Token ν)} {es : List (Expr ν)} :
    IsSums ts es rest → Enters ts 0 rest
  | .one h => h.enters
  | .more h others => (h.enters.trans (.plain rfl _)).trans others.enters

end

namespace Parse

theorem paren_of_additive {t : Token ν} {sign : Char} (additive : additive? t = some sign) :
    t.paren? = none := by
  unfold additive? at additive
  split at additive <;> cases additive <;> rfl

theorem paren_of_multiplicative {t : Token ν} {sign : Char}
    (multiplicative : multiplicative? t = some sign) : t.paren? = none := by
  unfold multiplicative? at multiplicative
  split at multiplicative <;> cases multiplicative <;> rfl

/-- What a call says it opens is what the tokens before it open. -/
theorem Calls.enters {p q : Level} {ts rest : List (Token ν)} {opened : Nat}
    (h : Calls p ts opened q rest) : Enters ts opened rest := by
  cases h with
  | firstProduct | firstSigned | unsigned | base | atom | sums | firstSum => exact .refl _
  | minus | plus | root => exact .plain rfl _
  | group => exact .opening _
  | call => exact (Enters.plain rfl _).trans (.opening _)
  | nextProduct before additive =>
    exact before.enters.trans (.plain (paren_of_additive additive) _)
  | nextSigned before _ multiplicative =>
    exact before.enters.trans (.plain (paren_of_multiplicative multiplicative) _)
  | nextPower before _ => exact before.enters
  | exponent before => exact before.enters.trans (.plain rfl _)
  | groupClosing before _ => exact (Enters.opening _).trans before.enters
  | nextSums before => exact before.enters.trans (.plain rfl _)
  | sumsClosing before _ _ => exact before.enters

/-- The levels that stand behind an opening parenthesis. -/
def Level.inside : Level → Bool
  | arguments | sums | closing => true
  | _ => false

theorem Calls.inside {p q : Level} {ts rest : List (Token ν)} {opened : Nat}
    (h : Calls p ts opened q rest) (inside : q.inside = true) : p.inside = true ∨ 0 < opened := by
  cases h with
  | call | group | groupClosing => exact .inr Nat.one_pos
  | sums | firstSum | nextSums | sumsClosing => exact .inl rfl
  | _ => cases inside

namespace Reached

variable {ts rest : List (Token ν)} {q : Level} {depth : Nat}

/-- The levels have open what the tokens read so far leave open. -/
theorem enters (h : Reached ts depth q rest) : Enters ts depth rest := by
  induction h with
  | start => exact .refl ts
  | call _ last ih => exact ih.trans last.enters

theorem inside (h : Reached ts depth q rest) (inside : q.inside = true) : 0 < depth := by
  induction h with
  | start => cases inside
  | call _ last ih =>
    rcases last.inside inside with behind | opens
    · exact Nat.add_pos_left (ih behind) _
    · exact Nat.add_pos_right _ opens

/-- A closing parenthesis is expected only after a whole sum. -/
theorem grip_closing (h : Reached ts depth .closing rest) : grip rest = 0 := by
  obtain _ | ⟨_, last⟩ := h
  cases last <;> assumption

end Reached

/-! Faults among balanced tokens. -/

theorem upcoming_of_grip {ts : List (Token ν)} (stop : grip ts = 0) (none : upcoming ts = none) :
    ts = [] := by
  rcases ts with _ | ⟨x | s | m, ts⟩
  · rfl
  · cases stop
  · cases stop
  · cases none

section

variable {ts : List (Token ν)} (balanced : depthAfter 0 (tokenParens ts) = some 0)

include balanced

theorem Reached.depth_eq_zero {q : Level} {depth : Nat} (h : Reached ts depth q []) : depth = 0 :=
  Option.some.inj (h.enters.depthAfter_rest balanced)

theorem not_failsAt_unclosed (depth : Nat) : ¬ FailsAt ts depth (.unclosed none) := by
  rintro ⟨q, rest, reached, raises⟩
  generalize fault : ReadFault.unclosed none = f at raises
  cases raises with
  | ended => cases fault
  | mark _ _ => cases fault
  | closing _ =>
    obtain rfl := upcoming_of_grip reached.grip_closing (ReadFault.unclosed.inj fault).symm
    have behind := reached.inside rfl
    have ended := reached.depth_eq_zero balanced
    omega

theorem depth_of_failsAt_unexpected {depth : Nat} (h : FailsAt ts depth (.unexpected none)) :
    depth = 0 := by
  obtain ⟨q, rest, reached, raises⟩ := h
  cases raises
  exact reached.depth_eq_zero balanced

/-- A sum of balanced tokens ends with them or at a comma. -/
theorem comma_of_trailing {t : Token ν} {rest : List (Token ν)} {e : Expr ν}
    (h : outcome (sum ts) = .ok (e, t :: rest)) : t = .mark .comma := by
  have ⟨isSum, stop⟩ := sum_sound h
  have left := isSum.enters.depthAfter_rest balanced
  rcases t with x | s | m
  · cases stop
  · cases stop
  · cases m
    case comma => rfl
    case closing => cases left
    case percent =>
      simp only [grip] at stop
      split at stop <;> cases stop
    all_goals cases stop

end

end Parse

mutual

/-- Of the faults of reading, compiling finds those of operators only. -/
theorem Expr.compile_error_read {f : ReadFault} :
    (e : Expr ν) → e.compile = .error (.read f) →
      ∃ sign, f = .unknownBinary sign ∨ f = .unknownUnary sign
  | .number _, h => by cases h
  | .name _, h => by cases h
  | .binary l sign r, h => by
    rcases bind_eq_error.mp h with inner | ⟨_, _, h⟩
    · exact compile_error_read l inner
    rcases bind_eq_error.mp h with inner | ⟨_, _, h⟩
    · exact compile_error_read r inner
    split at h <;> cases h
    exact ⟨sign, .inl rfl⟩
  | .unary sign e, h => by
    rcases bind_eq_error.mp h with inner | ⟨_, _, h⟩
    · exact compile_error_read e inner
    split at h <;> cases h
    exact ⟨sign, .inr rfl⟩
  | .call s es, h => by
    rcases bind_eq_error.mp h with missing | ⟨_, _, h⟩
    · unfold Builtin.find at missing
      simp only at missing
      split at missing
      · cases missing
      split at missing <;> cases missing
    rcases bind_eq_error.mp h with inner | ⟨_, _, h⟩
    · exact compileAll_error_read es inner
    · cases h

theorem Expr.compileAll_error_read {f : ReadFault} :
    (es : List (Expr ν)) → compileAll es = .error (.read f) →
      ∃ sign, f = .unknownBinary sign ∨ f = .unknownUnary sign
  | [], h => by cases h
  | e :: es, h => by
    rcases bind_eq_error.mp h with inner | ⟨_, _, h⟩
    · exact compile_error_read e inner
    rcases bind_eq_error.mp h with inner | ⟨_, _, h⟩
    · exact compileAll_error_read es inner
    · cases h

end

theorem parse_error_read {ts : List (Token ν)} {f : ReadFault} (h : parse ts = .error (.read f)) :
    f = .emptyExpression ∨ outcome (sum ts) = .error f ∨
      ∃ e t rest, outcome (sum ts) = .ok (e, t :: rest) ∧
        f = .unexpected (upcoming (t :: rest)) := by
  by_cases empty : ts = []
  · subst empty
    cases h
    exact .inl rfl
  · rw [parse_eq ts empty] at h
    split at h
    · rename_i unread
      cases h
      exact .inr (.inl unread)
    · cases h
    · rename_i trailing
      cases h
      exact .inr (.inr ⟨_, _, _, trailing, rfl⟩)

theorem parse_of_trailing {ts rest : List (Token ν)} {t : Token ν} {e : Expr ν}
    (h : outcome (sum ts) = .ok (e, t :: rest)) :
    parse ts = .error (.read (.unexpected (upcoming (t :: rest)))) := by
  have nonempty : ts ≠ [] := by
    rintro rfl
    exact absurd (outcome_bound h) (Nat.not_lt_zero _)
  rw [parse_eq ts nonempty, h]

/-- The faults of reading balanced tokens. All but one are found while the sum is read. -/
theorem evaluateTokens_error_read {ts : List (Token Float)} {mode : AngleMode} {f : ReadFault}
    (balanced : depthAfter 0 (tokenParens ts) = some 0)
    (h : evaluateTokens ts mode = .error (.read f)) :
    (∃ depth, FailsAt ts depth f) ∨ f = .unexpected (some .comma) ∨ f = .emptyExpression ∨
      ∃ sign, f = .unknownBinary sign ∨ f = .unknownUnary sign := by
  rcases bind_eq_error.mp h with unread | ⟨e, _, h⟩
  · obtain empty | found | ⟨_, _, _, trailing, found⟩ := parse_error_read unread
    · exact .inr (.inr (.inl empty))
    · exact .inl (sum_eq_error_iff.mp found)
    · obtain rfl := comma_of_trailing balanced trailing
      exact .inr (.inl found)
  rcases bind_eq_error.mp h with uncompiled | ⟨_, _, h⟩
  · exact .inr (.inr (.inr (e.compile_error_read uncompiled)))
  · cases h

/-- A normal form never lacks a closing parenthesis. Its tokens can end too early only outside all
parentheses, and a sum that ends before them can only end at a comma. -/
theorem evaluate_enclosed {text : String} {symbols : Symbols} {binding : Option (Binding Float)}
    {policy : ParenPolicy} {n : Normal Float}
    (h : normalize text symbols binding policy = .ok n) (mode : AngleMode) :
    n.evaluate mode ≠ .error (.read (.unclosed none)) ∧
      (n.evaluate mode = .error (.read (.unexpected none)) →
        FailsAt n.tokens 0 (.unexpected none)) ∧
      (∀ depth, FailsAt n.tokens depth (.unexpected none) → depth = 0) ∧
      ∀ e t rest, outcome (sum n.tokens) = .ok (e, t :: rest) →
        t = .mark .comma ∧ n.evaluate mode = .error (.read (.unexpected (some .comma))) := by
  have balanced := (depthAfter_normal h).1
  refine ⟨?_, ?_, fun depth => depth_of_failsAt_unexpected balanced, ?_⟩
  · intro failed
    obtain ⟨depth, found⟩ | other | other | ⟨_, other | other⟩ :=
      evaluateTokens_error_read balanced failed
    · exact not_failsAt_unclosed balanced depth found
    all_goals cases other
  · intro failed
    obtain ⟨depth, found⟩ | other | other | ⟨_, other | other⟩ :=
      evaluateTokens_error_read balanced failed
    · obtain rfl := depth_of_failsAt_unexpected balanced found
      exact found
    all_goals cases other
  · intro e t rest trailing
    obtain rfl := comma_of_trailing balanced trailing
    refine ⟨rfl, ?_⟩
    rw [Normal.evaluate, evaluateTokens, parse_of_trailing trailing]
    rfl

def pairThenStar : List (Token Float) :=
  [.mark .opening, .number 1, .mark .plus, .number 2, .mark .closing, .mark .star]

theorem failsAt_pairThenStar : FailsAt pairThenStar 0 (.unexpected none) := by
  have one : IsPower (ν := Float) [.number 1, .mark .plus, .number 2, .mark .closing, .mark .star]
      (.number 1) [.mark .plus, .number 2, .mark .closing, .mark .star] :=
    IsAtom.number.isPower rfl
  have two : IsPower (ν := Float) [.number 2, .mark .closing, .mark .star] (.number 2)
      [.mark .closing, .mark .star] :=
    IsAtom.number.isPower rfl
  have pair : IsProduct pairThenStar (.binary (.number 1) '+' (.number 2)) [.mark .star] :=
    ((IsAtom.group (.plus one.isSum two.isProduct)).isPower rfl).isProduct
  have factor : Reached pairThenStar 0 .signed [] :=
    (Reached.start.call .firstProduct).call (.nextSigned pair (Nat.le_refl 2) rfl)
  have missing : Reached pairThenStar 0 .atom [] :=
    ((factor.call (.unsigned nofun nofun)).call .base).call .atom
  exact ⟨.atom, [], missing, .ended⟩

theorem evaluate_enclosed_pairThenStar :
    normalize "(1+2)*" {} none .strict = .ok ⟨pairThenStar, 0⟩ ∧
      Normal.evaluate ⟨pairThenStar, 0⟩ .radian = .error (.read (.unexpected none)) ∧
      ∀ depth, FailsAt pairThenStar depth (.unexpected none) → depth = 0 := by
  have scanned : tokenize "(1+2)*" = .ok pairThenStar := by decide +kernel
  have balanced : depthAfter 0 (textParens "(1+2)*".toList) = some 0 := by decide +kernel
  have normal : normalize "(1+2)*" {} none .strict = .ok ⟨pairThenStar, 0⟩ :=
    normalizeWith_of_balanced balanced scanned
  have unread : outcome (sum pairThenStar) = .error (.unexpected none) :=
    sum_eq_error_iff.mpr ⟨0, failsAt_pairThenStar⟩
  have failed : Normal.evaluate ⟨pairThenStar, 0⟩ .radian =
      .error (.read (.unexpected none)) := by
    rw [Normal.evaluate, evaluateTokens, parse_eq _ (by simp [pairThenStar]), unread]
    rfl
  exact ⟨normal, failed, (evaluate_enclosed normal .radian).2.2.1⟩

end Reckoner
