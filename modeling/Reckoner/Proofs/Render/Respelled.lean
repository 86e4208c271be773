import Reckoner.Proofs.Normal.Depth
import Reckoner.Proofs.Parse.Context

/-! Two spellings of one expression. A number with a sign in parentheses may be spelled as a minus
sign before a number, and a function in another case. Both spellings are read alike, to trees of one
value. -/
namespace Reckoner

open Grammar Parse

/-- The second list spells the first one. Two stars come back as a power sign, but no expression has
two stars in a row. -/
inductive Respelled : List (Token Float) → List (Token Float) → Prop where
  | nil : Respelled [] []
  | number {x : Float} {ts us : List (Token Float)} : Respelled ts us →
      Respelled (.number x :: ts) (.number x :: us)
  | name {s s' : String} {ts us : List (Token Float)} : Builtin.named s = Builtin.named s' →
      Respelled ts us → Respelled (.name s :: ts) (.name s' :: us)
  | mark {m : Mark} {ts us : List (Token Float)} : Respelled ts us →
      Respelled (.mark m :: ts) (.mark m :: us)
  | stars {ts us : List (Token Float)} : Respelled ts us →
      Respelled (.mark .star :: .mark .star :: ts) (.mark .caret :: us)
  | signed {x y : Float} {ts us : List (Token Float)} : -y = x → Respelled ts us →
      Respelled (.mark .opening :: .number x :: .mark .closing :: ts)
        (.mark .opening :: .mark .minus :: .number y :: .mark .closing :: us)

namespace Respelled

variable {ts us : List (Token Float)}

theorem of_mark {m : Mark} (h : Respelled (.mark m :: ts) us) (notOpening : m ≠ .opening)
    (notStar : m ≠ .star) : ∃ us', us = .mark m :: us' ∧ Respelled ts us' := by
  cases h with
  | mark h => exact ⟨_, rfl, h⟩
  | stars h => exact absurd rfl notStar
  | signed same h => exact absurd rfl notOpening

theorem of_opening (h : Respelled (.mark .opening :: ts) us) :
    (∃ us', us = .mark .opening :: us' ∧ Respelled ts us') ∨
      ∃ x y ts' us', ts = .number x :: .mark .closing :: ts' ∧
        us = .mark .opening :: .mark .minus :: .number y :: .mark .closing :: us' ∧
        -y = x ∧ Respelled ts' us' := by
  cases h with
  | mark h => exact .inl ⟨_, rfl, h⟩
  | signed same h => exact .inr ⟨_, _, _, _, rfl, rfl, same, h⟩

theorem of_star (h : Respelled (.mark .star :: ts) us) (single : ∀ ts', ts ≠ .mark .star :: ts') :
    ∃ us', us = .mark .star :: us' ∧ Respelled ts us' := by
  cases h with
  | mark h => exact ⟨_, rfl, h⟩
  | stars h => exact absurd rfl (single _)

theorem startsOperand_eq (h : Respelled ts us) : startsOperand us = startsOperand ts := by
  cases h <;> rfl

theorem opens_eq (h : Respelled ts us) : opens us = opens ts := by
  cases h with
  | @mark m ts us h => cases m <;> rfl
  | _ => rfl

theorem markFollows_eq (h : Respelled ts us) : markFollows us = markFollows ts := by
  cases h with
  | @mark m ts us h => cases m <;> simp only [markFollows, h.startsOperand_eq]
  | _ => rfl

end Respelled

def Expr.SameValue (e e' : Expr Float) : Prop := ∀ mode, e'.value? mode = e.value? mode

def Expr.SameValues (es es' : List (Expr Float)) : Prop :=
  es'.length = es.length ∧ ∀ mode, Expr.values? mode es' = Expr.values? mode es

section

variable {e e' l l' r r' : Expr Float} {es es' : List (Expr Float)}

theorem Expr.SameValue.unary (h : SameValue e e') (sign : Char) :
    SameValue (.unary sign e) (.unary sign e') := fun mode => by
  simp only [value?, h mode]

theorem Expr.SameValue.binary (left : SameValue l l') (sign : Char) (right : SameValue r r') :
    SameValue (.binary l sign r) (.binary l' sign r') := fun mode => by
  simp only [value?, left mode, right mode]

theorem Expr.SameValues.nil : SameValues [] [] := ⟨rfl, fun _ => rfl⟩

theorem Expr.SameValues.cons (first : SameValue e e') (others : SameValues es es') :
    SameValues (e :: es) (e' :: es') := by
  refine ⟨congrArg (· + 1) others.1, fun mode => ?_⟩
  simp only [values?, first mode, others.2 mode]

/-- What a call means depends on the functions of its name and not on the name itself. -/
theorem Expr.value_call (mode : AngleMode) (s : String) (es : List (Expr Float)) :
    (call s es).value? mode = (values? mode es).bind fun xs =>
      ((Builtin.named s).lookup es.length).map fun f => f.apply mode xs := by
  rw [value?, Builtin.find]
  cases values? mode es with
  | none => rfl
  | some xs =>
    cases rows : Builtin.named s with
    | nil => rfl
    | cons row rest =>
      cases (row :: rest).lookup es.length <;> simp

theorem Expr.SameValues.call {s s' : String} (same : Builtin.named s = Builtin.named s')
    (h : SameValues es es') : SameValue (.call s es) (.call s' es') := fun mode => by
  rw [value_call, value_call, same, h.1, h.2 mode]

end

mutual

theorem Expr.compile_of_value {mode : AngleMode} : (e : Expr Float) → {v : Float} →
    e.value? mode = some v → ∃ code, e.compile = .ok code
  | .number x, _, _ => ⟨[.load x], rfl⟩
  | .name _, _, h => by cases h
  | .binary l sign r, _, h => by
    simp only [value?, Option.bind_eq_bind, Option.bind_eq_some_iff] at h
    obtain ⟨a, ha, b, hb, h⟩ := h
    obtain ⟨left, hl⟩ := compile_of_value l ha
    obtain ⟨right, hr⟩ := compile_of_value r hb
    simp only [compile, hl, hr, ok_bind]
    split at h <;> first | exact ⟨_, rfl⟩ | cases h
  | .unary sign e, _, h => by
    simp only [value?, Option.bind_eq_bind, Option.bind_eq_some_iff] at h
    obtain ⟨a, ha, h⟩ := h
    obtain ⟨inner, he⟩ := compile_of_value e ha
    simp only [compile, he, ok_bind]
    split at h <;> first | exact ⟨_, rfl⟩ | cases h
  | .call s es, _, h => by
    simp only [value?, Option.bind_eq_bind, Option.bind_eq_some_iff] at h
    obtain ⟨xs, hxs, h⟩ := h
    obtain ⟨inner, hes⟩ := compileAll_of_values es hxs
    split at h
    · rename_i f found
      exact ⟨_, by simp only [compile, found, hes, ok_bind]; rfl⟩
    · cases h

theorem Expr.compileAll_of_values {mode : AngleMode} : (es : List (Expr Float)) →
    {xs : List Float} → values? mode es = some xs → ∃ code, compileAll es = .ok code
  | [], _, _ => ⟨[], rfl⟩
  | e :: es, _, h => by
    simp only [values?, Option.bind_eq_bind, Option.bind_eq_some_iff] at h
    obtain ⟨x, hx, xs, hxs, h⟩ := h
    obtain ⟨first, he⟩ := compile_of_value e hx
    obtain ⟨others, hes⟩ := compileAll_of_values es hxs
    exact ⟨first ++ others, by simp only [compileAll, he, hes, ok_bind]⟩

end

namespace Grammar

/-- A phrase at the front of the second spelling, for one at the front of the first. -/
def Carried (phrase : Expr Float → List (Token Float) → Prop) (e : Expr Float)
    (rest : List (Token Float)) : Prop :=
  ∃ e' rest', phrase e' rest' ∧ Respelled rest rest' ∧ e.SameValue e'

section

variable {P Q : Expr Float → List (Token Float) → Prop} {e l r : Expr Float}
  {ts us mid rest : List (Token Float)} {sign : Char}

theorem Carried.imp (h : Carried P e rest) (weaker : ∀ {e rest}, P e rest → Q e rest) :
    Carried Q e rest := by
  obtain ⟨e', rest', phrase, respelled, same⟩ := h
  exact ⟨e', rest', weaker phrase, respelled, same⟩

theorem Carried.unary {m : Mark} (h : Carried P e (.mark m :: rest)) (notOpening : m ≠ .opening)
    (notStar : m ≠ .star)
    (marked : ∀ {e' rest'}, P e' (.mark m :: rest') → Respelled rest rest' →
      Q (.unary sign e') rest') : Carried Q (.unary sign e) rest := by
  obtain ⟨e', after, phrase, before, same⟩ := h
  obtain ⟨rest', rfl, respelled⟩ := before.of_mark notOpening notStar
  exact ⟨_, rest', marked phrase respelled, respelled, same.unary sign⟩

theorem Carried.binary {R : List (Token Float) → Expr Float → List (Token Float) → Prop} {m : Mark}
    (left : Carried P l (.mark m :: mid)) (notOpening : m ≠ .opening)
    (single : m = .star → ∀ ts, mid ≠ .mark .star :: ts)
    (right : ∀ {us}, Respelled mid us → Carried (R us) r rest)
    (join : ∀ {l' mid' r' rest'}, P l' (.mark m :: mid') → Respelled mid mid' →
      R mid' r' rest' → Q (.binary l' sign r') rest') : Carried Q (.binary l sign r) rest := by
  obtain ⟨l', after, before, respelled, sameLeft⟩ := left
  have ⟨mid', here, respelledMid⟩ : ∃ mid', after = .mark m :: mid' ∧ Respelled mid mid' := by
    by_cases star : m = .star
    · subst star
      exact respelled.of_star (single rfl)
    · exact respelled.of_mark notOpening star
  subst here
  obtain ⟨r', rest', next, respelledRest, sameRight⟩ := right respelledMid
  exact ⟨_, rest', join before respelledMid next, respelledRest, sameLeft.binary sign sameRight⟩

theorem not_isSigned_star {ts' : List (Token Float)} (h : IsSigned ts e rest) :
    ts ≠ .mark .star :: ts' := by
  rintro rfl
  cases h with
  | power h => cases startsOperand_of_isPower h

/-- A number before a closing parenthesis is a sum, and there is no other way to read it. -/
theorem isSum_number {x : Float} (h : IsSum (.number x :: .mark .closing :: ts) e rest)
    (stop : grip rest = 0) : e = .number x ∧ rest = .mark .closing :: ts := by
  have number : IsSum (.number x :: .mark .closing :: ts) (.number x) (.mark .closing :: ts) :=
    (IsAtom.number.isPower rfl).isSum
  have read := outcome_sum_eq_ok_iff.mpr ⟨h, stop⟩
  rw [outcome_sum_eq_ok_iff.mpr ⟨number, rfl⟩] at read
  cases read
  exact ⟨rfl, rfl⟩

theorem isArguments_number {x : Float} {es : List (Expr Float)}
    (h : IsArguments (.number x :: .mark .closing :: ts) es rest) :
    es = [.number x] ∧ rest = ts := by
  cases h with
  | some h =>
    cases h with
    | one h =>
      obtain ⟨rfl, same⟩ := isSum_number h rfl
      cases same
      exact ⟨rfl, rfl⟩
    | more h others =>
      have ⟨_, same⟩ := isSum_number h rfl
      cases same

theorem isSum_signed (y : Float) (us : List (Token Float)) :
    IsSum (.mark .minus :: .number y :: .mark .closing :: us) (.unary '-' (.number y))
      (.mark .closing :: us) :=
  .product (.signed (.minus (.power (IsAtom.number.isPower rfl))))

theorem sameValue_signed {x y : Float} (same : -y = x) :
    Expr.SameValue (.number x) (.unary '-' (.number y)) := fun mode => by
  rw [← same]
  rfl

end

mutual

theorem IsSum.respelled {ts us rest : List (Token Float)} {e : Expr Float} :
    IsSum ts e rest → Respelled ts us → Carried (IsSum us) e rest
  | .product h, s => (h.respelled s).imp .product
  | .plus before next, s => (before.respelled s).binary (by decide) (fun h => by cases h)
      next.respelled fun before' _ next' => .plus before' next'
  | .minus before next, s => (before.respelled s).binary (by decide) (fun h => by cases h)
      next.respelled fun before' _ next' => .minus before' next'

theorem IsProduct.respelled {ts us rest : List (Token Float)} {e : Expr Float} :
    IsProduct ts e rest → Respelled ts us → Carried (IsProduct us) e rest
  | .signed h, s => (h.respelled s).imp .signed
  | .star before next, s => (before.respelled s).binary (by decide)
      (fun _ _ => not_isSigned_star next)
      next.respelled fun before' _ next' => .star before' next'
  | .slash before next, s => (before.respelled s).binary (by decide) (fun h => by cases h)
      next.respelled fun before' _ next' => .slash before' next'
  | .percent before starts next, s => (before.respelled s).binary (by decide)
      (fun h => by cases h) next.respelled
      fun before' respelled next' =>
        .percent before' (respelled.startsOperand_eq.trans starts) next'
  | .juxtaposed before starts next, s => by
    obtain ⟨l', mid', before', respelled, left⟩ := before.respelled s
    obtain ⟨r', rest', next', respelled', right⟩ := next.respelled respelled
    have starts' := respelled.startsOperand_eq.trans starts
    exact ⟨_, rest', .juxtaposed before' starts' next', respelled', left.binary '*' right⟩

theorem IsSigned.respelled {ts us rest : List (Token Float)} {e : Expr Float} :
    IsSigned ts e rest → Respelled ts us → Carried (IsSigned us) e rest
  | .minus h, s => by
    obtain ⟨us', rfl, s'⟩ := s.of_mark (by decide) (by decide)
    obtain ⟨e', rest', h', respelled, same⟩ := h.respelled s'
    exact ⟨_, rest', .minus h', respelled, same.unary '-'⟩
  | .plus h, s => by
    obtain ⟨us', rfl, s'⟩ := s.of_mark (by decide) (by decide)
    exact (h.respelled s').imp .plus
  | .power h, s => (h.respelled s).imp .power

theorem IsPower.respelled {ts us rest : List (Token Float)} {e : Expr Float} :
    IsPower ts e rest → Respelled ts us → Carried (IsPower us) e rest
  | .operand h, s => (h.respelled s).imp .operand
  | .caret base exponent, s => (base.respelled s).binary (by decide) (fun h => by cases h)
      exponent.respelled fun base' _ exponent' => .caret base' exponent'

theorem IsOperand.respelled {ts us rest : List (Token Float)} {e : Expr Float} :
    IsOperand ts e rest → Respelled ts us → Carried (IsOperand us) e rest
  | .marked h noMark, s => by
    obtain ⟨e', rest', h', respelled, same⟩ := h.respelled s
    exact ⟨e', rest', .marked h' (respelled.markFollows_eq.trans noMark), respelled, same⟩

theorem IsMarked.respelled {ts us rest : List (Token Float)} {e : Expr Float} :
    IsMarked ts e rest → Respelled ts us → Carried (IsMarked us) e rest
  | .atom h, s => (h.respelled s).imp .atom
  | .bang h, s => (h.respelled s).unary (by decide) (by decide) fun h' _ => .bang h'
  | .percent h noOperand, s => (h.respelled s).unary (by decide) (by decide)
      fun h' respelled => .percent h' (respelled.startsOperand_eq.trans noOperand)

theorem IsAtom.respelled {ts us rest : List (Token Float)} {e : Expr Float} :
    IsAtom ts e rest → Respelled ts us → Carried (IsAtom us) e rest
  | .number, .number s => ⟨_, _, .number, s, fun _ => rfl⟩
  | .name notCalled, .name _ s =>
    ⟨_, _, .name (s.opens_eq.trans notCalled), s, fun _ => rfl⟩
  | .call h, .name same s => by
    rcases s.of_opening with ⟨us', rfl, s'⟩ | ⟨x, y, ts', us', rfl, rfl, sign, s'⟩
    · obtain ⟨es', rest', h', respelled, values⟩ := h.respelled s'
      exact ⟨_, rest', .call h', respelled, values.call same⟩
    · obtain ⟨rfl, rfl⟩ := isArguments_number h
      have value : Expr.SameValues _ _ := .cons (sameValue_signed sign) .nil
      exact ⟨_, us', .call (.some (.one (isSum_signed y us'))), s', value.call same⟩
  | .group h, s => by
    rcases s.of_opening with ⟨us', rfl, s'⟩ | ⟨x, y, ts', us', rfl, rfl, sign, s'⟩
    · obtain ⟨e', after, h', ended, same⟩ := h.respelled s'
      obtain ⟨rest', rfl, respelled⟩ := ended.of_mark (by decide) (by decide)
      exact ⟨e', rest', .group h', respelled, same⟩
    · obtain ⟨rfl, ended⟩ := isSum_number h rfl
      cases ended
      exact ⟨_, us', .group (isSum_signed y us'), s', sameValue_signed sign⟩
  | .root h, s => by
    obtain ⟨us', rfl, s'⟩ := s.of_mark (by decide) (by decide)
    obtain ⟨e', rest', h', respelled, same⟩ := h.respelled s'
    exact ⟨_, rest', .root h', respelled, Expr.SameValues.call rfl (.cons same .nil)⟩

theorem IsArguments.respelled {ts us rest : List (Token Float)} {es : List (Expr Float)} :
    IsArguments ts es rest → Respelled ts us →
      ∃ es' rest', IsArguments us es' rest' ∧ Respelled rest rest' ∧ Expr.SameValues es es'
  | .none, s => by
    obtain ⟨us', rfl, s'⟩ := s.of_mark (by decide) (by decide)
    exact ⟨[], us', .none, s', .nil⟩
  | .some h, s => by
    obtain ⟨es', after, h', ended, same⟩ := h.respelled s
    obtain ⟨rest', rfl, respelled⟩ := ended.of_mark (by decide) (by decide)
    exact ⟨es', rest', .some h', respelled, same⟩

theorem IsSums.respelled {ts us rest : List (Token Float)} {es : List (Expr Float)} :
    IsSums ts es rest → Respelled ts us →
      ∃ es' rest', IsSums us es' rest' ∧ Respelled rest rest' ∧ Expr.SameValues es es'
  | .one h, s => by
    obtain ⟨e', rest', h', respelled, same⟩ := h.respelled s
    exact ⟨[e'], rest', .one h', respelled, .cons same .nil⟩
  | .more h others, s => by
    obtain ⟨e', after, h', ended, first⟩ := h.respelled s
    obtain ⟨mid', rfl, s'⟩ := ended.of_mark (by decide) (by decide)
    obtain ⟨es', rest', others', respelled, same⟩ := others.respelled s'
    exact ⟨e' :: es', rest', .more h' others', respelled, .cons first same⟩

end

end Grammar

namespace Respelled

variable {ts us : List (Token Float)}

theorem parse_eq_ok {e : Expr Float} (h : Respelled ts us) (read : parse ts = .ok e) :
    ∃ e', parse us = .ok e' ∧ e.SameValue e' := by
  obtain ⟨e', rest', isSum, ended, same⟩ := (parse_eq_ok_iff_isSum.mp read).respelled h
  cases ended
  exact ⟨e', parse_eq_ok_iff_isSum.mpr isSum, same⟩

theorem evaluateTokens_eq_ok {mode : AngleMode} {v : Float} (h : Respelled ts us)
    (value : evaluateTokens ts mode = .ok v) : evaluateTokens us mode = .ok v := by
  obtain ⟨e, code, read, compiled, value⟩ := evaluateTokens_eq_ok_iff.mp value
  obtain ⟨e', read', same⟩ := h.parse_eq_ok read
  have value' := (same mode).trans value
  obtain ⟨code', compiled'⟩ := Expr.compile_of_value e' value'
  exact evaluateTokens_eq_ok_iff.mpr ⟨e', code', read', compiled', value'⟩

theorem tokenParens_eq (h : Respelled ts us) : tokenParens us = tokenParens ts := by
  induction h with
  | nil => rfl
  | number _ ih => exact ih
  | name _ _ ih => exact ih
  | mark _ ih => rw [tokenParens_cons, tokenParens_cons, ih]
  | stars _ ih => exact ih
  | signed _ _ ih => exact congrArg (fun ps => .opening :: .closing :: ps) ih

end Respelled

end Reckoner
