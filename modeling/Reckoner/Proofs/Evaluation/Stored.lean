import Reckoner.Proofs.Evaluation.Values

/-! Stored values and the structure of an expression. A value comes in for a name as a number or,
if it is negative, as a number in parentheses. Everywhere else these two are read alike, but after a
name that stays a name the parentheses make a call. So the sign of a value that stands right after
such a name decides whether that name is called, and nothing else of any value decides anything. -/
namespace Reckoner

open Grammar (IsAtom opens)
open Paren (depthAfter)

theorem Substitution.expand_append {ν μ : Type} (S : Substitution ν μ) (ts us : List (Token ν)) :
    S.expand (ts ++ us) = S.expand ts ++ S.expand us :=
  List.flatMap_append

namespace Symbols

def value? (s : Symbols) (name : String) : Option Float :=
  if name == "ANS" then some s.answer else s.named? name

def Keeps (s : Symbols) (name : String) : Prop :=
  s.value? name = none ∧ expressionConstant? name = none

def SameLetters (s s' : Symbols) : Prop := ∀ c, (s.get? c).isSome = (s'.get? c).isSome

theorem SameLetters.value_isSome {s s' : Symbols} (same : s.SameLetters s') (name : String) :
    (s.value? name).isSome = (s'.value? name).isSome := by
  unfold value? named?
  split
  · rfl
  split
  · split
    · exact same _
    · rfl
  · rfl

theorem SameLetters.keeps_iff {s s' : Symbols} (same : s.SameLetters s') {name : String} :
    s.Keeps name ↔ s'.Keeps name := by
  have stored := same.value_isSome name
  unfold Keeps
  rw [← Option.not_isSome_iff_eq_none (o := s.value? name), stored,
    Option.not_isSome_iff_eq_none]

end Symbols

namespace Normal

variable (s : Symbols) (wrapped : String → Bool)

/-- What stands for a name while the stored values are left open. Those of some names are put in
parentheses already. -/
def slot (called : Bool) (name : String) : List (Token (Float ⊕ String)) :=
  if (s.value? name).isSome then
    if wrapped name then inParens (.inr name) else [.number (.inr name)]
  else if called && Builtin.isName name then [.name name.toLower]
  else
    match expressionConstant? name with
    | some x => [.number (.inl x)]
    | none => [.name name]

def slots : List (Token Float) → List (Token (Float ⊕ String))
  | [] => []
  | .name t :: rest => slot s wrapped (isCalled rest) t ++ slots rest
  | .number x :: rest => .number (.inl x) :: slots rest
  | .mark m :: rest => .mark m :: slots rest

/-- The stored values, spelled out but for those of some names. -/
def stored (tied : String → Bool) : Substitution (Float ⊕ String) Float where
  block
    | .inl x => [.number x]
    | .inr t => if tied t then [.number ((s.value? t).getD 0)] else spelled id ((s.value? t).getD 0)
  tree
    | .inl x => .number x
    | .inr t => .number ((s.value? t).getD 0)
  stands
    | .inl x => .number x
    | .inr t => by
      dsimp only
      split
      · exact .number _
      · unfold spelled
        split
        · exact .group (IsAtom.number.isPower rfl).isSum
        · exact .number _

/-- Whether the value of a name has its parentheses in advance: it is negative, and they might make
a call. -/
def wrapsTied (tied : String → Bool) (name : String) : Bool :=
  tied name && decide ((s.value? name).getD 0 < 0)

theorem expand_slot_value (tied : String → Bool) {name : String} {x : Float}
    (h : s.value? name = some x) :
    (stored s tied).expand
        (if wrapsTied s tied name then inParens (.inr name) else [.number (.inr name)]) =
      spelled id x := by
  have block : (stored s tied).block (.inr name) =
      if tied name then [.number x] else spelled id x := by
    simp [stored, h]
  unfold wrapsTied
  cases isTied : tied name with
  | false => simp [block, isTied]
  | true => by_cases negative : x < 0 <;> simp [inParens, spelled, block, isTied, h, negative]

theorem replacement_unbound (called : Bool) (name : String) :
    replacement id s none called name =
      match s.value? name with
      | some x => spelled id x
      | none =>
        if called && Builtin.isName name then [.name name.toLower]
        else
          match expressionConstant? name with
          | some x => [.number x]
          | none => [.name name] := by
  unfold replacement Symbols.value?
  simp only [Option.filter_none]
  by_cases answer : (name == "ANS") = true
  · simp only [answer, if_true]
  · simp only [answer, Bool.false_eq_true, if_false]
    cases s.named? name with
    | some x => rfl
    | none =>
      cases expressionConstant? name <;> rfl

theorem replacement_eq_expand_slot (tied : String → Bool) (called : Bool) (name : String) :
    replacement id s none called name =
      (stored s tied).expand (slot s (wrapsTied s tied) called name) := by
  rw [replacement_unbound, slot]
  cases value : s.value? name with
  | some x => exact (expand_slot_value s tied value).symm
  | none =>
    simp only [Option.isSome_none, Bool.false_eq_true, if_false]
    split
    · rfl
    · cases expressionConstant? name <;> rfl

theorem replaceNames_eq_expand_slots (tied : String → Bool) (ts : List (Token Float)) :
    replaceNames id s none ts = (stored s tied).expand (slots s (wrapsTied s tied) ts) := by
  fun_induction replaceNames id s (none : Option (Binding Float)) ts with
  | case1 => rfl
  | case2 t rest ih =>
    rw [slots, Substitution.expand_append, ih, replacement_eq_expand_slot s tied]
  | case3 x rest ih => exact congrArg (List.cons _) ih
  | case4 m rest ih => exact congrArg (List.cons _) ih

theorem isCalled_eq_true_iff {ts : List (Token Float)} :
    isCalled ts = true ↔ ∃ rest, ts = .mark .opening :: rest := by
  unfold isCalled
  split <;> simp_all

theorem slots_eq_number {ts : List (Token Float)} {k after : List (Token (Float ⊕ String))}
    {x : Float ⊕ String} (marks : ∀ t ∈ k, ∃ m, t = .mark m)
    (h : slots s wrapped ts ++ k = .number x :: after) :
    (∃ y, x = .inl y) ∨ ∃ t rest, ts = .name t :: rest ∧ x = .inr t := by
  rcases ts with _ | ⟨y | t | m, rest⟩
  · obtain ⟨m, same⟩ := marks (.number x) (by rw [show k = _ from h]; exact .head _)
    cases same
  · cases h
    exact .inl ⟨y, rfl⟩
  · rw [slots, slot] at h
    split at h
    · split at h
      · cases h
      · cases h
        exact .inr ⟨t, rest, rfl, rfl⟩
    split at h
    · cases h
    split at h
    · cases h
      exact .inl ⟨_, rfl⟩
    · cases h
  · cases h

/-- The values that stand right after a name that stays. -/
def Follows (ts : List (Token Float)) (name : String) : Prop :=
  ∃ before, [.name before, .name name] <:+: ts ∧ s.Keeps before

theorem Follows.cons {s : Symbols} {ts : List (Token Float)} {name : String}
    (h : Follows s ts name) (t : Token Float) : Follows s (t :: ts) name :=
  h.imp fun _ h => ⟨h.1.trans (List.suffix_cons t ts).isInfix, h.2⟩

theorem Follows.of_sameLetters {s s' : Symbols} {ts : List (Token Float)} {name : String}
    (h : Follows s' ts name) (same : s.SameLetters s') : Follows s ts name :=
  h.imp fun _ h => ⟨h.1, same.keeps_iff.mpr h.2⟩

/-- With the parentheses of these values in advance, none are left to come in after a name. -/
theorem apart_slots {tied : String → Bool} {k : List (Token (Float ⊕ String))}
    (marks : ∀ t ∈ k, ∃ m, t = .mark m) {ts : List (Token Float)}
    (follows : ∀ t, Follows s ts t → tied t = true) :
    (stored s tied).Apart (slots s wrapped ts ++ k) := by
  induction ts with
  | nil =>
    rintro before u x after rfl
    obtain ⟨m, same⟩ := marks (.name u) (by simp)
    cases same
  | cons t rest ih =>
    have apart := ih fun t h => follows t (h.cons _)
    rcases t with x | t | m
    case number => exact apart.number _
    case mark => exact apart.mark m
    rw [slots, slot]
    split
    case isTrue =>
      split
      · exact ((apart.mark .closing).number _).mark .opening
      · exact apart.number _
    rename_i unnamed
    split
    · rename_i called
      obtain ⟨rest', rfl⟩ := isCalled_eq_true_iff.mp (Bool.and_eq_true_iff.mp called).1
      exact .cons (fun _ _ _ _ h => by cases h) apart
    cases constant : expressionConstant? t with
    | some c => exact apart.number _
    | none =>
      -- The name stays, so what comes next must not bring a parenthesis.
      refine .cons (fun _ x after _ h => ?_) apart
      rcases slots_eq_number s wrapped marks h with ⟨y, rfl⟩ | ⟨u, rest', rfl, rfl⟩
      · rfl
      · have isTied : tied u = true :=
          follows u ⟨t, ⟨[], rest', rfl⟩, by simpa using unnamed, constant⟩
        simp [stored, isTied, opens]

theorem verdict_replaceNames {tied : String → Bool} {ts : List (Token Float)}
    (follows : ∀ t, Follows s ts t → tied t = true) (k : Nat) (mode : AngleMode) :
    verdict (evaluateTokens (replaceNames id s none ts ++
        List.replicate k (.mark .closing)) mode) =
      verdict (parse (slots s (wrapsTied s tied) ts ++ List.replicate k (.mark .closing)) >>=
        Expr.compile) := by
  have closings : (stored s tied).expand (List.replicate k (.mark .closing)) =
      List.replicate k (.mark .closing) := by
    induction k with
    | zero => rfl
    | succ k ih => rw [List.replicate_succ, Substitution.expand_mark, ih, ← List.replicate_succ]
  have apart := apart_slots s (wrapsTied s tied) (k := List.replicate k (.mark .closing))
    (fun t h => ⟨.closing, List.eq_of_mem_replicate h⟩) follows
  have numeric (x : Float ⊕ String) : (stored s tied).tree x =
      .number (x.elim id fun t => (s.value? t).getD 0) := by
    cases x <;> rfl
  rw [replaceNames_eq_expand_slots s tied, ← closings, ← Substitution.expand_append,
    Substitution.evaluateTokens_expand numeric apart, verdict_map]

theorem slots_congr {s s' : Symbols} {wrapped wrapped' : String → Bool} {ts : List (Token Float)}
    (same : s.SameLetters s')
    (agree : ∀ t, Token.name t ∈ ts → (s.value? t).isSome → wrapped t = wrapped' t) :
    slots s wrapped ts = slots s' wrapped' ts := by
  induction ts with
  | nil => rfl
  | cons t rest ih =>
    have rest_eq := ih fun t h => agree t (.tail _ h)
    rcases t with x | t | m
    · exact congrArg (List.cons _) rest_eq
    · rw [slots, slots, rest_eq, slot, slot, ← same.value_isSome]
      split
      · rename_i stored
        rw [agree t (.head _) stored]
      · rfl
    · exact congrArg (List.cons _) rest_eq

end Normal

/-- Whether each value that stands right after a name that stays has one sign in both tables. -/
def Symbols.SameSigns (s s' : Symbols) (ts : List (Token Float)) : Prop :=
  ∀ t, Normal.Follows s ts t → ∀ x x', s.value? t = some x → s'.value? t = some x' →
    (x < 0 ↔ x' < 0)

theorem Normal.verdict_replaceNames_congr {s s' : Symbols} (same : s.SameLetters s')
    {ts : List (Token Float)} (signs : s.SameSigns s' ts) (k : Nat) (mode : AngleMode) :
    verdict (evaluateTokens (replaceNames id s none ts ++ List.replicate k (.mark .closing)) mode) =
      verdict (evaluateTokens (replaceNames id s' none ts ++ List.replicate k (.mark .closing))
        mode) := by
  classical
  -- One choice for both tables: in advance are the parentheses of what follows a name that stays.
  have follows (t : String) (h : Follows s ts t) : decide (Follows s ts t) = true :=
    decide_eq_true h
  have follows' (t : String) (h : Follows s' ts t) : decide (Follows s ts t) = true :=
    decide_eq_true (h.of_sameLetters same)
  have wraps (t : String) (present : (s.value? t).isSome) :
      wrapsTied s (fun t => decide (Follows s ts t)) t =
        wrapsTied s' (fun t => decide (Follows s ts t)) t := by
    obtain ⟨x, value⟩ := Option.isSome_iff_exists.mp present
    obtain ⟨x', value'⟩ := Option.isSome_iff_exists.mp (same.value_isSome t ▸ present)
    by_cases follows : Follows s ts t
    · have sign := signs t follows x x' value value'
      simp only [wrapsTied, value, value', Option.getD_some, sign]
    · simp only [wrapsTied, follows, decide_false, Bool.false_and]
  rw [verdict_replaceNames s follows, verdict_replaceNames s' follows',
    slots_congr same fun t _ => wraps t]

/-- Stored values do not decide whether a text has a value, nor the error if it has none. One sign
is the exception, that of a value right after a name that is neither a value nor a constant: the
parentheses of a negative value call that name. -/
theorem verdict_evaluateText {text : String} {s s' : Symbols} (same : s.SameLetters s')
    (signs : ∀ ts, tokenize text = .ok ts → s.SameSigns s' ts) (mode : AngleMode)
    (policy : ParenPolicy) :
    verdict (evaluateText text s mode policy) = verdict (evaluateText text s' mode policy) := by
  simp only [evaluateText, normalize, normalizeWith_eq]
  split
  · rfl
  split
  · rfl
  split
  · rfl
  · exact Normal.verdict_replaceNames_congr same (signs _ ‹_›) _ mode

def twiceAnswer : List (Token Float) := [.number 2, .name "ANS"]

theorem verdict_evaluateText_twiceAnswer :
    (-3 : Float) < 0 ∧ ¬(3 : Float) < 0 ∧
      verdict (evaluateText "2ANS" { lastAnswer := some 3 } .radian .strict) =
        verdict (evaluateText "2ANS" { lastAnswer := some (-3) } .radian .strict) := by
  have same : Symbols.SameLetters { lastAnswer := some 3 } { lastAnswer := some (-3) } :=
    fun _ => rfl
  refine ⟨by decide +kernel, by decide +kernel, verdict_evaluateText same ?_ _ _⟩
  intro ts scanned t ⟨u, adjacent, _⟩
  have tokens : tokenize "2ANS" = .ok twiceAnswer := by decide +kernel
  cases tokens.symm.trans scanned
  obtain ⟨before, after, h⟩ := adjacent
  rcases before with _ | ⟨_, _ | ⟨_, _ | _⟩⟩ <;> cases h

def absOfAnswer : List (Token Float) := [.name "abs", .name "ANS"]

/-- A name before the answer is read as a call if the answer is negative, and only then. -/
theorem evaluateText_absOfAnswer :
    evaluateText "abs ANS" { lastAnswer := some 3 } .radian .repair =
        .error (.unknownIdentifier "abs") ∧
      evaluateText "abs ANS" { lastAnswer := some (-3) } .radian .repair = .ok 3 := by
  have scanned : tokenize "abs ANS" = .ok absOfAnswer := by decide +kernel
  have balanced : depthAfter 0 (textParens "abs ANS".toList) = some 0 := by decide +kernel
  have positive : Normal.replaceNames id { lastAnswer := some 3 } none absOfAnswer =
      [.name "abs", .number 3] := by decide +kernel
  have negative : Normal.replaceNames id { lastAnswer := some (-3) } none absOfAnswer =
      .name "abs" :: Normal.inParens (-3) := by decide +kernel
  have product : parse [.name "abs", .number (3 : Float)] =
      .ok (.binary (.name "abs") '*' (.number 3)) :=
    parse_eq_ok_iff_isSum.mpr (.product (.juxtaposed ((IsAtom.name rfl).isPower rfl).isProduct rfl
      (IsAtom.number.isPower rfl)))
  have call : parse (.name "abs" :: Normal.inParens (-3 : Float)) =
      .ok (.call "abs" [.number (-3)]) :=
    parse_eq_ok_iff_isSum.mpr
      ((IsAtom.call (.some (.one (IsAtom.number.isPower rfl).isSum))).isPower rfl).isSum
  have unknown : (Expr.binary (.name "abs") '*' (.number (3 : Float))).compile =
      .error (.unknownIdentifier "abs") := by decide +kernel
  have called : (Expr.call "abs" [.number (-3 : Float)]).compile =
      .ok [.load (-3), .call .abs 1] := by decide +kernel
  constructor
  · rw [evaluateText, normalize, normalizeWith_of_balanced balanced scanned, ok_bind, positive,
      Normal.evaluate, evaluateTokens, product, ok_bind, unknown, error_bind]
  · rw [evaluateText, normalize, normalizeWith_of_balanced balanced scanned, ok_bind, negative,
      Normal.evaluate, evaluateTokens, call, ok_bind, called, ok_bind]
    decide +kernel

end Reckoner
