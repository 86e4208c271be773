import Reckoner.Proofs.Evaluation.Stored
import Reckoner.Proofs.Normal.Balance
import Reckoner.Proofs.Render.Respelled
import Reckoner.Proofs.Render.Scan

/-! A normalized expression as text. Its text is a second spelling of its tokens, so it has the same
value, as long as every number with a sign stands in parentheses. -/
namespace Reckoner

open Binary (IsUnsigned IsNegativeZero)
open Paren (depthAfter)

structure IsSettled (name : String) : Prop where
  scanned : Scan.isName name.toList = true
  notAnswer : name ≠ "ANS"
  notConstant : expressionConstant? name = none

/-- Whether every number with a sign stands in parentheses of its own. -/
inductive Enclosed : List (Token Float) → Prop where
  | nil : Enclosed []
  | number {x : Float} {ts : List (Token Float)} : IsUnsigned x → Enclosed ts →
      Enclosed (.number x :: ts)
  | name {s : String} {ts : List (Token Float)} : IsSettled s → Enclosed ts →
      Enclosed (.name s :: ts)
  | mark {m : Mark} {ts : List (Token Float)} : Enclosed ts → Enclosed (.mark m :: ts)
  | group {x : Float} {ts : List (Token Float)} : Enclosed ts →
      Enclosed (.mark .opening :: .number x :: .mark .closing :: ts)

theorem Enclosed.append {ts us : List (Token Float)} (hts : Enclosed ts) (hus : Enclosed us) :
    Enclosed (ts ++ us) := by
  induction hts with
  | nil => exact hus
  | number unsigned _ ih => exact .number unsigned ih
  | name settled _ ih => exact .name settled ih
  | mark _ ih => exact .mark ih
  | group _ ih => exact .group ih

theorem enclosed_closings (k : Nat) : Enclosed (List.replicate k (.mark .closing)) := by
  induction k with
  | zero => exact .nil
  | succ k ih => exact .mark ih

theorem isSettled_catalogue :
    ∀ row ∈ Builtin.catalogue, row.1.toLower = row.1 ∧ IsSettled row.1 := by
  have settled : ∀ row ∈ Builtin.catalogue, row.1.toLower = row.1 ∧
      Scan.isName row.1.toList = true ∧ row.1 ≠ "ANS" ∧ (expressionConstant? row.1).isNone := by
    decide +kernel
  intro row h
  obtain ⟨lower, scanned, notAnswer, notConstant⟩ := settled row h
  exact ⟨lower, scanned, notAnswer, Option.isNone_iff_eq_none.mp notConstant⟩

theorem catalogue_of_isName {name : String} (h : Builtin.isName name = true) :
    ∃ row ∈ Builtin.catalogue, row.1 = name.toLower := by
  have rows : Builtin.named name ≠ [] := by simpa [Builtin.isName] using h
  obtain ⟨f, found⟩ := List.exists_mem_of_ne_nil _ rows
  obtain ⟨row, listed, _⟩ := List.mem_map.mp found
  have ⟨member, same⟩ := List.mem_filter.mp listed
  exact ⟨row, member, by simpa using same⟩

theorem isSettled_toLower {name : String} (h : Builtin.isName name = true) :
    name.toLower.toLower = name.toLower ∧ IsSettled name.toLower := by
  obtain ⟨row, mem, same⟩ := catalogue_of_isName h
  rw [← same]
  exact isSettled_catalogue row mem

def Token.IsScanned : Token Float → Prop
  | .number x => IsUnsigned x
  | .name s => Scan.isName s.toList = true ∨ ∃ x, expressionConstant? s = some x
  | .mark _ => True

theorem Scan.isScanned_lexeme {c : Char} {cs rest : List Char} {t : Token Float}
    (notBlank : ¬Text.isBlank c = true) (h : lexeme c cs = .ok (t, rest)) : t.IsScanned := by
  unfold lexeme at h
  split at h
  · simp only [numeral] at h
    split at h
    · rename_i x read
      cases h
      exact Binary.isUnsigned_literal read
    · cases h
  rename_i notLiteral
  split at h
  · rename_i symbol
    cases h
    simp only [isSymbol, Bool.or_eq_true, beq_iff_eq] at symbol
    rcases symbol with rfl | rfl
    · exact .inr ⟨_, rfl⟩
    · exact .inr ⟨_, rfl⟩
  rename_i notSymbol
  split at h
  · rename_i starts
    cases h
    refine .inl ?_
    simp only [Bool.not_eq_true] at notBlank notLiteral notSymbol
    rw [String.toList_ofList, isName, notBlank, notLiteral, notSymbol, starts, List.all_takeWhile]
    rfl
  split at h
  · split at h <;> cases h <;> trivial
  · cases h
    trivial
  · cases h

theorem Scan.isScanned_tokens {cs : List Char} {ts : List (Token Float)} (h : tokens cs = .ok ts) :
    ∀ t ∈ ts, t.IsScanned := by
  fun_induction tokens cs generalizing ts with
  | case1 =>
    cases h
    exact fun _ none => by cases none
  | case2 c cs blank ih => exact ih h
  | case3 c cs notBlank t rest first _ us others ih =>
    cases h
    intro u member
    rcases List.mem_cons.mp member with rfl | member
    · exact isScanned_lexeme notBlank first
    · exact ih others u member
  | case4 => cases h
  | case5 => cases h

section

variable {symbols : Symbols} {binding : Option (Binding Float)}

/-- Whether no stored value that comes in for a name of these tokens is the negative zero. -/
def Symbols.NoNegativeZero (symbols : Symbols) (binding : Option (Binding Float))
    (ts : List (Token Float)) : Prop :=
  ∀ name x, Token.name name ∈ ts → (∀ b ∈ binding, b.name ≠ name) →
    symbols.value? name = some x → ¬IsNegativeZero x

theorem enclosed_spelled {x : Float} (notZero : ¬IsNegativeZero x) :
    Enclosed (Normal.spelled id x) := by
  unfold Normal.spelled
  split
  · exact .group .nil
  · rename_i notNegative
    exact .number (Binary.isUnsigned_of_not_lt notNegative notZero) .nil

theorem enclosed_replacement {called : Bool} {name : String}
    (scanned : (Token.name name).IsScanned)
    (notZero : (∀ b ∈ binding, b.name ≠ name) → ∀ x, symbols.value? name = some x →
      ¬IsNegativeZero x) :
    Enclosed (Normal.replacement id symbols binding called name) := by
  cases bound : binding.filter (·.name == name) with
  | some b =>
    rw [Normal.replacement, bound]
    exact .group .nil
  | none =>
    have unbound : Normal.replacement id symbols binding called name =
        Normal.replacement id symbols none called name := by
      rw [Normal.replacement, Normal.replacement, bound]
      rfl
    have other : ∀ b ∈ binding, b.name ≠ name := by
      intro b mem same
      have kept := Option.filter_eq_none_iff.mp bound b mem
      exact kept (beq_iff_eq.mpr same)
    rw [unbound, Normal.replacement_unbound]
    cases value : symbols.value? name with
    | some x => exact enclosed_spelled (notZero other x value)
    | none =>
      dsimp only
      split
      · rename_i call
        exact .name (isSettled_toLower (Bool.and_eq_true_iff.mp call).2).2 .nil
      cases constant : expressionConstant? name with
      | some x => exact .number (Binary.isUnsigned_constant constant) .nil
      | none =>
        refine .name ⟨?_, ?_, constant⟩ .nil
        · rcases scanned with isName | ⟨x, isConstant⟩
          · exact isName
          · cases constant.symm.trans isConstant
        · rintro rfl
          cases value

theorem Symbols.NoNegativeZero.of_cons {t : Token Float} {ts : List (Token Float)}
    (h : symbols.NoNegativeZero binding (t :: ts)) : symbols.NoNegativeZero binding ts :=
  fun name x member => h name x (.tail t member)

theorem enclosed_replaceNames {ts : List (Token Float)} (scanned : ∀ t ∈ ts, t.IsScanned)
    (stored : symbols.NoNegativeZero binding ts) :
    Enclosed (Normal.replaceNames id symbols binding ts) := by
  fun_induction Normal.replaceNames id symbols binding ts with
  | case1 => exact .nil
  | case2 name rest ih =>
    obtain ⟨first, others⟩ := List.forall_mem_cons.mp scanned
    have here : Enclosed (Normal.replacement id symbols binding (Normal.isCalled rest) name) :=
      enclosed_replacement first fun other x => stored name x (.head rest) other
    exact here.append (ih others stored.of_cons)
  | case3 x rest ih =>
    obtain ⟨first, others⟩ := List.forall_mem_cons.mp scanned
    exact .number first (ih others stored.of_cons)
  | case4 m rest ih =>
    obtain ⟨_, others⟩ := List.forall_mem_cons.mp scanned
    exact .mark (ih others stored.of_cons)

theorem enclosed_normal {text : String} {policy : ParenPolicy} {n : Normal Float}
    (normal : normalize text symbols binding policy = .ok n)
    (stored : ∀ ts, tokenize text = .ok ts → symbols.NoNegativeZero binding ts) :
    Enclosed n.tokens := by
  obtain ⟨ts, scanned, _, _, tokens⟩ := normalizeWith_ok normal
  rw [tokens]
  have replaced := enclosed_replaceNames (Scan.isScanned_tokens scanned) (stored ts scanned)
  exact replaced.append (enclosed_closings n.repaired)

end

theorem named_toLower {name : String} (h : Builtin.isName name = true) :
    Builtin.named name.toLower = Builtin.named name := by
  unfold Builtin.named
  rw [(isSettled_toLower h).1]

theorem replacement_settled {name : String} (settled : IsSettled name) (called : Bool) :
    ∃ name', Normal.replacement id {} none called name = [.name name'] ∧
      Builtin.named name = Builtin.named name' := by
  have notStored : ({} : Symbols).value? name = none := by
    rw [Symbols.value?, if_neg (by simpa using settled.notAnswer), Symbols.named?]
    split
    · split <;> rfl
    · rfl
  rw [Normal.replacement_unbound, notStored]
  dsimp only
  split
  · rename_i call
    exact ⟨_, rfl, (named_toLower (Bool.and_eq_true_iff.mp call).2).symm⟩
  · rw [settled.notConstant]
    exact ⟨name, rfl, rfl⟩

/-- Whether the text of some tokens, scanned and with its names replaced, spells those tokens. -/
def Rereads (ts : List (Token Float)) : Prop :=
  ∃ us, Scan.tokens (renderTokens ts).toList = .ok us ∧
    Respelled ts (Normal.replaceNames id {} none us)

namespace Rereads

variable {ts : List (Token Float)}

theorem nil : Rereads [] := ⟨[], Scan.tokens_nil, .nil⟩

theorem tokens_mark {m : Mark} (notStar : m ≠ .star) {us : List (Token Float)}
    (scanned : Scan.tokens (renderTokens ts).toList = .ok us) :
    Scan.tokens (renderTokens (.mark m :: ts)).toList = .ok (.mark m :: us) := by
  obtain ⟨c, text, sign⟩ := Scan.isSign_text m
  rw [renderTokens_cons, Token.text, text, textAfter_mark]
  change Scan.tokens (c :: (renderTokens ts).toList) = _
  rw [Scan.tokens_sign sign notStar, scanned]
  rfl

theorem mark {m : Mark} (notStar : m ≠ .star) (h : Rereads ts) : Rereads (.mark m :: ts) := by
  obtain ⟨us, scanned, respelled⟩ := h
  exact ⟨.mark m :: us, tokens_mark notStar scanned, .mark respelled⟩

theorem star (single : (renderTokens ts).toList.head? ≠ some '*') (h : Rereads ts) :
    Rereads (.mark .star :: ts) := by
  obtain ⟨us, scanned, respelled⟩ := h
  refine ⟨.mark .star :: us, ?_, .mark respelled⟩
  rw [renderTokens_cons]
  change Scan.tokens ('*' :: (renderTokens ts).toList) = _
  rw [Scan.tokens_star single, scanned]
  rfl

theorem stars (h : Rereads ts) : Rereads (.mark .star :: .mark .star :: ts) := by
  obtain ⟨us, scanned, respelled⟩ := h
  refine ⟨.mark .caret :: us, ?_, .stars respelled⟩
  rw [renderTokens_cons, textAfter_mark, renderTokens_cons]
  change Scan.tokens ('*' :: '*' :: (renderTokens ts).toList) = _
  rw [Scan.tokens_stars, scanned]
  rfl

theorem number {x : Float} (unsigned : IsUnsigned x) (finite : x.isFinite = true)
    (back : Decimal.ReadsBack x) (h : Rereads ts) : Rereads (.number x :: ts) := by
  obtain ⟨us, scanned, respelled⟩ := h
  obtain ⟨digits, y, literal, read, ⟨rfl, text⟩ | ⟨_, signed, _⟩⟩ := Token.number_text finite back
  · refine ⟨.number y :: us, ?_, .number respelled⟩
    rw [renderTokens_cons, text, Scan.tokens_number literal read (breaks_textAfter rfl ts),
      tokens_textAfter, scanned]
    rfl
  · exact absurd unsigned signed

theorem name {s : String} (settled : IsSettled s) (h : Rereads ts) : Rereads (.name s :: ts) := by
  obtain ⟨us, scanned, respelled⟩ := h
  obtain ⟨s', replaced, same⟩ := replacement_settled settled (Normal.isCalled us)
  refine ⟨.name s :: us, ?_, ?_⟩
  · rw [renderTokens_cons, Token.text, Scan.tokens_name settled.scanned (breaks_textAfter rfl ts),
      tokens_textAfter, scanned, String.ofList_toList]
    rfl
  · rw [Normal.replaceNames, replaced]
    exact .name same respelled

theorem group {x : Float} (finite : x.isFinite = true) (back : Decimal.ReadsBack x)
    (h : Rereads ts) : Rereads (.mark .opening :: .number x :: .mark .closing :: ts) := by
  -- Without a sign these are three tokens like any others. With one, the text has a fourth.
  by_cases unsigned : IsUnsigned x
  · exact mark (by decide) (number unsigned finite back (mark (by decide) h))
  obtain ⟨us, scanned, respelled⟩ := h
  obtain ⟨digits, y, literal, read, ⟨rfl, text⟩ | ⟨same, _, text⟩⟩ := Token.number_text finite back
  · exact absurd (Binary.isUnsigned_literal read) unsigned
  · have closed := tokens_mark (m := .closing) (by decide) scanned
    have signed : Scan.tokens (renderTokens (.number x :: .mark .closing :: ts)).toList =
        .ok (.mark .minus :: .number y :: .mark .closing :: us) := by
      rw [renderTokens_cons, text, List.cons_append,
        Scan.tokens_sign Scan.isSign_minus (by decide),
        Scan.tokens_number literal read (breaks_textAfter rfl _), tokens_textAfter, closed]
      rfl
    exact ⟨_, tokens_mark (by decide) signed, .signed same respelled⟩

end Rereads

def Readable (ts : List (Token Float)) : Prop :=
  ∀ x, .number x ∈ ts → x.isFinite = true ∧ Decimal.ReadsBack x

theorem Readable.of_cons {t : Token Float} {ts : List (Token Float)} (h : Readable (t :: ts)) :
    Readable ts :=
  fun x member => h x (.tail t member)

theorem renderTokens_star {ts : List (Token Float)} (enclosed : Enclosed ts)
    (readable : Readable ts) (first : (renderTokens ts).toList.head? = some '*') :
    ∃ us, ts = .mark .star :: us := by
  cases enclosed with
  | nil => cases first
  | @number x ts unsigned _ =>
    have ⟨finite, back⟩ := readable x (.head _)
    obtain ⟨digits, y, literal, read, ⟨_, text⟩ | ⟨_, signed, _⟩⟩ := Token.number_text finite back
    · rcases digits with _ | ⟨c, digits⟩
      · cases read
      · rw [renderTokens_cons, text] at first
        cases first
        cases literal '*' (.head _)
    · exact absurd unsigned signed
  | @name s ts settled _ =>
    have isName := settled.scanned
    rw [renderTokens_cons, Token.text] at first
    cases chars : s.toList with
    | nil =>
      rw [chars] at isName
      cases isName
    | cons c cs =>
      rw [chars] at isName first
      cases first
      cases isName
  | @mark m ts _ =>
    obtain ⟨c, text, sign⟩ := Scan.isSign_text m
    rw [renderTokens_cons, Token.text, text] at first
    cases first
    cases sign.punctuation
    exact ⟨ts, rfl⟩
  | group _ =>
    rw [renderTokens_cons] at first
    cases first

/-- Tokens with every sign in parentheses are read back from their text. For a star it matters
whether a second one follows, so the tokens after a star come along. -/
theorem rereads {ts : List (Token Float)} (enclosed : Enclosed ts) (readable : Readable ts) :
    Rereads ts ∧ ∀ us, ts = .mark .star :: us → Rereads us := by
  induction enclosed with
  | nil => exact ⟨.nil, fun us same => by cases same⟩
  | @number x ts unsigned _ ih =>
    have ⟨h, _⟩ := ih readable.of_cons
    have ⟨finite, back⟩ := readable x (.head _)
    exact ⟨.number unsigned finite back h, fun us same => by cases same⟩
  | @name s ts settled _ ih =>
    have ⟨h, _⟩ := ih readable.of_cons
    exact ⟨.name settled h, fun us same => by cases same⟩
  | @mark m ts enclosed ih =>
    have ⟨h, afterStar⟩ := ih readable.of_cons
    refine ⟨?_, fun us same => by cases same; exact h⟩
    by_cases isStar : m = .star
    · subst isStar
      by_cases first : (renderTokens ts).toList.head? = some '*'
      · obtain ⟨us, rfl⟩ := renderTokens_star enclosed readable.of_cons first
        exact .stars (afterStar us rfl)
      · exact .star first h
    · exact .mark isStar h
  | @group x ts _ ih =>
    have ⟨h, _⟩ := ih readable.of_cons.of_cons.of_cons
    have ⟨finite, back⟩ := readable x (.tail _ (.head _))
    exact ⟨.group finite back h, fun us same => by cases same⟩

/-- The text of a normalized expression has the value of the expression, without any stored values
and without a repair, if the numbers in it are finite and their texts read back. A stored negative
zero is the exception: it comes in without parentheses, so its sign is read as an operator. -/
theorem evaluateText_text {text : String} {symbols : Symbols} {binding : Option (Binding Float)}
    {policy : ParenPolicy} {n : Normal Float} {mode : AngleMode} {v : Float}
    (normal : normalize text symbols binding policy = .ok n)
    (finite : ∀ x, .number x ∈ n.tokens → x.isFinite = true)
    (back : ∀ x, .number x ∈ n.tokens → Decimal.ReadsBack x)
    (stored : ∀ ts, tokenize text = .ok ts → symbols.NoNegativeZero binding ts)
    (value : n.evaluate mode = .ok v) : evaluateText n.text {} mode .strict = .ok v := by
  have readable : Readable n.tokens := fun x member => ⟨finite x member, back x member⟩
  obtain ⟨us, scanned, respelled⟩ := (rereads (enclosed_normal normal stored) readable).1
  change tokenize n.text = .ok us at scanned
  have balanced : depthAfter 0 (textParens n.text.toList) = some 0 := by
    rw [← Normal.depthAfter_tokenize id {} none scanned, respelled.tokenParens_eq,
      (depthAfter_normal normal).1]
  rw [evaluateText, normalize, normalizeWith_of_balanced balanced scanned, ok_bind]
  exact respelled.evaluateTokens_eq_ok value

theorem evaluateText_text_twiceAnswer :
    normalize "2ANS" { lastAnswer := some (-3) } none .repair =
        .ok ⟨.number 2 :: Normal.inParens (-3), 0⟩ ∧
      evaluateText "2(-3)" {} .radian .strict = .ok (-6) := by
  have scanned : tokenize "2ANS" = .ok twiceAnswer := by decide +kernel
  have balanced : depthAfter 0 (textParens "2ANS".toList) = some 0 := by decide +kernel
  have replaced : Normal.replaceNames id { lastAnswer := some (-3) } none twiceAnswer =
      .number 2 :: Normal.inParens (-3) := by decide +kernel
  have normal : normalize "2ANS" { lastAnswer := some (-3) } none .repair =
      .ok ⟨.number 2 :: Normal.inParens (-3), 0⟩ := by
    rw [normalize, normalizeWith_of_balanced balanced scanned, replaced]
  have product : parse (.number (2 : Float) :: Normal.inParens (-3)) =
      .ok (.binary (.number 2) '*' (.number (-3))) := by cbv
  have value : evaluateTokens (.number 2 :: Normal.inParens (-3)) .radian = .ok (-6) := by
    refine evaluateTokens_eq_ok_iff.mpr ⟨_, _, product, rfl, ?_⟩
    simp only [Expr.value?]
    decide +kernel
  have text : renderTokens (.number 2 :: Normal.inParens (-3)) = "2(-3)" := by decide +kernel
  have numbers (x : Float) (member : .number x ∈ Token.number 2 :: Normal.inParens (-3)) :
      x = 2 ∨ x = -3 := by
    simpa [Normal.inParens] using member
  refine ⟨normal, text ▸ evaluateText_text normal ?_ ?_ ?_ value⟩
  · intro x member
    rcases numbers x member with rfl | rfl <;> decide +kernel
  · intro x member
    unfold Decimal.ReadsBack
    rcases numbers x member with rfl | rfl <;> decide +kernel
  · intro ts scanned' name x member _ stored
    cases scanned.symm.trans scanned'
    have answer : name = "ANS" := by simpa [twiceAnswer] using member
    subst answer
    cases stored
    unfold IsNegativeZero
    decide +kernel

def twiceNegativeZero : List (Token Float) := [.number 2, .number (-0)]

def twoLessZero : List (Token Float) := [.number 2, .mark .minus, .number 0]

theorem evaluateText_text_twiceNegativeZero :
    normalize "2ANS" { lastAnswer := some (-0) } none .repair = .ok ⟨twiceNegativeZero, 0⟩ ∧
      Readable twiceNegativeZero ∧ renderTokens twiceNegativeZero = "2 -0" ∧
      evaluateTokens twiceNegativeZero .radian = .ok (-0) ∧
      evaluateText "2 -0" {} .radian .strict = .ok 2 := by
  have scanned : tokenize "2ANS" = .ok twiceAnswer := by decide +kernel
  have balanced : depthAfter 0 (textParens "2ANS".toList) = some 0 := by decide +kernel
  have replaced : Normal.replaceNames id { lastAnswer := some (-0) } none twiceAnswer =
      twiceNegativeZero := by decide +kernel
  have rescanned : tokenize "2 -0" = .ok twoLessZero := by decide +kernel
  have rebalanced : depthAfter 0 (textParens "2 -0".toList) = some 0 := by decide +kernel
  have kept : Normal.replaceNames id {} none twoLessZero = twoLessZero := by decide +kernel
  have product : parse twiceNegativeZero = .ok (.binary (.number 2) '*' (.number (-0))) := by cbv
  have difference : parse twoLessZero = .ok (.binary (.number 2) '-' (.number 0)) := by cbv
  have numbers (x : Float) (member : .number x ∈ twiceNegativeZero) : x = 2 ∨ x = -0 := by
    simpa [twiceNegativeZero] using member
  refine ⟨?_, ?_, by decide +kernel, ?_, ?_⟩
  · rw [normalize, normalizeWith_of_balanced balanced scanned, replaced]
  · intro x member
    unfold Decimal.ReadsBack
    rcases numbers x member with rfl | rfl <;> decide +kernel
  · refine evaluateTokens_eq_ok_iff.mpr ⟨_, _, product, rfl, ?_⟩
    simp only [Expr.value?]
    decide +kernel
  · have value : evaluateTokens twoLessZero .radian = .ok 2 := by
      refine evaluateTokens_eq_ok_iff.mpr ⟨_, _, difference, rfl, ?_⟩
      simp only [Expr.value?]
      decide +kernel
    rw [evaluateText, normalize, normalizeWith_of_balanced rebalanced rescanned, kept, ok_bind]
    exact value

end Reckoner
