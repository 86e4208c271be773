import Mathlib.Data.List.Chain
import Reckoner.Proofs.Scan.Lexeme

/-! A text laid out as lexemes with blanks between them. Scanning a text gives one token for each
lexeme of its layout, so no character is lost and none comes in. Two names in a row stand apart, and
so do two numbers, a power of ten with a point right after it left aside. -/
namespace Reckoner

namespace Scan

structure Piece where
  gap : List Char
  lexeme : List Char
  token : Token Float

def Piece.text (p : Piece) : List Char := p.gap ++ p.lexeme

def IsGap (cs : List Char) : Prop := ∀ c ∈ cs, Text.isBlank c = true

/-- The pieces at the front of a text and the rest after them. A lexeme ends where the text goes on
with what is not taken into it. -/
inductive Laid : List Char → List Piece → List Char → Prop
  | nil (rest : List Char) : Laid rest [] rest
  | cons {gap lexeme after rest : List Char} {t : Token Float} {pieces : List Piece} : IsGap gap →
      IsLexeme lexeme t after → Laid after pieces rest →
      Laid (gap ++ (lexeme ++ after)) (⟨gap, lexeme, t⟩ :: pieces) rest

section

variable {cs gap text rest : List Char} {t : Token Float} {pieces : List Piece}

theorem isGap_nil : IsGap [] := List.forall_mem_nil _

theorem tokens_gap (isGap : IsGap gap) (cs : List Char) : tokens (gap ++ cs) = tokens cs := by
  induction gap with
  | nil => rfl
  | cons c gap ih =>
    rw [List.cons_append, tokens_of_blank (isGap c (.head _))]
    exact ih fun d member => isGap d (.tail _ member)

theorem tokens_isLexeme (h : IsLexeme text t rest) :
    tokens (text ++ rest) = (tokens rest).map (t :: ·) := by
  obtain ⟨c, cs, rfl⟩ := List.exists_cons_of_ne_nil h.ne_nil
  exact tokens_of_lexeme (h.notBlank c (.head _)) (lexeme_of_isLexeme h)

/-- What is scanned after the pieces of a text comes after their tokens. -/
theorem Laid.tokens_eq (h : Laid cs pieces rest) :
    tokens cs = (tokens rest).map (pieces.map Piece.token ++ ·) := by
  induction h with
  | nil rest => cases tokens rest <;> rfl
  | @cons _ _ _ rest _ _ isGap isLexeme _ ih =>
    rw [tokens_gap isGap, tokens_isLexeme isLexeme, ih]
    cases tokens rest <;> rfl

/-- One blank more in front of a text. -/
theorem Laid.blank {c : Char} (blank : Text.isBlank c = true) (h : Laid cs pieces rest)
    (isGap : IsGap rest) : ∃ pieces' rest', Laid (c :: cs) pieces' rest' ∧ IsGap rest' ∧
      pieces'.map Piece.token = pieces.map Piece.token := by
  cases h with
  | nil => exact ⟨[], _, .nil _, List.forall_mem_cons.mpr ⟨blank, isGap⟩, rfl⟩
  | cons gap isLexeme others =>
    exact ⟨_, _, .cons (List.forall_mem_cons.mpr ⟨blank, gap⟩) isLexeme others, isGap, rfl⟩

theorem exists_laid {ts : List (Token Float)} (scanned : tokens cs = .ok ts) :
    ∃ pieces rest, Laid cs pieces rest ∧ IsGap rest ∧ pieces.map Piece.token = ts := by
  fun_induction tokens cs generalizing ts with
  | case1 =>
    cases scanned
    exact ⟨[], [], .nil [], isGap_nil, rfl⟩
  | case2 c cs blank ih =>
    -- The blank goes into the gap of the first piece, or into the rest if there is none.
    obtain ⟨pieces, rest, laid, isGap, rfl⟩ := ih scanned
    exact laid.blank blank isGap
  | case3 c cs notBlank t after first _ us others ih =>
    cases scanned
    obtain ⟨pieces, rest, laid, isGap, rfl⟩ := ih others
    obtain ⟨text, parts, isLexeme⟩ := isLexeme_of_lexeme first
    rw [parts]
    exact ⟨_, rest, .cons isGap_nil isLexeme laid, isGap, rfl⟩
  | case4 => cases scanned
  | case5 => cases scanned

/-- The text of some pieces is all that stands before the rest. -/
theorem Laid.text_eq (h : Laid cs pieces rest) : cs = pieces.flatMap Piece.text ++ rest := by
  induction h with
  | nil rest => rfl
  | cons _ _ _ ih =>
    rw [List.flatMap_cons, List.append_assoc, ← ih, Piece.text, List.append_assoc]

structure Piece.IsSound (p : Piece) : Prop where
  gap : IsGap p.gap
  lexeme : IsLexeme p.lexeme p.token []

theorem Laid.isSound (h : Laid cs pieces rest) : ∀ p ∈ pieces, p.IsSound := by
  induction h with
  | nil => exact nofun
  | cons isGap isLexeme _ ih => exact List.forall_mem_cons.mpr ⟨⟨isGap, isLexeme.alone⟩, ih⟩

theorem Piece.IsSound.tokenize {p : Piece} (h : p.IsSound) :
    tokenize (String.ofList p.lexeme) = .ok [p.token] := by
  have alone := tokens_isLexeme h.lexeme
  rw [List.append_nil, tokens_nil] at alone
  rw [Reckoner.tokenize, String.toList_ofList, alone]
  rfl

def notBlank (c : Char) : Bool := !Text.isBlank c

theorem filter_gap (isGap : IsGap gap) : gap.filter notBlank = [] :=
  List.filter_eq_nil_iff.mpr fun c member => by rw [notBlank, isGap c member]; decide

theorem Piece.IsSound.filter_text {p : Piece} (h : p.IsSound) :
    p.text.filter notBlank = p.lexeme := by
  have kept : ∀ c ∈ p.lexeme, notBlank c = true := by
    intro c member
    rw [notBlank, h.lexeme.notBlank c member]
    rfl
  rw [Piece.text, List.filter_append, filter_gap h.gap, List.filter_eq_self.mpr kept,
    List.nil_append]

theorem Laid.filter_eq (h : Laid cs pieces rest) (isGap : IsGap rest) :
    cs.filter notBlank = pieces.flatMap Piece.lexeme := by
  rw [h.text_eq, List.filter_append, filter_gap isGap, List.append_nil, List.filter_flatMap]
  exact List.flatMap_congr fun p member => (h.isSound p member).filter_text

def Piece.Joins (p q : Piece) : Prop :=
  ∃ after, IsLexeme p.lexeme p.token (q.gap ++ (q.lexeme ++ after)) ∧
    IsLexeme q.lexeme q.token after

theorem Laid.joins (h : Laid cs pieces rest) : pieces.IsChain Piece.Joins := by
  induction h with
  | nil => exact .nil
  | cons _ isLexeme others ih =>
    cases others with
    | nil => exact .singleton _
    | cons _ next _ => exact .cons_cons ⟨_, isLexeme, next⟩ ih

def IsConstantSign (text : List Char) : Prop := text = ['π'] ∨ text = ['φ']

def HasPower (text : List Char) : Prop :=
  ∃ digits e power, text = digits ++ e :: power ∧ IsPowerMark e ∧ IsPower power

theorem IsLexeme.name_cases {s : String} (h : IsLexeme text (.name s) rest) :
    IsConstantSign text ∨
      (∃ c cs, text = c :: cs ∧ continuesName c = true) ∧
        ∀ d ∈ rest.head?, continuesName d = false := by
  cases h with
  | symbol _ symbol =>
    rcases symbol_cases symbol with rfl | rfl
    · exact .inl (.inl rfl)
    · exact .inl (.inr rfl)
  | @word c cs _ starts notSymbol _ stop =>
    exact .inr ⟨⟨c, cs, rfl, continuesName_of_startsName starts notSymbol⟩, stop⟩

theorem IsLexeme.number_cases {x : Float} (h : IsLexeme text (.number x) rest) :
    (∃ c cs, text = c :: cs ∧ isLiteral c = true) ∧
      ((∀ d ∈ rest.head?, isLiteral d = false) ∨
        HasPower text ∧ ∀ d ∈ rest.head?, d.isDigit = false) := by
  cases h with
  | number isNumber read =>
    refine ⟨isNumber.exists_cons (ne_nil_of_literal read), ?_⟩
    cases isNumber with
    | whole _ stop => exact .inl stop
    | raised _ mark isPower stop => exact .inr ⟨⟨_, _, _, rfl, mark, isPower⟩, stop⟩

/-- Of two names without a blank between them one is the sign of a constant: a word would have
taken the other one in. -/
theorem Piece.Joins.names {p q : Piece} (joins : p.Joins q) {s s' : String}
    (name : p.token = .name s) (next : q.token = .name s') :
    q.gap ≠ [] ∨ IsConstantSign p.lexeme ∨ IsConstantSign q.lexeme := by
  refine or_iff_not_imp_left.mpr fun gap => ?_
  obtain ⟨after, first, second⟩ := joins
  rw [not_not.mp gap, List.nil_append, name] at first
  rw [next] at second
  rcases first.name_cases with sign | ⟨_, stop⟩
  · exact .inl sign
  rcases second.name_cases with sign | ⟨⟨c, cs, text, continued⟩, _⟩
  · exact .inr sign
  · rw [text] at stop
    cases continued.symm.trans (stop c rfl)

/-- Of two numbers without a blank between them the first has a power of ten, and the second begins
with a point. -/
theorem Piece.Joins.numbers {p q : Piece} (joins : p.Joins q) {x y : Float}
    (number : p.token = .number x) (next : q.token = .number y) :
    q.gap ≠ [] ∨ HasPower p.lexeme ∧ q.lexeme.head? = some '.' := by
  refine or_iff_not_imp_left.mpr fun gap => ?_
  obtain ⟨after, first, second⟩ := joins
  rw [not_not.mp gap, List.nil_append, number] at first
  rw [next] at second
  obtain ⟨⟨c, cs, text, literal⟩, _⟩ := second.number_cases
  rw [text] at first ⊢
  obtain ⟨_, stop | ⟨hasPower, stop⟩⟩ := first.number_cases
  · cases literal.symm.trans (stop c rfl)
  · refine ⟨hasPower, congrArg some ?_⟩
    by_contra notPoint
    cases (isDigit_of_isLiteral literal notPoint).symm.trans (stop c rfl)

/-- A number that is not well formed is the error of the text, if all before it is read. -/
theorem Laid.malformed {digits power numeral after : List Char}
    (h : Laid cs pieces (gap ++ (numeral ++ after))) (isGap : IsGap gap)
    (isNumber : IsNumber digits power numeral after) (some : digits ≠ [])
    (illFormed : ¬IsWellFormed digits) : tokens cs = .error (malformed digits power) := by
  obtain ⟨c, numeral, rfl, literal⟩ := isNumber.exists_cons some
  have fails : lexeme c (numeral ++ after) = .error (Scan.malformed digits power) := by
    unfold lexeme
    rw [if_pos literal, ← List.cons_append, isNumber.numeral_eq,
      (literal_eq_none_iff isNumber.literal).mpr illFormed]
  rw [h.tokens_eq, tokens_gap isGap, List.cons_append,
    tokens_of_lexeme_error (isLiteral_notBlank literal) fails]
  rfl

/-- A text as pieces and the blanks after them, with nothing lost and nothing added: each lexeme is
the text of its token, and names run into each other only at the sign of a constant. -/
structure Conserves (text : List Char) (ts : List (Token Float)) (pieces : List Piece)
    (tail : List Char) : Prop where
  text_eq : text = pieces.flatMap Piece.text ++ tail
  lexemes_eq : text.filter notBlank = pieces.flatMap Piece.lexeme
  tokens_eq : pieces.map Piece.token = ts
  gaps : IsGap tail ∧ ∀ p ∈ pieces, IsGap p.gap
  lexemes : ∀ p ∈ pieces, p.lexeme ≠ [] ∧ (∀ c ∈ p.lexeme, Text.isBlank c = false) ∧
    tokenize (String.ofList p.lexeme) = .ok [p.token]
  namesApart : pieces.IsChain fun p q => ∀ s s', p.token = .name s → q.token = .name s' →
    q.gap ≠ [] ∨ IsConstantSign p.lexeme ∨ IsConstantSign q.lexeme

theorem Laid.conserves (h : Laid cs pieces rest) (isGap : IsGap rest) :
    Conserves cs (pieces.map Piece.token) pieces rest where
  text_eq := h.text_eq
  lexemes_eq := h.filter_eq isGap
  tokens_eq := rfl
  gaps := ⟨isGap, fun p member => (h.isSound p member).gap⟩
  lexemes p member :=
    have sound := h.isSound p member
    ⟨sound.lexeme.ne_nil, sound.lexeme.notBlank, sound.tokenize⟩
  namesApart := h.joins.imp fun _ _ joins _ _ name next => joins.names name next

end

end Scan

open Scan

/-- The tokens of a text come from lexemes that are the text without its white space. -/
theorem tokenize_conserves {text : String} {ts : List (Token Float)}
    (scanned : tokenize text = .ok ts) : ∃ pieces tail, Conserves text.toList ts pieces tail := by
  obtain ⟨pieces, tail, laid, isGap, rfl⟩ := exists_laid scanned
  exact ⟨pieces, tail, laid.conserves isGap⟩

/-- Names and numbers that touch, a doubled star and a power of ten. -/
theorem tokenize_conserves_circle :
    tokenize "2πr **.5E-1" =
        .ok [.number 2, .name "π", .name "r", .mark .caret, .number 0.05] ∧
      ∃ pieces tail, Conserves "2πr **.5E-1".toList
        [.number 2, .name "π", .name "r", .mark .caret, .number 0.05] pieces tail := by
  have scanned : tokenize "2πr **.5E-1" =
      .ok [.number 2, .name "π", .name "r", .mark .caret, .number 0.05] := by decide +kernel
  exact ⟨scanned, tokenize_conserves scanned⟩

/-- Two numbers in a row have white space between them, unless a point comes right after the power
of ten of the first one. A number that is not well formed is an error, not two numbers. -/
theorem tokenize_numbers_apart (text : String) :
    (∀ ts, tokenize text = .ok ts → ∃ pieces tail, Laid text.toList pieces tail ∧ IsGap tail ∧
        pieces.map Piece.token = ts) ∧
      (∀ pieces rest, Laid text.toList pieces rest →
        pieces.IsChain fun p q => ∀ x y, p.token = .number x → q.token = .number y →
          q.gap ≠ [] ∨ HasPower p.lexeme ∧ q.lexeme.head? = some '.') ∧
      ∀ pieces gap digits power numeral after,
        Laid text.toList pieces (gap ++ (numeral ++ after)) → IsGap gap →
        IsNumber digits power numeral after → digits ≠ [] → ¬IsWellFormed digits →
        tokenize text = .error (malformed digits power) := by
  refine ⟨fun ts scanned => exists_laid scanned, fun pieces rest laid => ?_, ?_⟩
  · exact laid.joins.imp fun _ _ joins _ _ number next => joins.numbers number next
  · intro pieces gap digits power numeral after laid isGap isNumber some illFormed
    exact laid.malformed isGap isNumber some illFormed

def sevenThenTwoPoints : List Char := ['7', ' ', '1', '.', '2', '.', '3']

theorem laid_sevenThenTwoPoints :
    Laid sevenThenTwoPoints [⟨[], ['7'], .number 7⟩]
      ([' '] ++ (['1', '.', '2', '.', '3'] ++ [])) := by
  have seven : IsLexeme ['7'] (.number 7) [' ', '1', '.', '2', '.', '3'] := by
    have number : IsNumber ['7'] [] ['7'] [' ', '1', '.', '2', '.', '3'] := by
      refine .whole (List.forall_mem_singleton.mpr rfl) ?_ ?_
      · intro c first
        cases first
        rfl
      · rintro ⟨e, power, rest, same, mark, _⟩
        obtain ⟨rfl, _⟩ := List.cons.inj same
        rcases mark with mark | mark <;> cases mark
    exact .number number (by decide +kernel)
  exact .cons isGap_nil seven (.nil _)

theorem tokenize_numbers_apart_twoPoints :
    (tokenize "2e1 .5" = .ok [.number 20, .number 0.5] ∧
      ∃ pieces tail, Laid "2e1 .5".toList pieces tail ∧ IsGap tail ∧
        pieces.map Piece.token = [.number 20, .number 0.5] ∧
        pieces.IsChain fun p q => ∀ x y, p.token = .number x → q.token = .number y →
          q.gap ≠ [] ∨ HasPower p.lexeme ∧ q.lexeme.head? = some '.') ∧
      ¬IsWellFormed ['1', '.', '2', '.', '3'] ∧
      tokenize (String.ofList sevenThenTwoPoints) =
        .error (malformed ['1', '.', '2', '.', '3'] []) := by
  have scanned : tokenize "2e1 .5" = .ok [.number 20, .number 0.5] := by decide +kernel
  obtain ⟨places, apart, _⟩ := tokenize_numbers_apart "2e1 .5"
  obtain ⟨pieces, tail, laid, isGap, tokens⟩ := places _ scanned
  have number : IsNumber ['1', '.', '2', '.', '3'] [] ['1', '.', '2', '.', '3'] [] :=
    .whole (List.all_eq_true.mp rfl) nofun nofun
  have illFormed : ¬IsWellFormed ['1', '.', '2', '.', '3'] := fun wellFormed =>
    absurd wellFormed.onePoint (by decide)
  obtain ⟨_, _, rejected⟩ := tokenize_numbers_apart (String.ofList sevenThenTwoPoints)
  rw [String.toList_ofList] at rejected
  exact ⟨⟨scanned, pieces, tail, laid, isGap, tokens, apart pieces tail laid⟩, illFormed,
    rejected _ _ _ _ _ _ laid_sevenThenTwoPoints (List.forall_mem_singleton.mpr rfl) number
      (List.cons_ne_nil _ _) illFormed⟩

/-- A point after a power of ten begins a second number, which nothing parts from the first. -/
theorem tokenize_pointAfterPower :
    tokenize "1e5.3" = .ok [.number 1e5, .number 0.3] ∧
      "1e5.3".toList.any Text.isBlank = false :=
  ⟨by decide +kernel, by decide +kernel⟩

end Reckoner
