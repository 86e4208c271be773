import Mathlib.Data.List.TakeWhile
import Mathlib.Tactic.ByContra
import Reckoner.Proofs.Scan.Blank

/-! The lexemes of the notation. A lexeme spells its token, and says where it ends: what may follow
it without being taken into it. What scanning reads at the front of a text is the lexeme there. -/
namespace Reckoner.Scan

inductive IsPower : List Char → Prop
  | intro {sign digits : List Char} : sign = [] ∨ sign = ['+'] ∨ sign = ['-'] → digits ≠ [] →
      (∀ c ∈ digits, c.isDigit = true) → IsPower (sign ++ digits)

def IsPowerMark (e : Char) : Prop := e = 'e' ∨ e = 'E'

def StartsPower (cs : List Char) : Prop :=
  ∃ e power rest, cs = e :: (power ++ rest) ∧ IsPowerMark e ∧ IsPower power

/-- A number by its digits and points and its power of ten, the text that spells it, and a text that
does not continue it. Only a number without a power of ten is continued by a point. -/
inductive IsNumber : (digits power text rest : List Char) → Prop
  | whole {digits rest : List Char} : (∀ c ∈ digits, isLiteral c = true) →
      (∀ c ∈ rest.head?, isLiteral c = false) → ¬StartsPower rest →
      IsNumber digits [] digits rest
  | raised {digits power rest : List Char} {e : Char} : (∀ c ∈ digits, isLiteral c = true) →
      IsPowerMark e → IsPower power → (∀ c ∈ rest.head?, c.isDigit = false) →
      IsNumber digits power (digits ++ e :: power) rest

structure IsWellFormed (digits : List Char) : Prop where
  onePoint : digits.count '.' ≤ 1
  digit : ∃ c ∈ digits, c.isDigit = true

/-- A lexeme, its token, and a text that it does not run on into. -/
inductive IsLexeme : List Char → Token Float → List Char → Prop
  | number {digits power text rest : List Char} {x : Float} : IsNumber digits power text rest →
      Decimal.literal? digits power = some x → IsLexeme text (.number x) rest
  | symbol {c : Char} (rest : List Char) : isSymbol c = true →
      IsLexeme [c] (.name c.toString) rest
  | word {c : Char} {cs rest : List Char} : startsName c = true → isSymbol c = false →
      (∀ d ∈ cs, continuesName d = true) → (∀ d ∈ rest.head?, continuesName d = false) →
      IsLexeme (c :: cs) (.name (String.ofList (c :: cs))) rest
  | mark {c : Char} {m : Mark} {rest : List Char} : punctuation? c = some m →
      (m = .star → rest.head? ≠ some '*') → IsLexeme [c] (.mark m) rest
  | stars {c : Char} (rest : List Char) : punctuation? c = some .star →
      IsLexeme [c, '*'] (.mark .caret) rest

section Powers

variable {c : Char}

theorem IsPowerMark.not_isLiteral (mark : IsPowerMark c) : isLiteral c = false := by
  rcases mark with rfl | rfl <;> rfl

theorem IsPowerMark.notBlank (mark : IsPowerMark c) : Text.isBlank c = false := by
  rcases mark with rfl | rfl <;> rfl

theorem IsPower.notBlank {power : List Char} (h : IsPower power) :
    ∀ c ∈ power, Text.isBlank c = false := by
  obtain ⟨signed, -, digit⟩ := h
  intro c member
  rcases List.mem_append.mp member with inSign | inDigits
  · rcases signed with rfl | rfl | rfl
    · cases inSign
    · rw [List.mem_singleton.mp inSign]
      rfl
    · rw [List.mem_singleton.mp inSign]
      rfl
  · exact isLiteral_notBlank (isLiteral_of_isDigit (digit c inDigits))

end Powers

section Numbers

variable {digits power text rest : List Char}

theorem splitSign_cases (cs : List Char) : ∃ sign tail, splitSign cs = (sign, tail) ∧
    cs = sign ++ tail ∧ (sign = [] ∨ sign = ['+'] ∨ sign = ['-']) := by
  unfold splitSign
  split
  · exact ⟨_, _, rfl, rfl, .inr (.inl rfl)⟩
  · exact ⟨_, _, rfl, rfl, .inr (.inr rfl)⟩
  · exact ⟨_, _, rfl, rfl, .inl rfl⟩

theorem IsPower.splitSign_append (h : IsPower power) (rest : List Char) :
    ∃ sign digits, power = sign ++ digits ∧ splitSign (power ++ rest) = (sign, digits ++ rest) ∧
      digits ≠ [] ∧ ∀ c ∈ digits, c.isDigit = true := by
  obtain @⟨sign, digits, signed, some, digit⟩ := h
  refine ⟨sign, digits, rfl, ?_, some, digit⟩
  rcases signed with rfl | rfl | rfl
  · obtain ⟨d, ds, rfl⟩ := List.exists_cons_of_ne_nil some
    have first := digit d (.head _)
    unfold splitSign
    split
    · rename_i same
      cases same
      cases first
    · rename_i same
      cases same
      cases first
    · rfl
  · rfl
  · rfl

theorem head_dropWhile {p : Char → Bool} (cs : List Char) :
    ∀ c ∈ (cs.dropWhile p).head?, p c = false := by
  intro c first
  have ended := List.head?_dropWhile_not p cs
  rwa [Option.mem_def.mp first] at ended

theorem splitPower_of_isPower {e : Char} (mark : IsPowerMark e) (h : IsPower power)
    (stop : ∀ c ∈ rest.head?, c.isDigit = false) :
    splitPower (e :: (power ++ rest)) = (power, rest) := by
  obtain ⟨sign, digits, rfl, split, some, digit⟩ := h.splitSign_append rest
  have marked : (e == 'e' || e == 'E') = true := by simpa [IsPowerMark] using mark
  have front := takeWhile_append_of_stop stop digit
  have back := dropWhile_append_of_stop stop digit
  simp only [splitPower, split, front, back, marked, Bool.true_and]
  rw [if_pos (by simpa using some)]

/-- Splitting a text takes the power of ten at its front, if there is one. -/
theorem splitPower_cases (cs : List Char) : (¬StartsPower cs ∧ splitPower cs = ([], cs)) ∨
    ∃ e power rest, cs = e :: (power ++ rest) ∧ IsPowerMark e ∧ IsPower power ∧
      (∀ c ∈ rest.head?, c.isDigit = false) ∧ splitPower cs = (power, rest) := by
  rcases cs with _ | ⟨e, cs⟩
  · exact .inl ⟨nofun, rfl⟩
  obtain ⟨sign, tail, split, rfl, signed⟩ := splitSign_cases cs
  by_cases power : ((e == 'e' || e == 'E') && !(tail.takeWhile Char.isDigit).isEmpty) = true
  · obtain ⟨marked, some⟩ := (Bool.and_eq_true _ _).mp power
    refine .inr ⟨e, sign ++ tail.takeWhile Char.isDigit, tail.dropWhile Char.isDigit, ?_, ?_, ?_,
      ?_, ?_⟩
    · rw [List.append_assoc, List.takeWhile_append_dropWhile]
    · simpa [IsPowerMark] using marked
    · exact .intro signed (by simpa using some) fun c taken => List.mem_takeWhile_imp taken
    · exact head_dropWhile tail
    · simp only [splitPower, split, if_pos power]
  · refine .inl ⟨?_, by simp only [splitPower, split, if_neg power]⟩
    -- A power of ten would have its digits right after the sign that was split off.
    rintro ⟨e', power', rest, same, mark, h⟩
    obtain ⟨rfl, text⟩ := List.cons.inj same
    obtain ⟨sign', digits, _, split', some, digit⟩ := h.splitSign_append rest
    rw [← text, split] at split'
    cases split'
    obtain ⟨d, ds, rfl⟩ := List.exists_cons_of_ne_nil some
    refine power ?_
    rw [List.cons_append, List.takeWhile_cons, if_pos (digit d (.head _))]
    simpa [IsPowerMark] using mark

theorem splitPower_of_not_startsPower {cs : List Char} (none : ¬StartsPower cs) :
    splitPower cs = ([], cs) := by
  rcases splitPower_cases cs with ⟨_, result⟩ | ⟨e, power, rest, text, mark, h, _⟩
  · exact result
  · exact absurd ⟨e, power, rest, text, mark, h⟩ none

/-- Where a number stands at the front of a text, scanning splits it off. -/
theorem IsNumber.split (h : IsNumber digits power text rest) :
    (text ++ rest).takeWhile isLiteral = digits ∧
      splitPower ((text ++ rest).dropWhile isLiteral) = (power, rest) := by
  cases h with
  | whole literal stop none =>
    rw [takeWhile_append_of_stop stop literal, dropWhile_append_of_stop stop literal]
    exact ⟨rfl, splitPower_of_not_startsPower none⟩
  | @raised _ _ e literal mark isPower stop =>
    have ended : ∀ c ∈ (e :: (power ++ rest)).head?, isLiteral c = false := by
      intro c first
      cases first
      exact mark.not_isLiteral
    rw [List.append_assoc, List.cons_append, takeWhile_append_of_stop ended literal,
      dropWhile_append_of_stop ended literal]
    exact ⟨rfl, splitPower_of_isPower mark isPower stop⟩

theorem exists_isNumber (cs : List Char) :
    ∃ digits power text rest, cs = text ++ rest ∧ IsNumber digits power text rest := by
  have literal : ∀ c ∈ cs.takeWhile isLiteral, isLiteral c = true :=
    fun c taken => List.mem_takeWhile_imp taken
  rcases splitPower_cases (cs.dropWhile isLiteral) with
    ⟨none, _⟩ | ⟨e, power, rest, back, mark, h, stop, _⟩
  · exact ⟨_, [], _, _, List.takeWhile_append_dropWhile.symm,
      .whole literal (head_dropWhile cs) none⟩
  · refine ⟨_, power, cs.takeWhile isLiteral ++ e :: power, rest, ?_, .raised literal mark h stop⟩
    rw [List.append_assoc, List.cons_append, ← back, List.takeWhile_append_dropWhile]

/-- The error for a number that is not well formed. Its mark is written small. -/
def malformed (digits power : List Char) : Error :=
  let written := if power.isEmpty then digits else digits ++ 'e' :: power
  .read (.malformedNumber (String.ofList written))

theorem IsNumber.numeral_eq (h : IsNumber digits power text rest) :
    numeral (text ++ rest) = match Decimal.literal? digits power with
      | some x => .ok (.number x, rest)
      | none => .error (malformed digits power) := by
  obtain ⟨front, back⟩ := h.split
  simp only [numeral, front, back]
  cases Decimal.literal? digits power <;> rfl

theorem IsNumber.literal (h : IsNumber digits power text rest) :
    ∀ c ∈ digits, isLiteral c = true := by
  cases h with
  | whole literal => exact literal
  | raised literal => exact literal

theorem IsNumber.notBlank (h : IsNumber digits power text rest) :
    ∀ c ∈ text, Text.isBlank c = false := by
  cases h with
  | whole literal => exact fun c member => isLiteral_notBlank (literal c member)
  | raised literal mark isPower =>
    refine List.forall_mem_append.mpr ⟨fun c member => isLiteral_notBlank (literal c member), ?_⟩
    exact List.forall_mem_cons.mpr ⟨mark.notBlank, isPower.notBlank⟩

/-- A number by itself. -/
theorem IsNumber.alone (h : IsNumber digits power text rest) : IsNumber digits power text [] := by
  cases h with
  | whole literal => exact .whole literal nofun nofun
  | raised literal mark isPower => exact .raised literal mark isPower nofun

theorem IsNumber.exists_cons (h : IsNumber digits power text rest) (some : digits ≠ []) :
    ∃ c cs, text = c :: cs ∧ isLiteral c = true := by
  obtain ⟨c, cs, rfl⟩ := List.exists_cons_of_ne_nil some
  have first := h.literal c (.head _)
  cases h with
  | whole => exact ⟨c, cs, rfl, first⟩
  | raised => exact ⟨c, _, rfl, first⟩

theorem ne_nil_of_literal {x : Float} (read : Decimal.literal? digits power = some x) :
    digits ≠ [] := by
  rintro rfl
  cases read

theorem count_point_of_digits (digit : ∀ c ∈ digits, c.isDigit = true) :
    digits.count '.' = 0 := by
  refine List.count_eq_zero.mpr fun point => ?_
  cases digit '.' point

theorem isWellFormed_whole_iff (digit : ∀ c ∈ digits, c.isDigit = true) :
    IsWellFormed digits ↔ digits ≠ [] := by
  constructor
  · rintro ⟨_, c, member, _⟩
    exact List.ne_nil_of_mem member
  · intro some
    obtain ⟨c, member⟩ := List.exists_mem_of_ne_nil digits some
    exact ⟨by rw [count_point_of_digits digit]; exact Nat.zero_le 1, c, member, digit c member⟩

theorem isWellFormed_pointed_iff {whole fraction : List Char}
    (digit : ∀ c ∈ whole, c.isDigit = true) (literal : ∀ c ∈ fraction, isLiteral c = true) :
    IsWellFormed (whole ++ '.' :: fraction) ↔
      (∀ c ∈ fraction, c.isDigit = true) ∧ ¬(whole = [] ∧ fraction = []) := by
  have points : (whole ++ '.' :: fraction).count '.' = fraction.count '.' + 1 := by
    rw [List.count_append, count_point_of_digits digit, List.count_cons_self, Nat.zero_add]
  constructor
  · rintro ⟨onePoint, c, member, isDigit⟩
    have noPoint : '.' ∉ fraction := List.count_eq_zero.mp (by omega)
    refine ⟨fun d within => isDigit_of_isLiteral (literal d within) ?_, ?_⟩
    · rintro rfl
      exact noPoint within
    · rintro ⟨rfl, rfl⟩
      cases List.mem_singleton.mp member
      cases isDigit
  · rintro ⟨figures, some⟩
    refine ⟨by rw [points, count_point_of_digits figures], ?_⟩
    rcases whole with _ | ⟨c, whole⟩
    · obtain ⟨c, member⟩ := List.exists_mem_of_ne_nil fraction fun none => some ⟨rfl, none⟩
      exact ⟨c, .tail _ member, figures c member⟩
    · exact ⟨c, .head _, digit c (.head _)⟩

/-- Digits are read as a number when they are well formed, whatever power of ten follows. -/
theorem literal_eq_none_iff (literal : ∀ c ∈ digits, isLiteral c = true) :
    Decimal.literal? digits power = none ↔ ¬IsWellFormed digits := by
  have parts : digits.takeWhile Char.isDigit ++ digits.dropWhile Char.isDigit = digits :=
    List.takeWhile_append_dropWhile
  have digit : ∀ c ∈ digits.takeWhile Char.isDigit, c.isDigit = true :=
    fun c taken => List.mem_takeWhile_imp taken
  have stop := head_dropWhile (p := Char.isDigit) digits
  unfold Decimal.literal?
  generalize digits.takeWhile Char.isDigit = whole at parts digit
  generalize digits.dropWhile Char.isDigit = after at parts stop
  subst parts
  rcases after with _ | ⟨point, fraction⟩
  · rw [List.append_nil, isWellFormed_whole_iff digit]
    simp
  · have isPoint : point = '.' := by
      have pointLiteral := literal point (by simp)
      by_contra notPoint
      cases (stop point rfl).symm.trans (isDigit_of_isLiteral pointLiteral notPoint)
    subst isPoint
    rw [isWellFormed_pointed_iff digit fun c member => literal c (by simp [member])]
    simp

end Numbers

section Lexemes

variable {c : Char} {cs rest text : List Char} {t : Token Float}

theorem IsLexeme.ne_nil (h : IsLexeme text t rest) : text ≠ [] := by
  cases h with
  | number isNumber read =>
    obtain ⟨c, cs, rfl, _⟩ := isNumber.exists_cons (ne_nil_of_literal read)
    exact List.cons_ne_nil c cs
  | symbol | word | mark | stars => exact List.cons_ne_nil _ _

theorem IsLexeme.notBlank (h : IsLexeme text t rest) : ∀ c ∈ text, Text.isBlank c = false := by
  cases h with
  | number isNumber => exact isNumber.notBlank
  | symbol _ symbol =>
    intro c member
    rw [List.mem_singleton.mp member]
    rcases symbol_cases symbol with rfl | rfl <;> rfl
  | word starts notSymbol continued =>
    have first := notBlank_of_continuesName (continuesName_of_startsName starts notSymbol)
    exact List.forall_mem_cons.mpr
      ⟨first, fun d member => notBlank_of_continuesName (continued d member)⟩
  | mark punctuation =>
    intro c member
    rw [List.mem_singleton.mp member]
    exact (isSign_of_punctuation punctuation).notBlank
  | stars _ star =>
    exact List.forall_mem_cons.mpr ⟨(isSign_of_punctuation star).notBlank,
      List.forall_mem_singleton.mpr isSign_star.notBlank⟩

/-- A lexeme by itself. -/
theorem IsLexeme.alone (h : IsLexeme text t rest) : IsLexeme text t [] := by
  cases h with
  | number isNumber read => exact .number isNumber.alone read
  | symbol _ symbol => exact .symbol [] symbol
  | word starts notSymbol continued => exact .word starts notSymbol continued nofun
  | mark punctuation => exact .mark punctuation nofun
  | stars _ star => exact .stars [] star

theorem isLexeme_of_lexeme (h : lexeme c cs = .ok (t, rest)) :
    ∃ text, c :: cs = text ++ rest ∧ IsLexeme text t rest := by
  unfold lexeme at h
  split at h
  · obtain ⟨digits, power, text, after, parts, isNumber⟩ := exists_isNumber (c :: cs)
    rw [parts, isNumber.numeral_eq] at h
    split at h
    · rename_i x read
      cases h
      exact ⟨text, parts, .number isNumber read⟩
    · cases h
  split at h
  · rename_i symbol
    cases h
    exact ⟨[c], rfl, .symbol _ symbol⟩
  rename_i notSymbol
  split at h
  · rename_i starts
    cases h
    refine ⟨c :: cs.takeWhile continuesName, ?_, .word starts (by simpa using notSymbol)
      (fun d taken => List.mem_takeWhile_imp taken) (head_dropWhile cs)⟩
    rw [List.cons_append, List.takeWhile_append_dropWhile]
  split at h
  · rename_i star
    split at h
    · cases h
      exact ⟨[c, '*'], rfl, .stars _ star⟩
    · rename_i single
      cases h
      refine ⟨[c], rfl, .mark star fun _ first => ?_⟩
      obtain ⟨more, same⟩ := List.head?_eq_some_iff.mp first
      exact single more same
  · rename_i m notStar punctuation
    cases h
    exact ⟨[c], rfl, .mark punctuation fun isStar => absurd isStar notStar⟩
  · cases h

theorem lexeme_of_isLexeme (h : IsLexeme (c :: cs) t rest) :
    lexeme c (cs ++ rest) = .ok (t, rest) := by
  generalize whole : c :: cs = text at h
  cases h with
  | number isNumber read =>
    obtain ⟨d, ds, same, literal⟩ := isNumber.exists_cons (ne_nil_of_literal read)
    cases whole.trans same
    unfold lexeme
    rw [if_pos literal, ← List.cons_append, whole, isNumber.numeral_eq, read]
  | symbol _ symbol =>
    cases whole
    rcases symbol_cases symbol with rfl | rfl <;> rfl
  | word starts notSymbol continued stop =>
    cases whole
    exact lexeme_word starts notSymbol continued stop
  | @mark _ m _ punctuation single =>
    cases whole
    have sign := isSign_of_punctuation punctuation
    by_cases isStar : m = .star
    · subst isStar
      exact lexeme_star sign (single rfl)
    · exact lexeme_sign sign isStar rest
  | stars _ star =>
    cases whole
    exact lexeme_stars (isSign_of_punctuation star) rest

end Lexemes

end Reckoner.Scan
