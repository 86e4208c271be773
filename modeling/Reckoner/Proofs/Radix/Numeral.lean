import Reckoner.Proofs.Binary.SignedNatural
import Reckoner.Proofs.Radix.Digits
import Reckoner.Proofs.Result

/-! The notation of integers in a radix: a sign, the mark of the radix and digits, the first two
optional. What is read is this notation and one form more, a plus sign right before the digits. -/
namespace Reckoner.Radix

open Binary

inductive IsSign : List Char → Bool → Prop
  | none : IsSign [] false
  | plus : IsSign ['+'] false
  | minus : IsSign ['-'] true

def markLetters : List (ℕ × Char) :=
  [(2, 'b'), (2, 'B'), (8, 'o'), (8, 'O'), (16, 'x'), (16, 'X')]

inductive IsMark (radix : ℕ) : List Char → Prop
  | none : IsMark radix []
  | letter {c : Char} : (radix, c) ∈ markLetters → IsMark radix ['0', c]

/-- Digits of a value below `2 ^ 64` behind a sign and the mark of the radix. In the notation
nothing stands between the mark and the digits; `extra` is what does. -/
def IsNumeral (radix : ℕ) (extra text : List Char) (negative : Bool) (n : ℕ) : Prop :=
  ∃ sign mark ds, IsSign sign negative ∧ IsMark radix mark ∧
    text = sign ++ (mark ++ (extra ++ ds)) ∧ Spells radix ds n ∧ n < 2 ^ 64

section

variable {radix n d : ℕ} {c : Char} {cs rest : List Char} {negative : Bool}

theorem IsNumeral.word {extra : List Char} (h : IsNumeral radix extra cs negative n) :
    n < 2 ^ 64 := by
  obtain ⟨_, _, _, _, _, _, _, word⟩ := h
  exact word

theorem IsDigit.toNat_bounds (most : radix ≤ 16) (digit : IsDigit radix c d) :
    48 ≤ c.toNat ∧ c.toNat ≤ 102 := by
  have table : ∀ d < 16, (48 ≤ d.digitChar.toNat ∧ d.digitChar.toNat ≤ 102) ∧
      48 ≤ d.digitChar.toUpper.toNat ∧ d.digitChar.toUpper.toNat ≤ 102 := by
    decide +kernel
  have bounds := table d (digit.below.trans_le most)
  obtain rfl | rfl := digit.shape
  · exact bounds.1
  · exact bounds.2

theorem Spells.isDigit (spells : Spells radix cs n) : ∀ c ∈ cs, ∃ d, IsDigit radix c d := by
  obtain ⟨-, ds, valid, -⟩ := spells
  intro c member
  induction valid with
  | nil => cases member
  | @cons c' d _ _ digit _ ih =>
    rcases List.mem_cons.mp member with rfl | later
    · exact ⟨d, digit⟩
    · exact ih later

/-- Digits do not begin with a sign. -/
theorem Spells.head_ne (most : radix ≤ 16) (spells : Spells radix (c :: cs) n) :
    c ≠ '+' ∧ c ≠ '-' := by
  obtain ⟨d, digit⟩ := spells.isDigit c (.head _)
  have bounds := digit.toNat_bounds most
  constructor <;> rintro rfl <;> exact absurd bounds (by decide)

/-- The letter of a mark is no digit of its radix, so digits do not begin with the mark. -/
theorem not_isDigit_mark (marked : (radix, c) ∈ markLetters) : ¬IsDigit radix c d := by
  have table : ∀ row ∈ markLetters, row.1 ≤ 16 ∧ digitValue? row.1 row.2 = none := by
    decide +kernel
  obtain ⟨most, none⟩ := table _ marked
  rw [← digitValue_eq_some_iff most, none]
  nofun

theorem word_eq_some_iff (most : radix ≤ 16) :
    word? radix cs = some n ↔ ∃ extra ds, (extra = [] ∨ extra = ['+']) ∧ cs = extra ++ ds ∧
      Spells radix ds n ∧ n < 2 ^ 64 := by
  have body (ds : List Char) : (natural? radix ds).filter (· < Nat.pow 2 64) = some n ↔
      Spells radix ds n ∧ n < 2 ^ 64 := by
    rw [Option.filter_eq_some_iff, natural_eq_some_iff most, decide_eq_true_eq]
    rfl
  unfold word?
  split
  · rename_i ds
    rw [body]
    constructor
    · rintro ⟨spells, word⟩
      exact ⟨['+'], ds, .inr rfl, rfl, spells, word⟩
    · rintro ⟨extra, ds', rfl | rfl, same, spells, word⟩
      · cases same
        exact absurd rfl (spells.head_ne most).1
      · cases same
        exact ⟨spells, word⟩
  · rename_i noPlus
    rw [body]
    constructor
    · rintro ⟨spells, word⟩
      exact ⟨[], cs, .inl rfl, rfl, spells, word⟩
    · rintro ⟨extra, ds, rfl | rfl, rfl, spells, word⟩
      · exact ⟨spells, word⟩
      · exact absurd rfl (noPlus ds)

theorem dropMark_of_mark (marked : (radix, c) ∈ markLetters) :
    dropMark radix ('0' :: c :: rest) = rest := by
  simp only [markLetters, List.mem_cons, Prod.mk.injEq, List.not_mem_nil, or_false] at marked
  rcases marked with ⟨rfl, rfl⟩ | ⟨rfl, rfl⟩ | ⟨rfl, rfl⟩ | ⟨rfl, rfl⟩ | ⟨rfl, rfl⟩ | ⟨rfl, rfl⟩ <;>
    rfl

/-- Either a mark is taken off or the text stays as it is. -/
theorem dropMark_cases (radix : ℕ) (cs : List Char) :
    (∃ c, (radix, c) ∈ markLetters ∧ cs = '0' :: c :: dropMark radix cs) ∨
      dropMark radix cs = cs := by
  unfold dropMark
  split
  · rename_i c rest
    split
    · rename_i marked
      refine .inl ⟨c, ?_, rfl⟩
      simpa [markLetters, or_assoc, and_or_left] using marked
    · exact .inr rfl
  · exact .inr rfl

theorem word_dropMark_iff (most : radix ≤ 16) :
    word? radix (dropMark radix cs) = some n ↔ ∃ mark extra ds, IsMark radix mark ∧
      (extra = [] ∨ extra = ['+']) ∧ cs = mark ++ (extra ++ ds) ∧ Spells radix ds n ∧
      n < 2 ^ 64 := by
  constructor
  · intro read
    obtain ⟨extra, ds, shape, split, spells, word⟩ := (word_eq_some_iff most).mp read
    obtain ⟨c, marked, same⟩ | same := dropMark_cases radix cs
    · exact ⟨['0', c], extra, ds, .letter marked, shape, by rw [same, split]; rfl, spells, word⟩
    · exact ⟨[], extra, ds, .none, shape, by rw [← split, same]; rfl, spells, word⟩
  · rintro ⟨mark, extra, ds, isMark, shape, rfl, spells, word⟩
    have read := (word_eq_some_iff most).mpr ⟨extra, ds, shape, rfl, spells, word⟩
    cases isMark with
    | letter marked => rwa [List.cons_append, List.cons_append, List.nil_append,
        dropMark_of_mark marked]
    | none =>
      rw [List.nil_append]
      obtain ⟨c, marked, same⟩ | same := dropMark_cases radix (extra ++ ds)
      · -- The zero and the letter would have to be digits.
        exfalso
        rcases shape with rfl | rfl
        · rw [List.nil_append] at same
          obtain ⟨d, digit⟩ := spells.isDigit c (by rw [same]; simp)
          exact not_isDigit_mark marked digit
        · cases same
      · rwa [same]

theorem splitSign_cases (cs : List Char) :
    ∃ sign, IsSign sign (splitSign cs).1 ∧ cs = sign ++ (splitSign cs).2 := by
  unfold splitSign
  split
  · exact ⟨['-'], .minus, rfl⟩
  · exact ⟨['+'], .plus, rfl⟩
  · exact ⟨[], .none, rfl⟩

theorem splitSign_of_ne (noPlus : c ≠ '+') (noMinus : c ≠ '-') :
    splitSign (c :: cs) = (false, c :: cs) := by
  unfold splitSign
  split
  · rename_i same
    cases same
    exact absurd rfl noMinus
  · rename_i same
    cases same
    exact absurd rfl noPlus
  · rfl

theorem numeral_iff (most : radix ≤ 16) :
    (∃ extra, (extra = [] ∨ extra = ['+']) ∧ IsNumeral radix extra cs negative n) ↔
      (splitSign cs).1 = negative ∧ word? radix (dropMark radix (splitSign cs).2) = some n := by
  constructor
  · rintro ⟨extra, shape, sign, mark, ds, isSign, isMark, rfl, spells, word⟩
    have read := (word_dropMark_iff most).mpr ⟨mark, extra, ds, isMark, shape, rfl, spells, word⟩
    cases isSign with
    | plus => exact ⟨rfl, read⟩
    | minus => exact ⟨rfl, read⟩
    | none =>
      cases isMark with
      | letter marked => exact ⟨rfl, read⟩
      | none =>
        rcases shape with rfl | rfl
        · cases ds with
          | nil => exact absurd rfl spells.1
          | cons c ds =>
            have ⟨noPlus, noMinus⟩ := spells.head_ne most
            simp only [List.nil_append] at read ⊢
            rw [splitSign_of_ne noPlus noMinus]
            exact ⟨rfl, read⟩
        · -- The plus sign is taken for the sign of the number.
          exact ⟨rfl, (word_dropMark_iff most).mpr
            ⟨[], [], ds, .none, .inl rfl, rfl, spells, word⟩⟩
  · rintro ⟨rfl, read⟩
    obtain ⟨mark, extra, ds, isMark, shape, same, spells, word⟩ := (word_dropMark_iff most).mp read
    obtain ⟨sign, isSign, split⟩ := splitSign_cases cs
    exact ⟨extra, shape, sign, mark, ds, isSign, isMark, by rw [← same, ← split], spells, word⟩

theorem le_sixteen (supported : radix ∈ [2, 8, 10, 16]) : radix ≤ 16 := by
  simp only [List.mem_cons, List.not_mem_nil, or_false] at supported
  omega

theorem checkRadix_of_mem (supported : radix ∈ [2, 8, 10, 16]) : checkRadix radix = .ok () :=
  if_pos (by simpa using supported)

theorem fromBase_eq (supported : radix ∈ [2, 8, 10, 16]) (text : String) :
    fromBase text radix =
      match word? radix (dropMark radix (splitSign (Text.trimmed text.toList)).2) with
      | some n => .ok (Exact.nearest ⟨(splitSign (Text.trimmed text.toList)).1, n, 0⟩)
      | none => .error (.domain (.notInRadix text radix)) := by
  rw [fromBase, checkRadix_of_mem supported]
  exact ok_bind () _

theorem fromBase_eq_ok_iff (supported : radix ∈ [2, 8, 10, 16]) {text : String} {x : Float} :
    fromBase text radix = .ok x ↔ ∃ extra negative n, (extra = [] ∨ extra = ['+']) ∧
      IsNumeral radix extra (Text.trimmed text.toList) negative n ∧
      IsSignedRounding negative n x := by
  rw [fromBase_eq supported]
  constructor
  · intro read
    split at read
    · rename_i n word
      obtain ⟨extra, shape, numeral⟩ := (numeral_iff (le_sixteen supported)).mpr ⟨rfl, word⟩
      cases read
      exact ⟨extra, _, n, shape, numeral, isSignedRounding_nearest _ numeral.word⟩
    · cases read
  · rintro ⟨extra, negative, n, shape, numeral, rounding⟩
    obtain ⟨rfl, word⟩ := (numeral_iff (le_sixteen supported)).mp ⟨extra, shape, numeral⟩
    rw [word, (isSignedRounding_iff numeral.word).mp rounding]

theorem fromBase_cases (supported : radix ∈ [2, 8, 10, 16]) (text : String) :
    (∃ x, fromBase text radix = .ok x) ∨
      fromBase text radix = .error (.domain (.notInRadix text radix)) := by
  rw [fromBase_eq supported]
  split
  · exact .inl ⟨_, rfl⟩
  · exact .inr rfl

/-- A text is read just when it is a numeral once the white space around it is gone, or would be one
without a plus sign right before its digits. The result is its value, rounded, with its sign. -/
theorem fromBase_numeral (supported : radix ∈ [2, 8, 10, 16]) (text : String) :
    (∀ x, fromBase text radix = .ok x ↔ ∃ extra negative n, (extra = [] ∨ extra = ['+']) ∧
        IsNumeral radix extra (Text.trimmed text.toList) negative n ∧
        IsSignedRounding negative n x) ∧
      ((¬∃ extra negative n, (extra = [] ∨ extra = ['+']) ∧
        IsNumeral radix extra (Text.trimmed text.toList) negative n) →
        fromBase text radix = .error (.domain (.notInRadix text radix))) := by
  refine ⟨fun x => fromBase_eq_ok_iff supported, fun noNumeral => ?_⟩
  obtain ⟨x, read⟩ | refused := fromBase_cases supported text
  · obtain ⟨extra, negative, n, shape, numeral, _⟩ := (fromBase_eq_ok_iff supported).mp read
    exact absurd ⟨extra, negative, n, shape, numeral⟩ noNumeral
  · exact refused

end

theorem fromBase_numeral_minusTwentySix :
    16 ∈ [2, 8, 10, 16] ∧ fromBase " -0x1a " 16 = .ok (-26) ∧
      ∃ extra negative n, (extra = [] ∨ extra = ['+']) ∧
        IsNumeral 16 extra (Text.trimmed " -0x1a ".toList) negative n ∧
        IsSignedRounding negative n (-26) := by
  have supported : 16 ∈ [2, 8, 10, 16] := by decide
  have read : fromBase " -0x1a " 16 = .ok (-26) := by decide +kernel
  exact ⟨supported, read, ((fromBase_numeral supported " -0x1a ").1 (-26)).mp read⟩

/-- A second sign is read over, although it is not in the notation. -/
theorem fromBase_secondSign :
    fromBase "-+101" 2 = .ok (-5) ∧
      ¬∃ negative n, IsNumeral 2 [] (Text.trimmed "-+101".toList) negative n := by
  refine ⟨by decide +kernel, ?_⟩
  have text : Text.trimmed "-+101".toList = ['-', '+', '1', '0', '1'] := by decide +kernel
  rw [text]
  rintro ⟨negative, n, sign, mark, ds, isSign, isMark, same, spells, _⟩
  have most : 2 ≤ 16 := by decide
  cases isSign with
  | plus => cases same
  | none =>
    cases isMark with
    | letter => cases same
    | none =>
      cases same
      exact (spells.head_ne most).2 rfl
  | minus =>
    cases isMark with
    | letter => cases same
    | none =>
      cases same
      exact (spells.head_ne most).1 rfl

end Reckoner.Radix
