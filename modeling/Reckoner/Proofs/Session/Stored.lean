import Reckoner.Proofs.Evaluation.Stored
import Reckoner.Proofs.Render.Scan
import Reckoner.Proofs.Session.Ledger

/-! What a stored value has an effect on. A text that is one name has the value of that name, bit for
bit, and a text sees only the values of the names among its tokens. So a letter that is set, and the
answer of a commit, can be read at once, and texts without that letter or answer do not notice. -/
namespace Reckoner

open Grammar Parse
open Paren (depthAfter)

/-- Whether a name is no token of a text. It may still be a part of longer names. -/
def LeavesOut (text name : String) : Prop :=
  ∀ ts, tokenize text = .ok ts → Token.name name ∉ ts

namespace Normal

theorem replaceNames_congr {s s' : Symbols} {ts : List (Token Float)}
    (same : ∀ name, Token.name name ∈ ts → s'.value? name = s.value? name) :
    replaceNames id s' none ts = replaceNames id s none ts := by
  induction ts with
  | nil => rfl
  | cons t ts ih =>
    have others := ih fun name member => same name (.tail t member)
    cases t with
    | number x => exact congrArg (List.cons _) others
    | mark m => exact congrArg (List.cons _) others
    | name text =>
      have here := same text (.head ts)
      simp only [replaceNames, replacement_unbound, here, others]

theorem isSum_spelled (x : Float) : IsSum (spelled id x) (.number x) [] := by
  have number (rest : List (Token Float)) (noMark : markFollows rest = false) :
      IsSum (.number x :: rest) (.number x) rest :=
    (IsAtom.number.isPower noMark).isSum
  unfold spelled
  split
  · exact ((IsAtom.group (number _ rfl)).isPower rfl).isSum
  · exact number [] rfl

theorem evaluateTokens_spelled (x : Float) (mode : AngleMode) :
    evaluateTokens (spelled id x) mode = .ok x := by
  have read : parse (spelled id x) = .ok (.number x) :=
    parse_eq_ok_iff_isSum.mpr (isSum_spelled x)
  exact evaluateTokens_eq_ok_iff.mpr ⟨.number x, [.load x], read, rfl, rfl⟩

end Normal

/-- Two tables that give one value to each name of a text give one result to the text. -/
theorem evaluateText_congr {text : String} {s s' : Symbols}
    (same : ∀ ts, tokenize text = .ok ts → ∀ name, Token.name name ∈ ts →
      s'.value? name = s.value? name) (mode : AngleMode) (policy : ParenPolicy) :
    evaluateText text s' mode policy = evaluateText text s mode policy := by
  simp only [evaluateText, normalize, normalizeWith_eq]
  cases scanned : tokenize text with
  | error e => rfl
  | ok ts => simp only [Normal.replaceNames_congr (same ts scanned)]

theorem evaluateText_name {name : String} {s : Symbols} {x : Float}
    (isName : Scan.isName name.toList = true) (value : s.value? name = some x) (mode : AngleMode)
    (policy : ParenPolicy) : evaluateText name s mode policy = .ok x := by
  have scanned : tokenize name = .ok [.name name] := by
    have ended : Scan.Breaks [] := fun _ none => by cases none
    have tokens := Scan.tokens_name isName ended
    rw [List.append_nil, Scan.tokens_nil, String.ofList_toList] at tokens
    exact tokens
  have balanced : depthAfter 0 (textParens name.toList) = some 0 := by
    rw [← Scan.tokenParens_tokens scanned]
    rfl
  have replaced : Normal.replaceNames id s none [.name name] = Normal.spelled id x := by
    simp [Normal.replaceNames, Normal.replacement_unbound, value]
  rw [evaluateText, normalize, normalizeWith_of_balanced balanced scanned, replaced, ok_bind]
  exact Normal.evaluateTokens_spelled x mode

namespace Symbols

theorem isName_letter {letter : Char} (isUpper : letter.isUpper = true) :
    Scan.isName letter.toString.toList = true := by
  have range : 65 ≤ letter.toNat ∧ letter.toNat ≤ 90 := by
    simp only [Char.isUpper, decide_eq_true_eq] at isUpper
    exact ⟨UInt32.le_iff_toNat_le.mp isUpper.1, UInt32.le_iff_toNat_le.mp isUpper.2⟩
  have notBlank : Text.isBlank letter = false := by
    rw [Bool.eq_false_iff]
    intro blank
    have outside := Scan.toNat_of_isBlank blank
    omega
  have notLiteral : Scan.isLiteral letter = false := by
    rw [Bool.eq_false_iff]
    intro literal
    have outside := Scan.toNat_of_isLiteral literal
    omega
  have notSymbol : Scan.isSymbol letter = false := by
    rw [Bool.eq_false_iff]
    intro symbol
    simp only [Scan.isSymbol, Bool.or_eq_true, beq_iff_eq] at symbol
    rcases symbol with rfl | rfl
    · exact absurd range.2 (by decide)
    · exact absurd range.2 (by decide)
  have starts : Scan.startsName letter = true := by
    simp [Scan.startsName, Text.isAlphabetic, Char.isAlpha, isUpper]
  simp [Scan.isName, notBlank, notLiteral, notSymbol, starts]

variable (s : Symbols) {letter : Char} (x : Float)

theorem value_set_self (isUpper : letter.isUpper = true) :
    (s.set letter x).value? letter.toString = some x := by
  have notAnswer : ¬(letter.toString == "ANS") = true := by
    rw [beq_iff_eq]
    intro same
    have chars := congrArg String.toList same
    simp at chars
  rw [value?, if_neg notAnswer]
  simp [named?, isUpper]

theorem value_set_of_ne {name : String} (other : name ≠ letter.toString) :
    (s.set letter x).value? name = s.value? name := by
  have named : (s.set letter x).named? name = s.named? name := by
    unfold named?
    split
    · rename_i c chars
      have differs : c ≠ letter := by
        rintro rfl
        exact other (String.toList_inj.mp (by rw [chars]; simp))
      rw [get?_set_of_ne s x differs]
    · rfl
  simp only [value?, named]
  rfl

theorem value_answer : { s with lastAnswer := some x }.value? "ANS" = some x := rfl

theorem value_answer_of_ne {name : String} (other : name ≠ "ANS") :
    { s with lastAnswer := some x }.value? name = s.value? name := by
  have notAnswer : (name == "ANS") = false := by simpa using other
  simp only [value?, notAnswer, Bool.false_eq_true, if_false]
  rfl

end Symbols

namespace Session

theorem setVariable_of_isUpper (s : Session) {letter : Char} (isUpper : letter.isUpper = true)
    (x : Float) : s.setVariable letter x = .ok { s with symbols := s.symbols.set letter x } := by
  rw [setVariable, if_pos isUpper]

theorem commit_eq_ok {s s' : Session} {text : String} {x : Float}
    (committed : s.commit text = .ok (s', x)) : s' = s.record text x := by
  obtain ⟨y, _, given⟩ := bind_eq_ok.mp committed
  cases given
  rfl

/-- A letter that is set has the value it was set to, and the answer after a commit is the value of
the commit, both to the bit. A text in which that letter or the answer is no token has the result it
had before, a value or an error. -/
theorem evaluate_afterWrite (s : Session) :
    (∀ letter x, 'A' ≤ letter → letter ≤ 'Z' → ∃ s', s.setVariable letter x = .ok s' ∧
      s'.evaluate letter.toString = .ok x ∧
      ∀ text, LeavesOut text letter.toString → s'.evaluate text = s.evaluate text) ∧
    ∀ committed x s', s.commit committed = .ok (s', x) →
      s'.evaluate "ANS" = .ok x ∧
      ∀ text, LeavesOut text "ANS" → s'.evaluate text = s.evaluate text := by
  constructor
  · intro letter x low high
    have isUpper : letter.isUpper = true := by
      simp only [Char.isUpper, decide_eq_true_eq]
      exact ⟨low, high⟩
    refine ⟨_, s.setVariable_of_isUpper isUpper x, ?_, ?_⟩
    · exact evaluateText_name (Symbols.isName_letter isUpper)
        (s.symbols.value_set_self x isUpper) _ _
    · intro text leftOut
      refine evaluateText_congr (fun ts scanned name member => ?_) _ _
      have other : name ≠ letter.toString := by
        rintro rfl
        exact leftOut ts scanned member
      exact s.symbols.value_set_of_ne x other
  · intro committed x s' step
    obtain rfl := commit_eq_ok step
    constructor
    · have isName : Scan.isName "ANS".toList = true := by decide +kernel
      exact evaluateText_name isName (s.symbols.value_answer x) _ _
    · intro text leftOut
      refine evaluateText_congr (fun ts scanned name member => ?_) _ _
      have other : name ≠ "ANS" := by
        rintro rfl
        exact leftOut ts scanned member
      exact s.symbols.value_answer_of_ne x other

/-- Minus two under a letter, then committed, in a session that knows nothing yet. -/
theorem evaluate_afterWrite_minusTwo :
    ∃ set committed : Session, (start {}).setVariable 'A' (-2) = .ok set ∧
      set.evaluate "A" = .ok (-2) ∧ set.evaluate "AB" = (start {}).evaluate "AB" ∧
      set.commit "A" = .ok (committed, -2) ∧ committed.evaluate "ANS" = .ok (-2) ∧
      committed.evaluate "A" = .ok (-2) := by
  obtain ⟨set, wrote, value, others⟩ :=
    (evaluate_afterWrite (start {})).1 'A' (-2) (by decide) (by decide)
  have text : 'A'.toString = "A" := by decide
  rw [text] at value others
  have without {text name : String} {ts : List (Token Float)} (scanned : tokenize text = .ok ts)
      (missing : Token.name name ∉ ts) : LeavesOut text name := by
    intro us scanned'
    cases scanned.symm.trans scanned'
    exact missing
  have longer : tokenize "AB" = .ok [.name "AB"] := by decide +kernel
  have letter : tokenize "A" = .ok [.name "A"] := by decide +kernel
  have committed := commit_of_value value
  have ⟨answer, kept⟩ := (evaluate_afterWrite set).2 "A" (-2) _ committed
  refine ⟨set, _, wrote, value, others "AB" (without longer (by decide)), committed, answer, ?_⟩
  rw [kept "A" (without letter (by decide)), value]

end Session

end Reckoner
