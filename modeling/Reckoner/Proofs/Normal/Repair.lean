import Reckoner.Proofs.Normal.Balance
import Reckoner.Proofs.Parse.Context
import Reckoner.Proofs.Scan.Boundary

/-! Repair as typing. The closing parentheses that are added to the tokens of a text could as well
have been typed after it: scanning takes them as tokens of their own, whatever is half finished
before them, and no name before them is replaced otherwise. -/
namespace Reckoner

open Grammar (IsAtom)
open Paren

def closings (k : Nat) : List Char := List.replicate k ')'

namespace Scan

theorem tokens_closing (cs : List Char) :
    tokens (')' :: cs) = (tokens cs).map (.mark .closing :: ·) :=
  tokens_of_lexeme rfl rfl

theorem tokens_closings (k : Nat) :
    tokens (closings k) = .ok (List.replicate k (.mark .closing)) := by
  induction k with
  | zero => exact tokens_nil
  | succ k ih =>
    rw [closings, List.replicate_succ, tokens_closing, ← closings, ih]
    rfl

theorem stops_closings (k : Nat) : Stops (closings k) := by
  cases k with
  | zero => constructor <;> nofun
  | succ k =>
    constructor
    · intro c first
      cases first
      decide +kernel
    · intro c first
      cases first
      decide
    · nofun

theorem tokens_append_closings (cs : List Char) (k : Nat) :
    tokens (cs ++ closings k) = (tokens cs).map (· ++ List.replicate k (.mark .closing)) := by
  rw [tokens_append (stops_closings k), tokens_closings]
  cases tokens cs <;> rfl

end Scan

theorem depthAfter_append_closings {cs : List Char} {k : Nat}
    (depth : depthAfter 0 (textParens cs) = some k) :
    depthAfter 0 (textParens (cs ++ closings k)) = some 0 := by
  have added : textParens (closings k) = List.replicate k .closing :=
    List.filterMap_replicate_of_some rfl
  rw [textParens, List.filterMap_append, ← textParens, ← textParens, depthAfter_append, depth,
    added]
  exact depthAfter_replicate k

section

variable {ν : Type} (number : Float → ν) (symbols : Symbols) (binding : Option (Binding ν))

theorem Normal.isCalled_append_closings (ts : List (Token Float)) (k : Nat) :
    isCalled (ts ++ List.replicate k (.mark .closing)) = isCalled ts := by
  cases ts with
  | nil => cases k <;> rfl
  | cons t ts =>
    unfold isCalled
    split <;> simp_all

theorem Normal.replaceNames_append_closings (ts : List (Token Float)) (k : Nat) :
    replaceNames number symbols binding (ts ++ List.replicate k (.mark .closing)) =
      replaceNames number symbols binding ts ++ List.replicate k (.mark .closing) := by
  induction ts with
  | nil =>
    induction k with
    | zero => rfl
    | succ k ih => exact congrArg (List.cons _) ih
  | cons t ts ih =>
    cases t with
    | number x => exact congrArg (List.cons _) ih
    | mark m => exact congrArg (List.cons _) ih
    | name s =>
      rw [List.cons_append, replaceNames, replaceNames, isCalled_append_closings, ih,
        List.append_assoc]

theorem normalizeWith_append_closings {text : String} {k : Nat}
    (unclosed : checkBalance text = .ok k) :
    (normalizeWith number (text ++ String.ofList (closings k)) symbols binding .strict).map
        (·.tokens) =
      (normalizeWith number text symbols binding .repair).map (·.tokens) := by
  have depth : depthAfter 0 (textParens text.toList) = some k := by
    rw [checkBalance, unclosedFrom_eq] at unclosed
    split at unclosed
    · rename_i reached
      cases unclosed
      exact reached
    · cases unclosed
  have typed : (text ++ String.ofList (closings k)).toList = text.toList ++ closings k := by
    rw [String.toList_append, String.toList_ofList]
  have scanned : tokenize (text ++ String.ofList (closings k)) =
      (tokenize text).map (· ++ List.replicate k (.mark .closing)) := by
    rw [tokenize, typed, Scan.tokens_append_closings, ← tokenize]
  rw [normalizeWith_eq, normalizeWith_eq, typed, depthAfter_append_closings depth, depth, scanned]
  cases tokenize text with
  | error e => simp [Except.map]
  | ok ts => simp [Except.map, Normal.replaceNames_append_closings]

end

/-- Adding the missing closing parentheses is the same as typing them: the tokens are the same, or
the error is, and so is the value in every mode. -/
theorem normalize_append_closings {text : String} {k : Nat} (unclosed : checkBalance text = .ok k)
    (symbols : Symbols) (binding : Option (Binding Float)) :
    (normalize text symbols binding .repair).map (·.tokens) =
        (normalize (text ++ String.ofList (closings k)) symbols binding .strict).map (·.tokens) ∧
      ∀ mode, (normalize text symbols binding .repair >>= (·.evaluate mode)) =
        (normalize (text ++ String.ofList (closings k)) symbols binding .strict >>=
          (·.evaluate mode)) := by
  have tokens := normalizeWith_append_closings id symbols binding unclosed
  rw [← normalize, ← normalize] at tokens
  refine ⟨tokens.symm, fun mode => ?_⟩
  have evaluated (r : Except Error (Normal Float)) :
      r >>= (·.evaluate mode) = r.map (·.tokens) >>= (evaluateTokens · mode) := by
    cases r <;> rfl
  rw [evaluated, evaluated, tokens]

/-- Two parentheses left open, the inner one after a name that scanning has to end. -/
theorem normalize_append_closings_twoOpen :
    checkBalance "2*(A+(e" = .ok 2 ∧
      evaluateText "2*(A+(e" (Symbols.set {} 'A' 3) .radian .repair =
        evaluateText "2*(A+(e))" (Symbols.set {} 'A' 3) .radian .strict ∧
      evaluateText "2*(A+(e" (Symbols.set {} 'A' 3) .radian .repair = .ok 11.43656365691809 := by
  have unclosed : checkBalance "2*(A+(e" = .ok 2 := by rfl
  have typed := (normalize_append_closings unclosed (Symbols.set {} 'A' 3) none).2 .radian
  have balanced : depthAfter 0 (textParens "2*(A+(e))".toList) = some 0 := by decide +kernel
  have scanned : tokenize "2*(A+(e))" = .ok [.number 2, .mark .star, .mark .opening, .name "A",
      .mark .plus, .mark .opening, .name "e", .mark .closing, .mark .closing] := by decide +kernel
  have replaced : Normal.replaceNames id (Symbols.set {} 'A' 3) none
      [.number 2, .mark .star, .mark .opening, .name "A", .mark .plus, .mark .opening, .name "e",
        .mark .closing, .mark .closing] =
      [.number 2, .mark .star, .mark .opening, .number 3, .mark .plus, .mark .opening,
        .number 2.718281828459045, .mark .closing, .mark .closing] := by decide +kernel
  have tree (x y z : Float) :
      parse [.number x, .mark .star, .mark .opening, .number y, .mark .plus, .mark .opening,
        .number z, .mark .closing, .mark .closing] =
      .ok (.binary (.number x) '*' (.binary (.number y) '+' (.number z))) := by
    have inner : IsAtom [.mark .opening, .number z, .mark .closing, .mark .closing] (.number z)
        [.mark .closing] :=
      .group (IsAtom.number.isPower rfl).isSum
    have outer : IsAtom (.mark .opening :: .number y :: .mark .plus :: .mark .opening :: _)
        (.binary (.number y) '+' (.number z)) [] :=
      .group (.plus (IsAtom.number.isPower rfl).isSum (inner.isPower rfl).isProduct)
    exact parse_eq_ok_iff_isSum.mpr
      (.product (.star (IsAtom.number.isPower rfl).isProduct (.power (outer.isPower rfl))))
  have value : evaluateText "2*(A+(e))" (Symbols.set {} 'A' 3) .radian .strict =
      .ok 11.43656365691809 := by
    rw [evaluateText, normalize, normalizeWith_of_balanced balanced scanned, replaced, ok_bind]
    refine evaluateTokens_eq_ok_iff.mpr ⟨_, _, tree 2 3 2.718281828459045, rfl, ?_⟩
    simp only [Expr.value?]
    decide +kernel
  exact ⟨unclosed, typed, typed.trans value⟩

end Reckoner
