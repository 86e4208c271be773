import Reckoner.Proofs.Normal.Scan
import Reckoner.Proofs.Result

/-! Parentheses from the text to the normal form. The text is checked by its characters and repaired
by its tokens, after values in parentheses came in for names. Both go by one depth: scanning keeps
the parentheses in order, and a value in parentheses opens and closes a pair. -/
namespace Reckoner

open Paren

namespace Normal

variable {ν : Type} (number : Float → ν) (symbols : Symbols) (binding : Option (Binding ν))

/-- What stands for a name opens and closes in pairs. -/
theorem depthAfter_replacement (called : Bool) (name : String) (depth : Nat) :
    depthAfter depth (tokenParens (replacement number symbols binding called name)) =
      some depth := by
  have spelled (x : Float) : depthAfter depth (tokenParens (spelled number x)) = some depth := by
    unfold Normal.spelled
    split <;> rfl
  unfold replacement
  split
  · rfl
  split
  · exact spelled _
  split
  · exact spelled _
  split
  · rfl
  split <;> rfl

theorem depthAfter_replaceNames (depth : Nat) (ts : List (Token Float)) :
    depthAfter depth (tokenParens (replaceNames number symbols binding ts)) =
      depthAfter depth (tokenParens ts) := by
  fun_induction replaceNames number symbols binding ts generalizing depth with
  | case1 => rfl
  | case2 s rest ih =>
    rw [tokenParens_append, depthAfter_append, depthAfter_replacement]
    exact ih depth
  | case3 x rest ih => exact ih depth
  | case4 m rest ih =>
    -- A mark may change the depth, so the rest is compared at every depth.
    have same : (.mark m : Token ν).paren? = (.mark m : Token Float).paren? := by cases m <;> rfl
    rw [tokenParens_cons, tokenParens_cons, same, depthAfter_append, depthAfter_append]
    exact congrArg _ (funext ih)

theorem missing_eq {ts : List (Token ν)} {depth : Nat}
    (h : depthAfter 0 (tokenParens ts) = some depth) : missing ts = depth := by
  have counts := count_of_depthAfter_tokenParens h
  unfold missing
  omega

/-- The tokens of a text, with values for names, are as deep as its characters. -/
theorem depthAfter_tokenize {text : String} {ts : List (Token Float)}
    (scanned : tokenize text = .ok ts) :
    depthAfter 0 (tokenParens (replaceNames number symbols binding ts)) =
      depthAfter 0 (textParens text.toList) := by
  rw [depthAfter_replaceNames, Scan.tokenParens_tokens scanned]

theorem depthAfter_repaired {ts : List (Token ν)} {depth : Nat}
    (h : depthAfter 0 (tokenParens ts) = some depth) :
    depthAfter 0 (tokenParens (ts ++ List.replicate depth (.mark .closing))) = some 0 := by
  have added : tokenParens (List.replicate depth (.mark .closing : Token ν)) =
      List.replicate depth .closing := List.filterMap_replicate_of_some rfl
  rw [tokenParens_append, depthAfter_append, h, added]
  exact depthAfter_replicate depth

end Normal

section

variable {ν : Type} (number : Float → ν) (text : String) (symbols : Symbols)
  (binding : Option (Binding ν)) (policy : ParenPolicy)

/-- Normalization goes by the depth after the text, for the check and for the repair. -/
theorem normalizeWith_eq :
    normalizeWith number text symbols binding policy =
      match depthAfter 0 (textParens text.toList) with
      | none => .error (.paren .extraClosing)
      | some unclosed =>
        if 0 < unclosed && policy == .strict then .error (.paren .missingClosing)
        else
          match tokenize text with
          | .error error => .error error
          | .ok ts =>
            .ok ⟨Normal.replaceNames number symbols binding ts ++
              List.replicate unclosed (.mark .closing), unclosed⟩ := by
  rw [normalizeWith, checkBalance, unclosedFrom_eq]
  cases depth : depthAfter 0 (textParens text.toList) with
  | none => rfl
  | some unclosed =>
    simp only [ok_bind]
    split
    · rfl
    · cases scanned : tokenize text with
      | error error => rfl
      | ok ts =>
        have kept := (Normal.depthAfter_tokenize number symbols binding scanned).trans depth
        simp only [ok_bind, Normal.missing_eq kept]

variable {number text symbols binding policy}

theorem normalizeWith_ok {n : Normal ν}
    (h : normalizeWith number text symbols binding policy = .ok n) :
    ∃ ts, tokenize text = .ok ts ∧ depthAfter 0 (textParens text.toList) = some n.repaired ∧
      (policy = .strict → n.repaired = 0) ∧ n.tokens =
        Normal.replaceNames number symbols binding ts ++
          List.replicate n.repaired (.mark .closing) := by
  rw [normalizeWith_eq] at h
  split at h
  · cases h
  rename_i unclosed depth
  split at h
  · cases h
  rename_i allowed
  split at h
  · cases h
  rename_i ts scanned
  cases h
  refine ⟨ts, scanned, depth, ?_, rfl⟩
  rintro rfl
  simpa using allowed

theorem depthAfter_normal {n : Normal ν}
    (h : normalizeWith number text symbols binding policy = .ok n) :
    depthAfter 0 (tokenParens n.tokens) = some 0 ∧
      depthAfter 0 (textParens text.toList) = some n.repaired ∧
      (policy = .strict → n.repaired = 0) := by
  obtain ⟨ts, scanned, depth, strict, tokens⟩ := normalizeWith_ok h
  refine ⟨?_, depth, strict⟩
  rw [tokens]
  apply Normal.depthAfter_repaired
  rw [Normal.depthAfter_tokenize number symbols binding scanned, depth]

/-- A balanced text needs no repair, and no policy refuses it. -/
theorem normalizeWith_of_balanced {ts : List (Token Float)}
    (balanced : depthAfter 0 (textParens text.toList) = some 0) (scanned : tokenize text = .ok ts) :
    normalizeWith number text symbols binding policy =
      .ok ⟨Normal.replaceNames number symbols binding ts, 0⟩ := by
  rw [normalizeWith_eq, balanced]
  simp [scanned]

/-- A failure is one of three, each with the reason that it has alone. -/
theorem normalizeWith_error {error : Error}
    (h : normalizeWith number text symbols binding policy = .error error) :
    (error = .paren .extraClosing ∧ depthAfter 0 (textParens text.toList) = none) ∨
      (error = .paren .missingClosing ∧
        ∃ unclosed, depthAfter 0 (textParens text.toList) = some unclosed ∧ 0 < unclosed ∧
          policy = .strict) ∨
      ∃ fault, error = .read fault ∧ tokenize text = .error error := by
  rw [normalizeWith_eq] at h
  split at h
  · rename_i extra
    cases h
    exact .inl ⟨rfl, extra⟩
  rename_i unclosed depth
  split at h
  · rename_i refused
    cases h
    exact .inr (.inl ⟨rfl, unclosed, depth, by simpa using refused⟩)
  split at h
  · rename_i failed
    cases h
    obtain ⟨fault, rfl⟩ := Scan.tokens_error failed
    exact .inr (.inr ⟨fault, rfl, failed⟩)
  · cases h

theorem normalizeWith_extraClosing_iff :
    normalizeWith number text symbols binding policy = .error (.paren .extraClosing) ↔
      depthAfter 0 (textParens text.toList) = none := by
  constructor
  · intro h
    obtain ⟨_, extra⟩ | ⟨other, _⟩ | ⟨_, other, _⟩ := normalizeWith_error h
    · exact extra
    · cases other
    · cases other
  · intro extra
    rw [normalizeWith_eq, extra]

theorem normalizeWith_missingClosing_iff :
    normalizeWith number text symbols binding policy = .error (.paren .missingClosing) ↔
      ∃ unclosed, depthAfter 0 (textParens text.toList) = some unclosed ∧ 0 < unclosed ∧
        policy = .strict := by
  constructor
  · intro h
    obtain ⟨other, _⟩ | ⟨_, missing⟩ | ⟨_, other, _⟩ := normalizeWith_error h
    · cases other
    · exact missing
    · cases other
  · rintro ⟨unclosed, depth, positive, rfl⟩
    rw [normalizeWith_eq, depth]
    simp [positive]

end

/-- The tokens of a normal form are balanced, and what was added to them is what the text lacks. The
two faults of parentheses are exactly those of the characters, and come before any other. -/
theorem normalize_balanced (text : String) (symbols : Symbols) (binding : Option (Binding Float))
    (policy : ParenPolicy) :
    (∀ n, normalize text symbols binding policy = .ok n →
      (∀ front, front <+: n.tokens →
        front.countP (Normal.isMark .closing) ≤ front.countP (Normal.isMark .opening)) ∧
      n.tokens.countP (Normal.isMark .closing) = n.tokens.countP (Normal.isMark .opening) ∧
      checkBalance text = .ok n.repaired ∧ (policy = .strict → n.repaired = 0)) ∧
    (normalize text symbols binding policy = .error (.paren .extraClosing) ↔
      ∃ front, front <+: text.toList ∧ front.count '(' < front.count ')') ∧
    (normalize text symbols binding policy = .error (.paren .missingClosing) ↔
      (∀ front, front <+: text.toList → front.count ')' ≤ front.count '(') ∧
        text.toList.count ')' < text.toList.count '(' ∧ policy = .strict) ∧
    (∀ error, normalize text symbols binding policy = .error error →
      error = .paren .extraClosing ∨ error = .paren .missingClosing ∨
        tokenize text = .error error) := by
  have prefixes := depthAfter_textParens_isSome_iff text.toList
  refine ⟨?_, ?_, ?_, ?_⟩
  · intro n h
    obtain ⟨balanced, depth, strict⟩ := depthAfter_normal h
    obtain ⟨fronts, totals⟩ := balanced_of_depthAfter balanced
    refine ⟨fronts, totals, ?_, strict⟩
    rw [checkBalance, unclosedFrom_eq, depth]
  · rw [normalize, normalizeWith_extraClosing_iff, ← Option.not_isSome_iff_eq_none, prefixes]
    simp only [Classical.not_forall, Nat.not_le, exists_prop]
  · rw [normalize, normalizeWith_missingClosing_iff, ← prefixes]
    constructor
    · rintro ⟨unclosed, depth, positive, strict⟩
      have counts := count_of_depthAfter_textParens depth
      exact ⟨Option.isSome_of_eq_some depth, by omega, strict⟩
    · rintro ⟨reached, fewer, strict⟩
      obtain ⟨unclosed, depth⟩ := Option.isSome_iff_exists.mp reached
      have counts := count_of_depthAfter_textParens depth
      exact ⟨unclosed, depth, by omega, strict⟩
  · intro error h
    obtain ⟨extra, _⟩ | ⟨missing, _⟩ | ⟨_, _, failed⟩ := normalizeWith_error h
    · exact .inl extra
    · exact .inr (.inl missing)
    · exact .inr (.inr failed)

end Reckoner
