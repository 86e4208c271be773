import Reckoner.Expression.Normal

/-! The parentheses of a text and those among some tokens, with nothing between them. Both kinds of
list have one notion of depth, and what the texts and the tokens say by counting is said of it. -/
namespace Reckoner

inductive Paren where
  | opening
  | closing
deriving DecidableEq

namespace Paren

def char : Paren → Char
  | .opening => '('
  | .closing => ')'

def mark : Paren → Mark
  | .opening => .opening
  | .closing => .closing

def ofChar? (c : Char) : Option Paren :=
  if c = '(' then some .opening else if c = ')' then some .closing else none

theorem ofChar_eq_some_iff {c : Char} {p : Paren} : ofChar? c = some p ↔ c = p.char := by
  constructor
  · intro h
    unfold ofChar? at h
    split at h
    · cases h
      assumption
    split at h
    · cases h
      assumption
    · cases h
  · rintro rfl
    cases p <;> rfl

/-- The depth after some parentheses. A closing one without a partner has none. -/
def depthAfter : Nat → List Paren → Option Nat
  | depth, [] => some depth
  | depth, .opening :: ps => depthAfter (depth + 1) ps
  | 0, .closing :: _ => none
  | depth + 1, .closing :: ps => depthAfter depth ps

theorem depthAfter_append (depth : Nat) (ps qs : List Paren) :
    depthAfter depth (ps ++ qs) = (depthAfter depth ps).bind (depthAfter · qs) := by
  fun_induction depthAfter depth ps with
  | case1 depth => rfl
  | case2 depth ps ih => exact ih
  | case3 ps => rfl
  | case4 depth ps ih => exact ih

theorem depthAfter_replicate (depth : Nat) :
    depthAfter depth (List.replicate depth .closing) = some 0 := by
  induction depth with
  | zero => rfl
  | succ depth ih => exact ih

theorem count_of_depthAfter {depth k : Nat} {ps : List Paren} (h : depthAfter depth ps = some k) :
    k + ps.count .closing = depth + ps.count .opening := by
  fun_induction depthAfter depth ps with
  | case1 depth =>
    cases h
    rfl
  | case2 depth ps ih =>
    have counts := ih h
    rw [List.count_cons_self, List.count_cons_of_ne (by decide)]
    omega
  | case3 ps => cases h
  | case4 depth ps ih =>
    have counts := ih h
    rw [List.count_cons_self, List.count_cons_of_ne (by decide)]
    omega

/-- A depth is reached exactly if no prefix closes more than it opens. -/
theorem depthAfter_isSome_iff (depth : Nat) (ps : List Paren) :
    (depthAfter depth ps).isSome ↔
      ∀ front, front <+: ps → front.count .closing ≤ depth + front.count .opening := by
  constructor
  · rintro reached front ⟨rest, rfl⟩
    rw [depthAfter_append] at reached
    cases h : depthAfter depth front with
    | none => simp [h] at reached
    | some k =>
      have counts := count_of_depthAfter h
      omega
  · intro guarded
    fun_induction depthAfter depth ps with
    | case1 depth => rfl
    | case2 depth ps ih =>
      apply ih
      intro front isPrefix
      have bound := guarded (.opening :: front) (by simpa using isPrefix)
      rw [List.count_cons_self, List.count_cons_of_ne (by decide)] at bound
      omega
    | case3 ps =>
      have bound := guarded [.closing] (by simp)
      simp at bound
    | case4 depth ps ih =>
      apply ih
      intro front isPrefix
      have bound := guarded (.closing :: front) (by simpa using isPrefix)
      rw [List.count_cons_self, List.count_cons_of_ne (by decide)] at bound
      omega

end Paren

def Token.paren? {ν : Type} : Token ν → Option Paren
  | .mark .opening => some .opening
  | .mark .closing => some .closing
  | _ => none

open Paren

def textParens (cs : List Char) : List Paren := cs.filterMap ofChar?

def tokenParens {ν : Type} (ts : List (Token ν)) : List Paren := ts.filterMap Token.paren?

theorem count_textParens (p : Paren) (cs : List Char) :
    (textParens cs).count p = cs.count p.char := by
  rw [textParens, List.count_filterMap, List.count]
  refine List.countP_congr fun c _ => ?_
  simp only [beq_iff_eq]
  exact ofChar_eq_some_iff

theorem count_tokenParens {ν : Type} (p : Paren) (ts : List (Token ν)) :
    (tokenParens ts).count p = ts.countP (Normal.isMark p.mark) := by
  rw [tokenParens, List.count_filterMap]
  congr 1
  funext t
  rcases t with x | s | m
  · rfl
  · rfl
  · cases p <;> cases m <;> rfl

theorem count_of_depthAfter_textParens {depth : Nat} {cs : List Char}
    (h : depthAfter 0 (textParens cs) = some depth) : depth + cs.count ')' = cs.count '(' := by
  have counts := count_of_depthAfter h
  rwa [count_textParens, count_textParens, Nat.zero_add] at counts

theorem count_of_depthAfter_tokenParens {ν : Type} {depth : Nat} {ts : List (Token ν)}
    (h : depthAfter 0 (tokenParens ts) = some depth) :
    depth + ts.countP (Normal.isMark .closing) = ts.countP (Normal.isMark .opening) := by
  have counts := count_of_depthAfter h
  rwa [count_tokenParens, count_tokenParens, Nat.zero_add] at counts

theorem textParens_cons (c : Char) (cs : List Char) :
    textParens (c :: cs) = (ofChar? c).toList ++ textParens cs := by
  cases h : ofChar? c <;> simp [textParens, h]

theorem tokenParens_cons {ν : Type} (t : Token ν) (ts : List (Token ν)) :
    tokenParens (t :: ts) = t.paren?.toList ++ tokenParens ts := by
  cases h : t.paren? <;> simp [tokenParens, h]

theorem tokenParens_append {ν : Type} (ts us : List (Token ν)) :
    tokenParens (ts ++ us) = tokenParens ts ++ tokenParens us := List.filterMap_append

theorem unclosedFrom_eq (depth : Nat) (cs : List Char) :
    unclosedFrom depth cs =
      match depthAfter depth (textParens cs) with
      | some k => .ok k
      | none => .error (.paren .extraClosing) := by
  fun_induction unclosedFrom depth cs with
  | case1 depth => rfl
  | case2 depth cs ih => exact ih
  | case3 cs => rfl
  | case4 depth cs ih => exact ih
  | case5 depth c cs notOpening notFirst notClosing ih =>
    have plain : ofChar? c = none := by
      unfold ofChar?
      rw [if_neg notOpening, if_neg]
      rintro rfl
      cases depth with
      | zero => exact notFirst rfl rfl
      | succ depth => exact notClosing depth rfl rfl
    rw [textParens_cons, plain]
    exact ih

theorem depthAfter_textParens_isSome_iff (cs : List Char) :
    (depthAfter 0 (textParens cs)).isSome ↔
      ∀ front, front <+: cs → front.count ')' ≤ front.count '(' := by
  rw [depthAfter_isSome_iff]
  constructor
  · intro guarded front isPrefix
    have bound := guarded (textParens front) (isPrefix.filterMap ofChar?)
    rwa [count_textParens, count_textParens, Nat.zero_add] at bound
  · intro guarded ps isPrefix
    obtain ⟨front, isPrefix', rfl⟩ := List.prefix_filterMap_iff.mp isPrefix
    have bound := guarded front isPrefix'
    rw [← textParens, count_textParens, count_textParens, Nat.zero_add]
    exact bound

theorem balanced_of_depthAfter {ν : Type} {ts : List (Token ν)}
    (h : depthAfter 0 (tokenParens ts) = some 0) :
    (∀ front, front <+: ts →
        front.countP (Normal.isMark .closing) ≤ front.countP (Normal.isMark .opening)) ∧
      ts.countP (Normal.isMark .closing) = ts.countP (Normal.isMark .opening) := by
  constructor
  · intro front isPrefix
    have guarded := (depthAfter_isSome_iff 0 _).mp (Option.isSome_of_eq_some h)
    have bound := guarded (tokenParens front) (isPrefix.filterMap Token.paren?)
    rwa [count_tokenParens, count_tokenParens, Nat.zero_add] at bound
  · have counts := count_of_depthAfter_tokenParens h
    rwa [Nat.zero_add] at counts

end Reckoner
