import Reckoner.Evaluation
import Reckoner.Proofs.Machine.Replacement
import Reckoner.Proofs.Parse.Substitution

/-! A phrase in parentheses in the midst of other tokens. The tokens around it are read with a hole
between them. A number and the phrase both fit the hole, and nothing that is read or computed
around it depends on which of them stands there. -/
namespace Reckoner

open Grammar Parse

variable {ν : Type}

def parenthesized (ts : List (Token ν)) : List (Token ν) :=
  .mark .opening :: ts ++ [.mark .closing]

/-- Tokens before and after a hole. -/
def holed (pre post : List (Token ν)) : List (Token (Option ν)) :=
  pre.map (Token.map some) ++ .number none :: post.map (Token.map some)

def Expr.plug (c : Expr (Option ν)) (e : Expr ν) : Expr ν :=
  c.bind fun
    | some x => .number x
    | none => e

def Program.plug (p : Program (Option ν)) (code : Program ν) : Program ν :=
  p.fill fun
    | some x => [.load x]
    | none => code

def filling {block : List (Token ν)} {e : Expr ν} (stands : Stands block e) :
    Substitution (Option ν) ν where
  block
    | some x => [.number x]
    | none => block
  tree
    | some x => .number x
    | none => e
  stands
    | some x => .number x
    | none => stands

section

variable {block : List (Token ν)} {e : Expr ν} (stands : Stands block e)

theorem expand_map_some (ts : List (Token ν)) :
    (filling stands).expand (ts.map (Token.map some)) = ts := by
  induction ts with
  | nil => rfl
  | cons t ts ih =>
    cases t <;> exact congrArg (List.cons _) ih

theorem expand_holed (pre post : List (Token ν)) :
    (filling stands).expand (holed pre post) = pre ++ block ++ post := by
  have before := expand_map_some stands pre
  have after := expand_map_some stands post
  unfold Substitution.expand at before after ⊢
  rw [holed, List.flatMap_append, List.flatMap_cons, before, after, List.append_assoc]
  rfl

theorem apart_map_some (ts : List (Token ν)) :
    (filling stands).Apart (ts.map (Token.map some)) := by
  rintro before s x after same
  have mem : Token.number x ∈ ts.map (Token.map some) := by simp [same]
  obtain ⟨t, _, ht⟩ := List.mem_map.mp mem
  cases t <;> cases ht
  rfl

/-- A block fits the hole unless it makes a call of a name before the hole. -/
theorem apart_holed (pre post : List (Token ν))
    (fits : opens block = false ∨ ∀ s, pre.getLast? ≠ some (.name s)) :
    (filling stands).Apart (holed pre post) := by
  induction pre with
  | nil => exact .cons nofun (apart_map_some stands post)
  | cons t pre ih =>
    cases pre with
    | nil =>
      refine .cons ?_ (ih (.inr nofun))
      rintro s x after named same
      cases same
      rcases fits with plain | unnamed
      · exact plain
      · cases t <;> cases named
        exact absurd rfl (unnamed s)
    | cons u pre =>
      refine .cons ?_ (ih (by rwa [List.getLast?_cons_cons] at fits))
      rintro s x after _ same
      cases u <;> cases same
      rfl

end

/-- What fits the hole is read as its tree. -/
theorem parse_holed {block : List (Token ν)} {e : Expr ν} (stands : Stands block e)
    {pre post : List (Token ν)}
    (fits : opens block = false ∨ ∀ s, pre.getLast? ≠ some (.name s)) :
    parse (pre ++ block ++ post) = (parse (holed pre post)).map (·.plug e) := by
  rw [← expand_holed stands, Substitution.parse_expand _ (apart_holed stands pre post fits)]
  rfl

theorem filterMap_number_map_some (ts : List (Token ν)) :
    (ts.map (Token.map some)).filterMap Token.number? =
      (ts.filterMap Token.number?).map some := by
  induction ts with
  | nil => rfl
  | cons t ts ih =>
    rcases t with x | s | m
    · exact congrArg (List.cons (some x)) ih
    · exact ih
    · exact ih

theorem numbers_holed {pre post : List (Token ν)} {c : Expr (Option ν)}
    (read : parse (holed pre post) = .ok c) :
    c.numbers = (pre.filterMap Token.number?).map some ++
      none :: (post.filterMap Token.number?).map some := by
  rw [parse_eq_ok_iff] at read
  obtain ⟨front, all, numbers⟩ := (sum_sound read).1.spans
  rw [List.append_nil] at all
  rw [← numbers, ← all, holed, List.filterMap_append, filterMap_number_map_some,
    ← filterMap_number_map_some post]
  rfl

namespace Expr

theorem compile_plug {e : Expr ν} {code : Program ν} (h : e.compile = .ok code)
    (c : Expr (Option ν)) : (c.plug e).compile = c.compile.map (·.plug code) := by
  refine compile_bind ?_ c
  rintro (_ | x)
  · exact h
  · rfl

theorem value_plug {mode : AngleMode} {e e' : Expr Float} (h : e.value? mode = e'.value? mode)
    (c : Expr (Option Float)) : (c.plug e).value? mode = (c.plug e').value? mode := by
  refine value_bind_congr ?_ c
  rintro (_ | x)
  · exact h
  · rfl

end Expr

/-- A list of tokens has the value of its tree, if there is a program for the tree. -/
theorem evaluateTokens_eq_ok_iff {ts : List (Token Float)} {mode : AngleMode} {v : Float} :
    evaluateTokens ts mode = .ok v ↔
      ∃ e code, parse ts = .ok e ∧ e.compile = .ok code ∧ e.value? mode = some v := by
  simp only [evaluateTokens, bind_eq_ok]
  constructor
  · rintro ⟨e, read, code, compiled, value⟩
    cases value
    exact ⟨e, code, read, compiled, Expr.value_of_compile compiled mode⟩
  · rintro ⟨e, code, read, compiled, value⟩
    rw [Expr.value_of_compile compiled mode] at value
    cases value
    exact ⟨e, read, code, compiled, rfl⟩

/-- Blocks that have programs and the same value can take each other's place. -/
theorem evaluateTokens_congr {ts ts' : List (Token Float)} {c : Expr (Option Float)}
    {e e' : Expr Float} {code code' : Program Float} {mode : AngleMode}
    (reads : parse ts = .ok (c.plug e)) (reads' : parse ts' = .ok (c.plug e'))
    (compiled : e.compile = .ok code) (compiled' : e'.compile = .ok code')
    (same : e.value? mode = e'.value? mode) :
    evaluateTokens ts mode = evaluateTokens ts' mode := by
  have filled := Expr.compile_plug compiled c
  have filled' := Expr.compile_plug compiled' c
  simp only [evaluateTokens, reads, reads', ok_bind]
  cases result : c.compile with
  | error f =>
    rw [filled, filled', result]
    rfl
  | ok p =>
    rw [result] at filled filled'
    have value := Expr.value_plug same c
    rw [Expr.value_of_compile filled mode, Expr.value_of_compile filled' mode] at value
    rw [filled, filled']
    exact congrArg Except.ok (Option.some.inj value)

/-- A phrase in parentheses is read where a number is, with its own tree in the number's place, and
fails where and as the number does. If the phrase has the value of the number, its program takes the
place of the number's one instruction, and nothing around them computes anything else. -/
theorem parse_parenthesized (pre ts post : List (Token Float)) (e : Expr Float) (v : Float)
    (reads : parse ts = .ok e) (unnamed : ∀ s, pre.getLast? ≠ some (.name s)) :
    ((∃ error, parse (pre ++ parenthesized ts ++ post) = .error error ∧
        parse (pre ++ .number v :: post) = .error error) ∨
      ∃ c : Expr (Option Float), parse (holed pre post) = .ok c ∧
        c.numbers = (pre.filterMap Token.number?).map some ++
          none :: (post.filterMap Token.number?).map some ∧
        parse (pre ++ parenthesized ts ++ post) = .ok (c.plug e) ∧
        parse (pre ++ .number v :: post) = .ok (c.plug (.number v)) ∧
        ∀ mode, evaluateTokens ts mode = .ok v → ∃ code, e.compile = .ok code ∧
          (c.plug e).compile = c.compile.map (·.plug code) ∧
          (c.plug (.number v)).compile = c.compile.map (·.plug [.load v])) ∧
      ∀ mode, evaluateTokens ts mode = .ok v →
        evaluateTokens (pre ++ parenthesized ts ++ post) mode =
          evaluateTokens (pre ++ .number v :: post) mode := by
  have isSum : IsSum ts e [] := parse_eq_ok_iff_isSum.mp reads
  have phrase : parse (pre ++ parenthesized ts ++ post) =
      (parse (holed pre post)).map (·.plug e) := parse_holed (.group isSum) (.inr unnamed)
  have number : parse (pre ++ [.number v] ++ post) =
      (parse (holed pre post)).map (·.plug (.number v)) := parse_holed (.number v) (.inl rfl)
  rw [← List.append_cons] at number
  have program {mode : AngleMode} (has : evaluateTokens ts mode = .ok v) :
      ∃ code, e.compile = .ok code ∧ e.value? mode = some v := by
    obtain ⟨e', code, reads', compiled, value⟩ := evaluateTokens_eq_ok_iff.mp has
    cases reads.symm.trans reads'
    exact ⟨code, compiled, value⟩
  cases read : parse (holed pre post) with
  | error f =>
    rw [read] at phrase number
    refine ⟨.inl ⟨f, phrase, number⟩, fun mode _ => ?_⟩
    rw [evaluateTokens, evaluateTokens, phrase, number]
    rfl
  | ok c =>
    rw [read] at phrase number
    refine ⟨.inr ⟨c, rfl, numbers_holed read, phrase, number, ?_⟩, ?_⟩
    · intro mode has
      obtain ⟨code, compiled, _⟩ := program has
      exact ⟨code, compiled, Expr.compile_plug compiled c, Expr.compile_plug rfl c⟩
    · intro mode has
      obtain ⟨code, compiled, value⟩ := program has
      exact evaluateTokens_congr phrase number compiled rfl value

def onePlusTwo : List (Token Float) := [.number 1, .mark .plus, .number 2]

/-- Two raised to one plus two, with a factorial of the exponent and a remainder after it. -/
theorem parse_parenthesized_onePlusTwo :
    evaluateTokens onePlusTwo .degree = .ok 3 ∧
      evaluateTokens ([.number 2, .mark .caret] ++ parenthesized onePlusTwo ++
          [.mark .bang, .mark .percent, .number 4]) .degree =
        evaluateTokens ([.number 2, .mark .caret] ++
          .number 3 :: [.mark .bang, .mark .percent, .number 4]) .degree := by
  have reads : parse onePlusTwo = .ok (.binary (.number 1) '+' (.number 2)) :=
    parse_eq_ok_iff_isSum.mpr
      (.plus (IsAtom.number.isPower rfl).isSum (IsAtom.number.isPower rfl).isProduct)
  have three : (Expr.binary (.number 1) '+' (.number 2)).value? .degree = some (3 : Float) := by
    simp only [Expr.value?]
    decide +kernel
  have value : evaluateTokens onePlusTwo .degree = .ok 3 :=
    evaluateTokens_eq_ok_iff.mpr ⟨_, _, reads, rfl, three⟩
  exact ⟨value, (parse_parenthesized [.number 2, .mark .caret] onePlusTwo
    [.mark .bang, .mark .percent, .number 4] _ 3 reads (by simp)).2 .degree value⟩

end Reckoner
