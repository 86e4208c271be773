import Reckoner.Proofs.Normal.Balance
import Reckoner.Proofs.Parse.Context

/-! The values of an expression apart from its structure. If blocks of tokens stand for numbers and
are numbers themselves, perhaps in parentheses, then whether the tokens have a value is decided
before the blocks come in, and only the value itself depends on them. -/
namespace Reckoner

variable {ν μ : Type}

/-- Blocks that are numbers change what is loaded and nothing else. -/
theorem Substitution.evaluateTokens_expand {S : Substitution ν Float} {value : ν → Float}
    (numeric : ∀ x, S.tree x = .number (value x)) {ts : List (Token ν)} (apart : S.Apart ts)
    (mode : AngleMode) :
    evaluateTokens (S.expand ts) mode =
      ((parse ts >>= Expr.compile).map fun p =>
        (Program.execute mode (p.fill fun x => [.load (value x)])).1) := by
  rw [evaluateTokens, S.parse_expand apart]
  cases parse ts with
  | error f => rfl
  | ok e =>
    have compiled := Expr.compile_bind (f := S.tree) (g := fun x => [.load (value x)])
      (fun x => by rw [numeric]; rfl) e
    simp only [Except.map, ok_bind, compiled]
    cases e.compile <;> rfl

/-- Whether a step succeeds, and its error if it does not. -/
def verdict {ε α : Type} (r : Except ε α) : Except ε Unit := r.map fun _ => ()

theorem verdict_map {ε α β : Type} (f : α → β) (r : Except ε α) :
    verdict (r.map f) = verdict r := by
  cases r <;> rfl

theorem verdict_eq_error_iff {ε α : Type} {r : Except ε α} {error : ε} :
    verdict r = .error error ↔ r = .error error := by
  cases r <;> simp [verdict, Except.map]

section

variable (f : ν → μ)

def Binding.map (b : Binding ν) : Binding μ := ⟨b.name, f b.value⟩

def Normal.map (n : Normal ν) : Normal μ := ⟨n.tokens.map (Token.map f), n.repaired⟩

def renumbering : Substitution ν μ where
  block x := [.number (f x)]
  tree x := .number (f x)
  stands x := .number (f x)

theorem expand_renumbering (ts : List (Token ν)) :
    (renumbering f).expand ts = ts.map (Token.map f) := by
  induction ts with
  | nil => rfl
  | cons t ts ih =>
    cases t <;> exact congrArg (List.cons _) ih

theorem apart_renumbering (ts : List (Token ν)) : (renumbering f).Apart ts :=
  fun _ _ _ _ _ => rfl

theorem parse_map (ts : List (Token ν)) :
    parse (ts.map (Token.map f)) = (parse ts).map (Expr.map f) := by
  rw [← expand_renumbering, (renumbering f).parse_expand (apart_renumbering f ts)]
  rfl

variable (number : Float → ν) (symbols : Symbols) (binding : Option (Binding ν))

theorem Normal.replacement_map (called : Bool) (name : String) :
    replacement (f ∘ number) symbols (binding.map (Binding.map f)) called name =
      (replacement number symbols binding called name).map (Token.map f) := by
  have spelled (x : Float) :
      spelled (f ∘ number) x = (spelled number x).map (Token.map f) := by
    unfold Normal.spelled
    split <;> rfl
  have bound : (binding.map (Binding.map f)).filter (·.name == name) =
      (binding.filter (·.name == name)).map (Binding.map f) := by
    cases binding with
    | none => rfl
    | some b =>
      simp only [Option.map_some, Option.filter_some, Binding.map]
      split <;> rfl
  unfold replacement
  rw [bound]
  cases binding.filter (·.name == name) with
  | some b => rfl
  | none =>
    simp only [Option.map_none]
    split
    · exact spelled _
    split
    · exact spelled _
    split
    · rfl
    split <;> rfl

theorem Normal.replaceNames_map (ts : List (Token Float)) :
    replaceNames (f ∘ number) symbols (binding.map (Binding.map f)) ts =
      (replaceNames number symbols binding ts).map (Token.map f) := by
  fun_induction replaceNames number symbols binding ts with
  | case1 => rfl
  | case2 s rest ih => rw [replaceNames, replacement_map, ih, List.map_append]
  | case3 x rest ih => exact congrArg (List.cons _) ih
  | case4 m rest ih => exact congrArg (List.cons _) ih

/-- What stands for the values of names has no part in normalization. -/
theorem normalizeWith_map (text : String) (policy : ParenPolicy) :
    normalizeWith (f ∘ number) text symbols (binding.map (Binding.map f)) policy =
      (normalizeWith number text symbols binding policy).map (Normal.map f) := by
  rw [normalizeWith_eq, normalizeWith_eq]
  split
  · rfl
  split
  · rfl
  split
  · rfl
  · simp [Except.map, Normal.map, Normal.replaceNames_map, Token.map]

end

end Reckoner
