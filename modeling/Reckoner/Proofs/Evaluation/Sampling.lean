import Reckoner.Proofs.Evaluation.Values

/-! A formula at all its points. The point comes in for a hole, after everything that can fail. -/
namespace Reckoner

theorem Expr.map_getD (c : Expr (Option Float)) (x : Float) :
    c.map (·.getD x) = c.plug (.number x) := by
  unfold Expr.map Expr.plug
  congr
  funext o
  cases o <;> rfl

namespace Formula

variable (f : Formula)

/-- The normal form of a formula before the point is known. -/
def holed : Except Error (Normal (Option Float)) :=
  normalizeWith some f.text f.symbols (some ⟨f.free, none⟩) .repair

def program : Except Error (Program (Option Float)) := do
  (← parse (← f.holed).tokens).compile

theorem normalize_eq (x : Float) :
    normalize f.text f.symbols (some ⟨f.free, x⟩) .repair =
      f.holed.map (Normal.map (·.getD x)) :=
  normalizeWith_map (fun o : Option Float => o.getD x) some f.symbols (some ⟨f.free, none⟩)
    f.text .repair

theorem verdict_tryEval (x : Float) : verdict (f.tryEval x) = verdict f.program := by
  rw [tryEval, normalize_eq, program]
  cases f.holed with
  | error e => rfl
  | ok n =>
    have filled : evaluateTokens (n.map (·.getD x)).tokens .radian =
        (parse n.tokens >>= Expr.compile).map fun p =>
          (Program.execute .radian (p.fill fun o => [.load (o.getD x)])).1 := by
      rw [Normal.map, ← expand_renumbering]
      exact Substitution.evaluateTokens_expand (fun _ => rfl) (apart_renumbering _ _) .radian
    change verdict (evaluateTokens (n.map (·.getD x)).tokens .radian) = _
    rw [filled, verdict_map]
    rfl

theorem parse_holed {n : Normal (Option Float)} {c : Expr (Option Float)}
    (read : parse n.tokens = .ok c) (x : Float) :
    parse (n.map (·.getD x)).tokens = .ok (c.plug (.number x)) := by
  rw [← Expr.map_getD]
  exact (parse_map _ n.tokens).trans (by rw [read]; rfl)

/-- A formula fails at every point, with one error, or has a value at every point. In the second
case there is one tree with holes, and one program for it, and at each point the tree that is
evaluated and the program that is run are these two with the point in every hole. -/
theorem tryEval_uniform :
    (∃ error, ∀ x, f.tryEval x = .error error) ∨
      ∃ (c : Expr (Option Float)) (p : Program (Option Float)), c.compile = .ok p ∧
        ∀ x, ∃ n v, normalize f.text f.symbols (some ⟨f.free, x⟩) .repair = .ok n ∧
          parse n.tokens = .ok (c.plug (.number x)) ∧
          (c.plug (.number x)).compile = .ok (p.plug [.load x]) ∧
          (c.plug (.number x)).value? .radian = some v ∧ f.tryEval x = .ok v := by
  cases program : f.program with
  | error e =>
    refine .inl ⟨e, fun x => ?_⟩
    have fails := f.verdict_tryEval x
    rw [program] at fails
    exact verdict_eq_error_iff.mp fails
  | ok p =>
    obtain ⟨n, normal, program⟩ := bind_eq_ok.mp program
    obtain ⟨c, read, compiled⟩ := bind_eq_ok.mp program
    refine .inr ⟨c, p, compiled, fun x => ?_⟩
    have normalAt : normalize f.text f.symbols (some ⟨f.free, x⟩) .repair =
        .ok (n.map (·.getD x)) := by
      rw [normalize_eq, normal]
      rfl
    have tree := parse_holed read x
    have code : (c.plug (.number x)).compile = .ok (p.plug [.load x]) := by
      rw [Expr.compile_plug rfl, compiled]
      rfl
    have value := Expr.value_of_compile code .radian
    refine ⟨_, _, normalAt, tree, code, value, ?_⟩
    rw [tryEval, normalAt]
    exact evaluateTokens_eq_ok_iff.mpr ⟨_, _, tree, code, value⟩

end Formula

end Reckoner
