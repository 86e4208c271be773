import Reckoner.Calculus.Limit
import Reckoner.Calculus.Quadrature
import Reckoner.Calculus.Taylor
import Reckoner.Proofs.Binary.NotANumber
import Reckoner.Proofs.Calculus.Scan
import Reckoner.Proofs.Evaluation.Sampling

/-! A malformed expression in the numeric methods. It fails at every point if it fails at one, so its
samples are NaN and nothing else, and every method that answers says so in its own way: with NaN where
it answers with a number, with nothing where it answers with a limit or with points. Whether a scan
ends is not up to the samples. -/
namespace Reckoner

open Binary

namespace Calculus

def undefinedEverywhere : Float → Float := fun _ => nan

@[simp] theorem undefinedEverywhere_apply (x : Float) : undefinedEverywhere x = nan := rfl

theorem differentiate_undefined (x h : Float) : differentiate undefinedEverywhere x h = nan := by
  simp [differentiate]

theorem secondDerivative_undefined (x h : Float) :
    secondDerivative undefinedEverywhere x h = nan := by
  simp [secondDerivative]

/-- The ends of an interval are samples too, so a sum over it is NaN before its first step. -/
theorem addSamples_nan (f : Float → Float) (weight : Nat → Float → Float) (a h : Float) (n : Nat) :
    addSamples f weight a h n nan = nan := by
  unfold addSamples
  induction List.range' 1 (n - 1) with
  | nil => rfl
  | cons i places ih => rw [List.foldl_cons, nan_add, ih]

theorem integrate_undefined (a b : Float) (n : Nat) :
    integrate undefinedEverywhere a b n = nan := by
  simp [integrate, addSamples_nan]

theorem integrateTrapezoid_undefined (a b : Float) (n : Nat) :
    integrateTrapezoid undefinedEverywhere a b n = nan := by
  simp [integrateTrapezoid, addSamples_nan]

theorem limit_undefined (point : Float) (direction : LimitDirection) :
    limit undefinedEverywhere point direction = none := by
  cases direction with
  | left => simp only [limit, undefinedEverywhere_apply, isNaN_nan, if_true]
  | right => simp only [limit, undefinedEverywhere_apply, isNaN_nan, if_true]
  | both => simp [limit]

theorem totalFrom_nan (xs : List Float) : totalFrom nan xs = nan := by
  unfold totalFrom
  induction xs with
  | nil => rfl
  | cons x xs ih => rw [List.foldl_cons, nan_add, ih]

theorem centralTerm_undefined (center : Float) (n k : Nat) :
    centralTerm undefinedEverywhere center n k = nan := by
  simp [centralTerm]

theorem total_centralTerms_undefined (center : Float) (n : Nat) :
    total ((List.range (n + 1)).map (centralTerm undefinedEverywhere center n)) = nan := by
  have first : List.range (n + 1) = 0 :: (List.range n).map Nat.succ := List.range_succ_eq_map
  rw [first, List.map_cons, centralTerm_undefined, total, totalFrom, List.foldl_cons, add_nan]
  exact totalFrom_nan _

theorem nthDerivative_undefined (center : Float) (order : Nat) (scheme : TaylorScheme) :
    nthDerivative undefinedEverywhere center order scheme = nan := by
  cases order with
  | zero => rfl
  | succ n =>
    cases scheme with
    | repeatedFirstDifference => exact differentiate_undefined center taylorStep
    | iteratedCentralDifference =>
      simp only [nthDerivative, total_centralTerms_undefined, nan_div]

theorem taylorCoefficients_undefined (center : Float) {terms : Nat} (few : terms < tooManyTerms)
    (scheme : TaylorScheme) :
    taylorCoefficients undefinedEverywhere center terms scheme =
      some (List.replicate terms nan) := by
  have coefficient (n : Nat) :
      nthDerivative undefinedEverywhere center n scheme / Counting.factorial n = nan := by
    rw [nthDerivative_undefined, nan_div]
  rw [taylorCoefficients, if_pos few]
  simp [coefficient, List.map_const']

/-- What is looked for in the points of a scan has an answer if there are points. -/
theorem criticalPoints_undefined (start stop step : Float) :
    criticalPoints undefinedEverywhere start stop step =
      (scanPoints start stop step).map fun _ => [] := by
  have skipped (x : Float) : criticalPoint? undefinedEverywhere x = none := by
    simp only [criticalPoint?, differentiate_undefined, isNaN_nan, Bool.or_true, Bool.true_or,
      if_true]
  have all : List.filterMap (criticalPoint? undefinedEverywhere) = fun _ => [] :=
    funext fun xs => List.filterMap_eq_nil_iff.mpr fun x _ => skipped x
  rw [criticalPoints, all]

theorem inflectionPoints_undefined (start stop step : Float) :
    inflectionPoints undefinedEverywhere start stop step =
      (scanPoints start stop step).map fun _ => [] := by
  have skipped (x : Float) : inflectionPoint? undefinedEverywhere x = none := by
    simp only [inflectionPoint?, secondDerivative_undefined, isNaN_nan, Bool.or_true,
      Bool.true_or, if_true]
  have all : List.filterMap (inflectionPoint? undefinedEverywhere) = fun _ => [] :=
    funext fun xs => List.filterMap_eq_nil_iff.mpr fun x _ => skipped x
  rw [inflectionPoints, all]

theorem extrema_undefined (start stop step : Float) :
    extrema undefinedEverywhere start stop step =
      (scanPoints start stop step).map fun _ => none := by
  have noSample (xs : List Float) : (xs.map fun x =>
      (⟨x, undefinedEverywhere x⟩ : SamplePoint)).filter (fun p => !p.y.isNaN) = [] := by
    rw [List.filter_eq_nil_iff]
    intro p sampled
    obtain ⟨x, _, rfl⟩ := List.mem_map.mp sampled
    simp only [undefinedEverywhere_apply, isNaN_nan, Bool.not_true, Bool.false_eq_true,
      not_false_eq_true]
  simp only [extrema, noSample, Extrema.ofSamples]

end Calculus

open Calculus

namespace Formula

/-- A failure at one point is a failure at all points. -/
theorem eval_eq_undefined {f : Formula} {x₀ : Float} {error : Error}
    (fails : f.tryEval x₀ = .error error) : f.eval = undefinedEverywhere := by
  funext x
  have same := (f.verdict_tryEval x).trans (f.verdict_tryEval x₀).symm
  rw [fails] at same
  rw [eval, verdict_eq_error_iff.mp same]
  rfl

/-- No method makes a number or a point out of an expression that fails. -/
theorem contained {f : Formula} {x₀ : Float} {error : Error} (fails : f.tryEval x₀ = .error error) :
    (∀ x, f.eval x = nan) ∧
      (∀ x h, differentiate f.eval x h = nan ∧ secondDerivative f.eval x h = nan) ∧
      (∀ a b n, integrate f.eval a b n = nan ∧ integrateTrapezoid f.eval a b n = nan) ∧
      (∀ point direction, limit f.eval point direction = none) ∧
      (∀ center terms scheme, terms < tooManyTerms →
        taylorCoefficients f.eval center terms scheme = some (List.replicate terms nan)) ∧
      (∀ start stop step, Ends start stop step →
        criticalPoints f.eval start stop step = some [] ∧
          inflectionPoints f.eval start stop step = some [] ∧
          extrema f.eval start stop step = some none) ∧
      (∀ start stop step, ¬Ends start stop step →
        criticalPoints f.eval start stop step = none ∧
          inflectionPoints f.eval start stop step = none ∧
          extrema f.eval start stop step = none) ∧
      ∀ start stop step, value stop ≤ value start + value step * 2 ^ 63 →
        Ends start stop step := by
  rw [eval_eq_undefined fails]
  refine ⟨fun _ => rfl, fun x h => ?_, fun a b n => ?_, limit_undefined,
    fun center terms scheme few => taylorCoefficients_undefined center few scheme,
    fun start stop step ends => ?_, fun start stop step endless => ?_,
    fun start stop step enough => ends_of_le enough⟩
  · exact ⟨differentiate_undefined x h, secondDerivative_undefined x h⟩
  · exact ⟨integrate_undefined a b n, integrateTrapezoid_undefined a b n⟩
  · obtain ⟨points, found⟩ := exists_scanPoints ends
    rw [criticalPoints_undefined, inflectionPoints_undefined, extrema_undefined, found]
    exact ⟨rfl, rfl, rfl⟩
  · rw [criticalPoints_undefined, inflectionPoints_undefined, extrema_undefined,
      scanPoints_eq_none_iff.mpr endless]
    exact ⟨rfl, rfl, rfl⟩

def unfinished : Formula := { text := "x+", free := "x" }

theorem tryEval_unfinished : unfinished.tryEval 0 = .error (.read (.unexpected none)) := by
  have scanned : tokenize "x+" = .ok [.name "x", .mark .plus] := by decide +kernel
  have balanced : Paren.depthAfter 0 (textParens "x+".toList) = some 0 := by decide +kernel
  have replaced : Normal.replaceNames id {} (some ⟨"x", 0⟩) [.name "x", .mark .plus] =
      Normal.inParens 0 ++ [.mark .plus] := by decide +kernel
  have read : parse (Normal.inParens (0 : Float) ++ [.mark .plus]) =
      .error (.read (.unexpected none)) := by cbv
  have normal : normalize "x+" {} (some ⟨"x", 0⟩) .repair =
      .ok ⟨Normal.inParens 0 ++ [.mark .plus], 0⟩ := by
    rw [normalize, normalizeWith_of_balanced balanced scanned, replaced]
  rw [tryEval, unfinished, normal, ok_bind, Normal.evaluate, evaluateTokens, read]
  rfl

theorem contained_unfinished :
    unfinished.tryEval 0 = .error (.read (.unexpected none)) ∧ 6 < tooManyTerms ∧
      value 1 ≤ value 0 + value 0.5 * 2 ^ 63 ∧
      integrate unfinished.eval 0 1 10 = nan ∧ limit unfinished.eval 0 .both = none ∧
      taylorCoefficients unfinished.eval 0 6 .iteratedCentralDifference =
        some (List.replicate 6 nan) ∧
      extrema unfinished.eval 0 1 0.5 = some none ∧ extrema unfinished.eval 0 1e20 1 = none := by
  have few : 6 < tooManyTerms := by decide
  have enough : value 1 ≤ value 0 + value 0.5 * 2 ^ 63 := by decide +kernel
  obtain ⟨_, _, integrals, limits, coefficients, points, nothing, ends⟩ :=
    contained tryEval_unfinished
  exact ⟨tryEval_unfinished, few, enough, (integrals 0 1 10).1, limits 0 .both,
    coefficients 0 6 _ few, (points 0 1 0.5 (ends 0 1 0.5 enough)).2.2,
    (nothing 0 1e20 1 not_ends_long).2.2⟩

/-- A long scan is endless, and there is no list of all the coefficients. -/
theorem endless_unfinished :
    unfinished.tryEval 0 = .error (.read (.unexpected none)) ∧
      criticalPoints unfinished.eval 0 1e20 1 ≠ some [] ∧
      inflectionPoints unfinished.eval 0 1e20 1 ≠ some [] ∧
      extrema unfinished.eval 0 1e20 1 ≠ some none ∧
      taylorCoefficients unfinished.eval 0 (2 ^ 64 - 1) .repeatedFirstDifference = none := by
  have none := scanPoints_eq_none_iff.mpr not_ends_long
  refine ⟨tryEval_unfinished, ?_, ?_, ?_, ?_⟩
  · rw [criticalPoints, none]
    exact nofun
  · rw [inflectionPoints, none]
    exact nofun
  · rw [extrema, none]
    exact nofun
  · rw [taylorCoefficients, if_neg (by decide)]

end Formula

end Reckoner
