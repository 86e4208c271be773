import Reckoner.Calculus.Scan
import Reckoner.Proofs.Binary.Overflow

/-! The points of a scan. They are the points of a grid up to the first that is not below the end.
Rounding keeps the order of the grid, so a scan ends if the point of its last index is not below the
end, and it goes on for ever if that one is. -/
namespace Reckoner.Calculus

open Binary

def gridPoint (start step : Float) (i : ℕ) : Float := start + step * Float.ofNat i

structure IsScan (start stop step : Float) : Prop where
  forward : 0 < step
  step_finite : step.isFinite = true
  start_finite : start.isFinite = true
  stop_finite : stop.isFinite = true

/-- Whether a scan gets as far as the point with an index. -/
structure Reaches (start stop step : Float) (i : ℕ) : Prop extends IsScan start stop step where
  below : ∀ j ≤ i, gridPoint start step j < stop

/-- Whether a scan comes to an end: one that can be made has a point that is not below it. -/
def Ends (start stop step : Float) : Prop :=
  IsScan start stop step → ∃ i < 2 ^ 64, ¬gridPoint start step i < stop

section

variable {start stop step x : Float} {i indices first count : ℕ} {xs : List Float}

theorem value_step_pos (scan : IsScan start stop step) : 0 < value step := by
  have finite : (0 : Float).isFinite = true :=
    isFinite_of_decode (decode_of_unpack_zero unpack_zero)
  have forward := (lt_iff_value finite scan.step_finite).mp scan.forward
  rwa [value_of_unpack_zero unpack_zero] at forward

theorem passedWithin_eq_some_iff :
    passedWithin start stop step indices first = some count ↔
      first ≤ count ∧ count < first + indices ∧ ¬gridPoint start step count < stop ∧
        ∀ j, first ≤ j → j < count → gridPoint start step j < stop := by
  induction indices generalizing first with
  | zero => exact iff_of_false nofun fun ⟨least, most, _⟩ => by omega
  | succ indices ih =>
    rw [passedWithin, ← gridPoint]
    split
    · rename_i below
      rw [ih]
      constructor
      · rintro ⟨least, most, passed, others⟩
        refine ⟨by omega, by omega, passed, fun j from_ to_ => ?_⟩
        rcases from_.eq_or_lt with rfl | later
        · exact below
        · exact others j later to_
      · rintro ⟨least, most, passed, others⟩
        have later : first ≠ count := by
          rintro rfl
          exact passed below
        exact ⟨by omega, by omega, passed, fun j from_ to_ => others j (by omega) to_⟩
    · rename_i passed
      rw [Option.some.injEq]
      constructor
      · rintro rfl
        exact ⟨le_rfl, by omega, passed, fun j from_ to_ => by omega⟩
      · rintro ⟨least, most, _, others⟩
        by_contra later
        exact passed (others first le_rfl (by omega))

theorem passedWithin_eq_none_iff :
    passedWithin start stop step indices first = none ↔
      ∀ j, first ≤ j → j < first + indices → gridPoint start step j < stop := by
  induction indices generalizing first with
  | zero => exact iff_of_true rfl fun j from_ to_ => by omega
  | succ indices ih =>
    rw [passedWithin, ← gridPoint]
    split
    · rename_i below
      rw [ih]
      constructor
      · intro others j from_ to_
        rcases from_.eq_or_lt with rfl | later
        · exact below
        · exact others j later (by omega)
      · exact fun all j from_ to_ => all j (by omega) (by omega)
    · rename_i passed
      exact iff_of_false nofun fun all => passed (all first le_rfl (by omega))

/-- Of a scan that can be made, the points come from the count that passes the end. -/
theorem scanPoints_of_isScan (scan : IsScan start stop step) :
    scanPoints start stop step = (passedWithin start stop step (2 ^ 64) 0).map fun count =>
      (List.range count).map (gridPoint start step) := by
  have valid : (0 < step && step.isFinite && start.isFinite && stop.isFinite) = true := by
    simp [scan.forward, scan.step_finite, scan.start_finite, scan.stop_finite]
  rw [scanPoints, if_pos valid]
  rfl

theorem scanPoints_of_not_isScan (none : ¬IsScan start stop step) :
    scanPoints start stop step = some [] := by
  rw [scanPoints, if_neg]
  intro valid
  simp only [Bool.and_eq_true, decide_eq_true_eq] at valid
  obtain ⟨⟨⟨forward, stepFinite⟩, startFinite⟩, stopFinite⟩ := valid
  exact none ⟨forward, stepFinite, startFinite, stopFinite⟩

theorem scanPoints_eq_none_iff : scanPoints start stop step = none ↔ ¬Ends start stop step := by
  unfold Ends
  by_cases scan : IsScan start stop step
  · rw [scanPoints_of_isScan scan, Option.map_eq_none_iff, passedWithin_eq_none_iff]
    simp [scan]
  · rw [scanPoints_of_not_isScan scan]
    exact iff_of_false nofun fun endless => endless fun made => absurd made scan

/-- The points of a scan are those of the grid that it reaches. -/
theorem getElem?_of_scanPoints (h : scanPoints start stop step = some xs) :
    xs[i]? = some x ↔ Reaches start stop step i ∧ x = gridPoint start step i := by
  by_cases scan : IsScan start stop step
  · rw [scanPoints_of_isScan scan, Option.map_eq_some_iff] at h
    obtain ⟨count, passed, rfl⟩ := h
    obtain ⟨_, _, last, below⟩ := passedWithin_eq_some_iff.mp passed
    have reaches_iff : Reaches start stop step i ↔ i < count := by
      constructor
      · intro reaches
        by_contra after
        exact last (reaches.below count (not_lt.mp after))
      · exact fun before => ⟨scan, fun j le => below j j.zero_le (le.trans_lt before)⟩
    rw [reaches_iff, List.getElem?_map, Option.map_eq_some_iff]
    constructor
    · rintro ⟨j, entry, rfl⟩
      obtain ⟨before, same⟩ := List.getElem?_eq_some_iff.mp entry
      rw [List.getElem_range] at same
      subst same
      exact ⟨by simpa using before, rfl⟩
    · rintro ⟨before, rfl⟩
      exact ⟨i, List.getElem?_range before, rfl⟩
  · rw [scanPoints_of_not_isScan scan, Option.some.injEq] at h
    subst h
    exact iff_of_false nofun fun ⟨reaches, _⟩ => scan reaches.toIsScan

/-- A scan that ends has points, if only none. -/
theorem exists_scanPoints (ends : Ends start stop step) :
    ∃ xs, scanPoints start stop step = some xs :=
  Option.ne_none_iff_exists'.mp fun none => scanPoints_eq_none_iff.mp none ends

/-! Which scans end. -/

theorem isUnsigned_offset (scan : IsScan start stop step) (i : ℕ) :
    IsUnsigned (step * Float.ofNat i) :=
  (isUnsigned_of_value_pos (value_step_pos scan)).mul (isUnsigned_ofScientific i false 0)

/-- A point that is below the end has all points before it below the end too. -/
theorem gridPoint_lt_of_le (scan : IsScan start stop step) {j : ℕ} (le : i ≤ j)
    (below : gridPoint start step j < stop) : gridPoint start step i < stop :=
  add_lt_of_le scan.start_finite scan.stop_finite (isUnsigned_offset scan i)
    (isUnsigned_offset scan j)
    (fun finite => value_mul_ofNat_mono scan.step_finite (value_step_pos scan).le le finite) below

/-- Of the indices only the last one counts. -/
theorem ends_iff :
    Ends start stop step ↔
      (IsScan start stop step → ¬gridPoint start step (2 ^ 64 - 1) < stop) := by
  refine forall_congr' fun scan => ⟨?_, fun passed => ⟨2 ^ 64 - 1, by norm_num, passed⟩⟩
  rintro ⟨i, inside, passed⟩ below
  exact passed (gridPoint_lt_of_le scan (by omega) below)

/-- A scan ends if half of its indices are enough without rounding. -/
theorem ends_of_le (enough : value stop ≤ value start + value step * 2 ^ 63) :
    Ends start stop step := by
  intro scan
  refine ⟨2 ^ 63, by norm_num, not_add_lt scan.start_finite scan.stop_finite
    (isUnsigned_offset scan _) fun finite => ?_⟩
  have multiple :=
    le_value_mul_ofNat scan.step_finite (value_step_pos scan).le (le_refl (2 ^ 63)) finite
  linarith

/-- The last index is not far enough for a long scan. -/
theorem not_ends_long : ¬Ends 0 1e20 1 := by
  have scan : IsScan 0 1e20 1 := ⟨by decide +kernel, rfl, rfl, rfl⟩
  have below : gridPoint 0 1 (2 ^ 64 - 1) < 1e20 := by decide +kernel
  exact fun ends => ends_iff.mp ends scan below

end

end Reckoner.Calculus
