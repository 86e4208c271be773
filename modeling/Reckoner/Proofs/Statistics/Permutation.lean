import Reckoner.Proofs.Binary.Agreement
import Reckoner.Proofs.Statistics.Mode

/-! Order of the data. What a summary says of a sample by comparisons depends on the places of its
values, so a permutation of the sample changes at most the sign of a zero. -/
namespace Reckoner.Statistics

open Binary (Agree agree_refl)

section

variable {α : Type} [Measure α] {m x y : α} {xs ys lower upper : List α}

/-- The median of an odd number of values stands between halves of the sorted list. -/
theorem exists_halves (odd : xs.length % 2 = 1) :
    ∃ lower upper, sorted xs = lower ++ median xs :: upper ∧
      lower.length = xs.length / 2 ∧ upper.length = xs.length / 2 := by
  have length : (sorted xs).length = xs.length := (perm_sorted xs).length_eq
  have middle : xs.length / 2 < (sorted xs).length := by omega
  have inhabited : xs.isEmpty = false := by
    cases xs with
    | nil => cases odd
    | cons x xs => rfl
  have median : median xs = (sorted xs)[xs.length / 2] := by
    simp [median, inhabited, odd, middle]
  refine ⟨(sorted xs).take (xs.length / 2), (sorted xs).drop (xs.length / 2 + 1), ?_, ?_, ?_⟩
  · rw [median, List.getElem_cons_drop, List.take_append_drop]
  · rw [List.length_take]
    omega
  · rw [List.length_drop]
    omega

variable [Ordered α]

/-- Sorting puts a sample and its permutations into the same places. -/
theorem places_sorted (numbers : AreNumbers xs) (same : ys.Perm xs) :
    (sorted ys).map Ordered.place = (sorted xs).map Ordered.place := by
  have rearranged := ((perm_sorted ys).trans same).trans (perm_sorted xs).symm
  have ascending : ((sorted ys).map Ordered.place).Pairwise (· ≤ ·) :=
    List.pairwise_map.mpr (ascending_sorted (numbers.perm same))
  have ascending' : ((sorted xs).map Ordered.place).Pairwise (· ≤ ·) :=
    List.pairwise_map.mpr (ascending_sorted numbers)
  exact (rearranged.map Ordered.place).eq_of_pairwise' ascending ascending'

theorem countP_below_le (numbers : AreNumbers (lower ++ m :: upper))
    (ascending : IsAscending (lower ++ m :: upper)) :
    (lower ++ m :: upper).countP (fun x => Measure.below x m) ≤ lower.length := by
  have hm : Ordered.isNaN m = false := numbers m (by simp)
  have above : (m :: upper).countP (fun x => Measure.below x m) = 0 := by
    refine List.countP_eq_zero.mpr fun x member below => ?_
    have less := (Ordered.below_iff (numbers x (List.mem_append_right _ member)) hm).mp below
    rcases List.mem_cons.mp member with rfl | member
    · exact lt_irrefl _ less
    · have ordered := (List.pairwise_append.mp ascending).2.1
      exact absurd less (not_lt.mpr ((List.pairwise_cons.mp ordered).1 x member))
  rw [List.countP_append, above, add_zero]
  exact List.countP_le_length

theorem countP_above_le (numbers : AreNumbers (lower ++ m :: upper))
    (ascending : IsAscending (lower ++ m :: upper)) :
    (lower ++ m :: upper).countP (fun x => Measure.below m x) ≤ upper.length := by
  have hm : Ordered.isNaN m = false := numbers m (by simp)
  have below : (lower ++ [m]).countP (fun x => Measure.below m x) = 0 := by
    refine List.countP_eq_zero.mpr fun x member above => ?_
    have hx := numbers x (by simp at member ⊢; tauto)
    have less := (Ordered.below_iff hm hx).mp above
    rcases List.mem_append.mp member with member | member
    · have ordered := (List.pairwise_append.mp ascending).2.2 x member m List.mem_cons_self
      exact absurd less (not_lt.mpr ordered)
    · rw [List.mem_singleton.mp member] at less
      exact lt_irrefl _ less
  rw [List.append_cons, List.countP_append, below, zero_add]
  exact List.countP_le_length

/-- At most half of the values are below the median of an odd number of them, and at most half are
above it. -/
theorem median_halves (numbers : AreNumbers xs) (odd : xs.length % 2 = 1) :
    median xs ∈ xs ∧ 2 * xs.countP (fun x => Measure.below x (median xs)) ≤ xs.length ∧
      2 * xs.countP (fun x => Measure.below (median xs) x) ≤ xs.length := by
  obtain ⟨lower, upper, halves, low, high⟩ := exists_halves odd
  have rearranged : (lower ++ median xs :: upper).Perm xs := halves ▸ perm_sorted xs
  have ascending : IsAscending (lower ++ median xs :: upper) := halves ▸ ascending_sorted numbers
  have below := countP_below_le (numbers.perm rearranged) ascending
  have above := countP_above_le (numbers.perm rearranged) ascending
  rw [rearranged.countP_eq] at below above
  exact ⟨rearranged.mem_iff.mp (by simp), by omega, by omega⟩

theorem ascending_mode (numbers : AreNumbers xs) :
    ((mode xs).map Ordered.place).Pairwise (· < ·) := by
  rw [mode, (lead_mode xs).values, List.map_map]
  exact List.pairwise_map.mpr ((tallies_runs_sorted numbers).ascending.filter _)

theorem mem_places_mode (numbers : AreNumbers xs) (p : Place) :
    p ∈ (mode xs).map Ordered.place ↔
      p ∈ xs.map Ordered.place ∧ ∀ q ∈ xs.map Ordered.place, frequency xs q ≤ frequency xs p := by
  rw [List.mem_map, List.mem_map, List.forall_mem_map]
  exact (tallies_runs_sorted numbers).leads (lead_mode xs)

theorem numbers_mode (numbers : AreNumbers xs) : AreNumbers (mode xs) :=
  fun y member => numbers y (mode_subset numbers member)

/-- A place is among those of the mode by how often it and the others are taken. -/
theorem places_mode (numbers : AreNumbers xs) (same : ys.Perm xs) :
    (mode ys).map Ordered.place = (mode xs).map Ordered.place := by
  refine (ascending_mode (numbers.perm same)).eq_of_mem_iff (ascending_mode numbers) fun p => ?_
  simp only [mem_places_mode numbers, mem_places_mode (numbers.perm same),
    (same.map Ordered.place).mem_iff, frequency_perm same]

theorem beq_of_place (hx : Ordered.isNaN x = false) (hy : Ordered.isNaN y = false)
    (same : Ordered.place x = Ordered.place y) : (x == y) = true :=
  (Ordered.beq_iff hx hy).mpr same

/-- Numbers in the same places are equal one by one. -/
theorem forall₂_beq_of_places (hx : AreNumbers xs) (hy : AreNumbers ys)
    (same : ys.map Ordered.place = xs.map Ordered.place) :
    List.Forall₂ (fun y x => (y == x) = true) ys xs := by
  induction ys generalizing xs with
  | nil =>
    cases xs with
    | nil => exact .nil
    | cons x xs => cases same
  | cons y ys ih =>
    cases xs with
    | nil => cases same
    | cons x xs =>
      obtain ⟨number, rest⟩ := List.forall_mem_cons.mp hx
      obtain ⟨number', rest'⟩ := List.forall_mem_cons.mp hy
      obtain ⟨first, others⟩ := List.cons.inj same
      exact .cons (beq_of_place number' number first) (ih rest rest' others)

end

section

variable {xs ys : List Float}

theorem agree_sorted (numbers : AreNumbers xs) (same : ys.Perm xs) (i : ℕ) :
    Agree ((sorted ys)[i]?.getD Measure.nan) ((sorted xs)[i]?.getD Measure.nan) := by
  have places := congrArg (fun ps : List Place => ps[i]?) (places_sorted numbers same)
  simp only [List.getElem?_map] at places
  cases hy : (sorted ys)[i]? with
  | none =>
    rw [hy, Option.map_none, eq_comm, Option.map_eq_none_iff] at places
    rw [places]
    exact agree_refl _
  | some y =>
    rw [hy, Option.map_some, eq_comm, Option.map_eq_some_iff] at places
    obtain ⟨x, hx, place⟩ := places
    have number := numbers.perm (perm_sorted xs) x (List.mem_of_getElem? hx)
    have number' := (numbers.perm same).perm (perm_sorted ys) y (List.mem_of_getElem? hy)
    rw [hx]
    exact .inl (beq_of_place number' number place.symm)

theorem agree_median (numbers : AreNumbers xs) (same : ys.Perm xs) :
    Agree (median ys) (median xs) := by
  have agree := agree_sorted numbers same
  unfold median
  rw [same.length_eq, same.isEmpty_eq]
  split
  · exact agree_refl _
  · split
    · exact agree _
    · exact ((agree _).add (agree _)).div _

/-- A fold that picks one of two numbers by their places ends in the place that the places pick. -/
theorem place_foldl {pick : Float → Float → Float} {op : Place → Place → Place}
    (step : ∀ x y, Ordered.isNaN x = false → Ordered.isNaN y = false →
      Ordered.isNaN (pick x y) = false ∧
        Ordered.place (pick x y) = op (Ordered.place x) (Ordered.place y))
    {start : Float} (number : Ordered.isNaN start = false) (numbers : AreNumbers xs) :
    Ordered.isNaN (xs.foldl pick start) = false ∧
      Ordered.place (xs.foldl pick start) =
        (xs.map Ordered.place).foldl op (Ordered.place start) := by
  induction xs generalizing start with
  | nil => exact ⟨number, rfl⟩
  | cons x xs ih =>
    obtain ⟨first, rest⟩ := List.forall_mem_cons.mp numbers
    obtain ⟨picked, place⟩ := step start x number first
    have after := ih picked rest
    rw [place] at after
    exact after

theorem place_least (numbers : AreNumbers xs) :
    Ordered.isNaN (least xs) = false ∧ Ordered.place (least xs) =
      (xs.map Ordered.place).foldl min (Ordered.place Binary.infinity) := by
  refine place_foldl (fun low x number first => ?_) (by decide +kernel) numbers
  have less := Ordered.below_iff first number
  by_cases below : x < low
  · rw [if_pos below, min_eq_right (less.mp (decide_eq_true below)).le]
    exact ⟨first, rfl⟩
  · rw [if_neg below, min_eq_left (not_lt.mp fun h => below (of_decide_eq_true (less.mpr h)))]
    exact ⟨number, rfl⟩

theorem place_greatest (numbers : AreNumbers xs) :
    Ordered.isNaN (greatest xs) = false ∧ Ordered.place (greatest xs) =
      (xs.map Ordered.place).foldl max (Ordered.place (-Binary.infinity)) := by
  refine place_foldl (fun high x number first => ?_) (by decide +kernel) numbers
  have less := Ordered.below_iff number first
  by_cases above : high < x
  · rw [if_pos above, max_eq_right (less.mp (decide_eq_true above)).le]
    exact ⟨first, rfl⟩
  · rw [if_neg above, max_eq_left (not_lt.mp fun h => above (of_decide_eq_true (less.mpr h)))]
    exact ⟨number, rfl⟩

theorem least_perm (numbers : AreNumbers xs) (same : ys.Perm xs) :
    (least ys == least xs) = true := by
  obtain ⟨hx, px⟩ := place_least numbers
  obtain ⟨hy, py⟩ := place_least (numbers.perm same)
  exact beq_of_place hy hx (by rw [px, py, (same.map Ordered.place).foldl_eq])

theorem greatest_perm (numbers : AreNumbers xs) (same : ys.Perm xs) :
    (greatest ys == greatest xs) = true := by
  obtain ⟨hx, px⟩ := place_greatest numbers
  obtain ⟨hy, py⟩ := place_greatest (numbers.perm same)
  exact beq_of_place hy hx (by rw [px, py, (same.map Ordered.place).foldl_eq])

/-- Whether two summaries are numerically the same in what does not come from sums. -/
structure Summary.Agrees (s t : Summary) : Prop where
  count : s.count = t.count
  median : Agree s.median t.median
  mode : List.Forall₂ (fun x y => (x == y) = true) s.mode t.mode
  min : Agree s.min t.min
  max : Agree s.max t.max

/-- The order of the data does not matter: for a permutation of numbers the summaries agree in
count, median, mode, least and greatest value, of which the last two are NaN only without data. The
median of an odd number of values is one of them, with at most half of them below it and at most
half above it. -/
theorem summarize_perm (numbers : AreNumbers xs) (same : ys.Perm xs) :
    (summarize ys).Agrees (summarize xs) ∧
      (xs ≠ [] → (summarize ys).min == (summarize xs).min ∧
        (summarize ys).max == (summarize xs).max) ∧
      (xs.length % 2 = 1 → (summarize xs).median ∈ xs ∧
        2 * xs.countP (fun x => x < (summarize xs).median) ≤ xs.length ∧
        2 * xs.countP (fun x => (summarize xs).median < x) ≤ xs.length) := by
  have least := least_perm numbers same
  have greatest := greatest_perm numbers same
  have mode := forall₂_beq_of_places (numbers_mode numbers) (numbers_mode (numbers.perm same))
    (places_mode numbers same)
  refine ⟨⟨same.length_eq, agree_median numbers same, mode, ?_, ?_⟩, fun inhabited => ?_,
    median_halves numbers⟩
  · simp only [summarize, same.isEmpty_eq]
    split
    · exact agree_refl _
    · exact .inl least
  · simp only [summarize, same.isEmpty_eq]
    split
    · exact agree_refl _
    · exact .inl greatest
  · simp only [summarize, same.isEmpty_eq, List.isEmpty_iff, inhabited, if_false]
    exact ⟨least, greatest⟩

def twoAndZeros : List Float := [0.0, 2.0, -0.0]

theorem summarize_perm_twoAndZeros :
    AreNumbers twoAndZeros ∧ twoAndZeros.reverse.Perm twoAndZeros ∧ twoAndZeros ≠ [] ∧
      twoAndZeros.length % 2 = 1 ∧
      (summarize twoAndZeros.reverse).Agrees (summarize twoAndZeros) ∧
      (summarize twoAndZeros.reverse).min == (summarize twoAndZeros).min ∧
      (summarize twoAndZeros).median ∈ twoAndZeros := by
  have numbers : AreNumbers twoAndZeros := by
    change ∀ x ∈ twoAndZeros, x.isNaN = false
    decide +kernel
  have same := twoAndZeros.reverse_perm
  have inhabited : twoAndZeros ≠ [] := List.cons_ne_nil _ _
  obtain ⟨agrees, ends, halves⟩ := summarize_perm numbers same
  exact ⟨numbers, same, inhabited, rfl, agrees, (ends inhabited).1, (halves rfl).1⟩

end

end Reckoner.Statistics
