import Reckoner.Proofs.Statistics.Order

/-! The most frequent values of a sample. The runs of an ascending list tally it, and the leaders
among some runs are the values of the longest of them. -/
namespace Reckoner.Statistics

structure Leaders.Lead {α : Type} (leaders : Leaders α) (met : List (α × ℕ)) : Prop where
  longest : ∀ run ∈ met, run.2 ≤ leaders.count
  reached : 0 < leaders.count → ∃ run ∈ met, run.2 = leaders.count
  values : leaders.values = (met.filter fun run => run.2 = leaders.count).map Prod.fst

section

variable {α : Type} {leaders : Leaders α} {met : List (α × ℕ)}

theorem lead_start : (⟨0, []⟩ : Leaders α).Lead [] where
  longest := List.forall_mem_nil _
  reached := nofun
  values := rfl

theorem Leaders.Lead.meet (h : leaders.Lead met) (run : α × ℕ) :
    (leaders.meet run).Lead (met ++ [run]) := by
  unfold Leaders.meet
  split
  · next longer =>
    rw [compare_gt_iff_gt] at longer
    -- no run met before is as long as the new one
    have dropped : met.filter (fun r => r.2 = run.2) = [] := by
      refine List.filter_eq_nil_iff.mpr fun r member => ?_
      rw [decide_eq_true_iff]
      exact ((h.longest r member).trans_lt longer).ne
    refine ⟨List.forall_mem_append.mpr ⟨?_, ?_⟩, fun _ => ⟨run, by simp⟩, ?_⟩
    · exact fun r member => (h.longest r member).trans longer.le
    · exact List.forall_mem_singleton.mpr le_rfl
    · simp [List.filter_append, dropped]
  · next equal =>
    rw [compare_eq_iff_eq] at equal
    refine ⟨List.forall_mem_append.mpr ⟨h.longest, ?_⟩, fun _ => ⟨run, by simp, equal⟩, ?_⟩
    · exact List.forall_mem_singleton.mpr equal.le
    · simp [List.filter_append, h.values, equal]
  · next shorter =>
    rw [compare_lt_iff_lt] at shorter
    refine ⟨List.forall_mem_append.mpr ⟨h.longest, ?_⟩, ?_, ?_⟩
    · exact List.forall_mem_singleton.mpr shorter.le
    · intro positive
      obtain ⟨r, member, same⟩ := h.reached positive
      exact ⟨r, List.mem_append_left _ member, same⟩
    · simp [List.filter_append, h.values, shorter.ne]

theorem Leaders.Lead.foldl (h : leaders.Lead met) (groups : List (α × ℕ)) :
    (groups.foldl Leaders.meet leaders).Lead (met ++ groups) := by
  induction groups generalizing leaders met with
  | nil =>
    rw [List.append_nil]
    exact h
  | cons run groups ih =>
    have after := ih (h.meet run)
    rw [List.append_assoc] at after
    exact after

theorem Leaders.Lead.mem_values (h : leaders.Lead met) {x : α} :
    x ∈ leaders.values ↔ ∃ run ∈ met, run.2 = leaders.count ∧ run.1 = x := by
  simp only [h.values, List.mem_map, List.mem_filter, decide_eq_true_eq, and_assoc]

theorem lead_mode [Measure α] (xs : List α) :
    ((runs (sorted xs)).foldl Leaders.meet ⟨0, []⟩).Lead (runs (sorted xs)) :=
  lead_start.foldl _

end

section

variable {α : Type} [Measure α] [Ordered α] {x y : α} {n : ℕ} {xs ys : List α}
  {groups : List (α × ℕ)}

def frequency (xs : List α) (p : Place) : ℕ := (xs.map Ordered.place).count p

theorem countP_beq (numbers : AreNumbers xs) (hx : Ordered.isNaN x = false) :
    xs.countP (· == x) = frequency xs (Ordered.place x) := by
  rw [frequency, List.count, List.countP_map]
  refine List.countP_congr fun y member => ?_
  rw [Ordered.beq_iff (numbers y member) hx, Function.comp_apply, beq_iff_eq]

theorem frequency_perm (same : ys.Perm xs) (p : Place) : frequency ys p = frequency xs p :=
  (same.map Ordered.place).count_eq p

theorem frequency_cons_self (x : α) (xs : List α) :
    frequency (x :: xs) (Ordered.place x) = frequency xs (Ordered.place x) + 1 :=
  List.count_cons_self

theorem frequency_cons_of_ne {p : Place} (other : Ordered.place x ≠ p) :
    frequency (x :: xs) p = frequency xs p :=
  List.count_cons_of_ne other

theorem frequency_pos (member : x ∈ xs) : 0 < frequency xs (Ordered.place x) :=
  List.count_pos_iff.mpr (List.mem_map_of_mem member)

/-- Groups that tally a list: in ascending order, each a value of the list with the frequency of
its place, and one for every place that is taken. -/
structure Tallies (xs : List α) (groups : List (α × ℕ)) : Prop where
  ascending : groups.Pairwise fun g h => Ordered.place g.1 < Ordered.place h.1
  occurs : ∀ g ∈ groups, g.1 ∈ xs
  counts : ∀ g ∈ groups, g.2 = frequency xs (Ordered.place g.1)
  covers : ∀ x ∈ xs, ∃ g ∈ groups, Ordered.place g.1 = Ordered.place x

theorem tallies_nil : Tallies ([] : List α) [] where
  ascending := List.Pairwise.nil
  occurs := List.forall_mem_nil _
  counts := List.forall_mem_nil _
  covers := List.forall_mem_nil _

/-- A value below all others begins a group. -/
theorem Tallies.begin (h : Tallies xs groups)
    (below : ∀ y ∈ xs, Ordered.place x < Ordered.place y) :
    Tallies (x :: xs) ((x, 1) :: groups) where
  ascending := List.pairwise_cons.mpr ⟨fun g member => below g.1 (h.occurs g member), h.ascending⟩
  occurs := List.forall_mem_cons.mpr
    ⟨List.mem_cons_self, fun g member => .tail x (h.occurs g member)⟩
  counts := by
    refine List.forall_mem_cons.mpr ⟨?_, fun g member => ?_⟩
    · have absent : frequency xs (Ordered.place x) = 0 := by
        refine List.count_eq_zero.mpr fun member => ?_
        obtain ⟨y, member, same⟩ := List.mem_map.mp member
        exact (below y member).ne same.symm
      rw [frequency_cons_self, absent]
    · rw [frequency_cons_of_ne (below g.1 (h.occurs g member)).ne]
      exact h.counts g member
  covers := by
    refine List.forall_mem_cons.mpr ⟨⟨(x, 1), List.mem_cons_self, rfl⟩, fun y member => ?_⟩
    obtain ⟨g, found, same⟩ := h.covers y member
    exact ⟨g, .tail _ found, same⟩

/-- A value in the place of the first group joins it, and the group goes by that value. -/
theorem Tallies.join (h : Tallies xs ((y, n) :: groups))
    (same : Ordered.place y = Ordered.place x) : Tallies (x :: xs) ((x, n + 1) :: groups) where
  ascending := by
    have ascending := h.ascending
    rw [List.pairwise_cons] at ascending ⊢
    rw [← same]
    exact ascending
  occurs := List.forall_mem_cons.mpr
    ⟨List.mem_cons_self, fun g member => .tail x (h.occurs g (.tail _ member))⟩
  counts := by
    refine List.forall_mem_cons.mpr ⟨?_, fun g member => ?_⟩
    · rw [frequency_cons_self, ← same, ← h.counts (y, n) List.mem_cons_self]
    · have later := (List.pairwise_cons.mp h.ascending).1 g member
      rw [frequency_cons_of_ne (same.symm.trans_lt later).ne]
      exact h.counts g (.tail _ member)
  covers := by
    refine List.forall_mem_cons.mpr ⟨⟨(x, n + 1), List.mem_cons_self, rfl⟩, fun z member => ?_⟩
    obtain ⟨g, found, place⟩ := h.covers z member
    rcases List.mem_cons.mp found with rfl | found
    · exact ⟨(x, n + 1), List.mem_cons_self, same.symm.trans place⟩
    · exact ⟨g, .tail _ found, place⟩

theorem Tallies.first (h : Tallies xs ((y, n) :: groups)) :
    ∀ z ∈ xs, Ordered.place y ≤ Ordered.place z := by
  intro z member
  obtain ⟨g, found, place⟩ := h.covers z member
  rw [← place]
  rcases List.mem_cons.mp found with rfl | found
  · exact le_rfl
  · exact ((List.pairwise_cons.mp h.ascending).1 g found).le

theorem tallies_runs (numbers : AreNumbers xs) (ascending : IsAscending xs) :
    Tallies xs (runs xs) := by
  induction xs with
  | nil => exact tallies_nil
  | cons x xs ih =>
    obtain ⟨hx, numbers⟩ := List.forall_mem_cons.mp numbers
    obtain ⟨least, ascending⟩ := List.pairwise_cons.mp ascending
    have tallies := ih numbers ascending
    rw [runs]
    cases groups : runs xs with
    | nil =>
      rw [groups] at tallies
      refine tallies.begin fun y member => ?_
      obtain ⟨g, found, _⟩ := tallies.covers y member
      exact absurd found List.not_mem_nil
    | cons group rest =>
      obtain ⟨y, n⟩ := group
      rw [groups] at tallies
      have member : y ∈ xs := tallies.occurs (y, n) List.mem_cons_self
      have equal := Ordered.beq_iff (numbers y member) hx
      dsimp only
      split
      · next same => exact tallies.join (equal.mp same)
      · next different =>
        have below := lt_of_le_of_ne (least y member) fun same => different (equal.mpr same.symm)
        exact tallies.begin fun z found => below.trans_le (tallies.first z found)

theorem Tallies.perm (h : Tallies ys groups) (same : ys.Perm xs) : Tallies xs groups where
  ascending := h.ascending
  occurs g member := same.mem_iff.mp (h.occurs g member)
  counts g member := (h.counts g member).trans (frequency_perm same.symm _).symm
  covers x member := h.covers x (same.mem_iff.mpr member)

theorem tallies_runs_sorted (numbers : AreNumbers xs) : Tallies xs (runs (sorted xs)) :=
  (tallies_runs (numbers.perm (perm_sorted xs)) (ascending_sorted numbers)).perm (perm_sorted xs)

/-- The places of the leaders among the groups of a tally are those of the highest frequency. -/
theorem Tallies.leads {leaders : Leaders α} (h : Tallies xs groups) (lead : leaders.Lead groups)
    {p : Place} :
    (∃ y ∈ leaders.values, Ordered.place y = p) ↔
      (∃ y ∈ xs, Ordered.place y = p) ∧
        ∀ z ∈ xs, frequency xs (Ordered.place z) ≤ frequency xs p := by
  constructor
  · rintro ⟨y, member, rfl⟩
    obtain ⟨g, found, longest, rfl⟩ := lead.mem_values.mp member
    refine ⟨⟨g.1, h.occurs g found, rfl⟩, fun z member => ?_⟩
    obtain ⟨k, other, place⟩ := h.covers z member
    rw [← place, ← h.counts k other, ← h.counts g found, longest]
    exact lead.longest k other
  · rintro ⟨⟨y, member, rfl⟩, most⟩
    obtain ⟨g, found, place⟩ := h.covers y member
    have count : g.2 = frequency xs (Ordered.place y) := by rw [h.counts g found, place]
    have bounded := lead.longest g found
    have positive := frequency_pos member
    obtain ⟨k, other, longest⟩ := lead.reached (by omega)
    have least := most k.1 (h.occurs k other)
    rw [← h.counts k other] at least
    exact ⟨g.1, lead.mem_values.mpr ⟨g, found, by omega, rfl⟩, place⟩

theorem Tallies.leaders_eq_nil {leaders : Leaders α} (h : Tallies xs groups)
    (lead : leaders.Lead groups) : leaders.values = [] ↔ xs = [] := by
  constructor
  · intro none
    refine List.eq_nil_iff_forall_not_mem.mpr fun x member => ?_
    obtain ⟨g, found, place⟩ := h.covers x member
    have positive := frequency_pos (h.occurs g found)
    rw [← h.counts g found] at positive
    obtain ⟨k, other, longest⟩ := lead.reached (positive.trans_le (lead.longest g found))
    have chosen := lead.mem_values.mpr ⟨k, other, longest, rfl⟩
    rw [none] at chosen
    exact List.not_mem_nil chosen
  · rintro rfl
    refine List.eq_nil_iff_forall_not_mem.mpr fun y member => ?_
    obtain ⟨g, found, _⟩ := lead.mem_values.mp member
    exact List.not_mem_nil (h.occurs g found)

theorem exists_beq_iff (numbers : AreNumbers xs) (hx : Ordered.isNaN x = false) :
    (∃ y ∈ xs, (y == x) = true) ↔ ∃ y ∈ xs, Ordered.place y = Ordered.place x := by
  refine exists_congr fun y => and_congr_right fun member => ?_
  exact Ordered.beq_iff (numbers y member) hx

theorem mode_subset (numbers : AreNumbers xs) : mode xs ⊆ xs := by
  intro y member
  obtain ⟨g, found, _, rfl⟩ := (lead_mode xs).mem_values.mp member
  exact (tallies_runs_sorted numbers).occurs g found

/-- The mode of numbers has their most frequent values, in strictly ascending order. A value is
among them if it is in the list and no other is there more often; only the empty list has none.
The numbers are of either precision, and equal numerically: the two zeros are one value. -/
theorem mode_mostFrequent (numbers : AreNumbers xs) :
    (mode xs).Pairwise (fun y z => Measure.below y z = true) ∧
      (∀ x, (∃ y ∈ mode xs, (y == x) = true) ↔
        (∃ y ∈ xs, (y == x) = true) ∧
          ∀ z ∈ xs, xs.countP (· == z) ≤ xs.countP (· == x)) ∧
      (mode xs = [] ↔ xs = []) := by
  have tallies := tallies_runs_sorted numbers
  have lead := lead_mode xs
  have chosen : AreNumbers (mode xs) := fun y member => numbers y (mode_subset numbers member)
  refine ⟨?_, fun x => ?_, tallies.leaders_eq_nil lead⟩
  · have ascending : (mode xs).Pairwise fun y z => Ordered.place y < Ordered.place z := by
      rw [mode, lead.values]
      exact List.pairwise_map.mpr (tallies.ascending.filter _)
    refine ascending.imp_of_mem fun hy hz less => ?_
    exact (Ordered.below_iff (chosen _ hy) (chosen _ hz)).mpr less
  · cases hx : Ordered.isNaN x with
    | true =>
      have absent (ys : List α) : ¬ ∃ y ∈ ys, (y == x) = true := by
        rintro ⟨y, _, same⟩
        exact Bool.false_ne_true ((Ordered.beq_of_isNaN hx).symm.trans same)
      exact iff_of_false (absent _) fun both => absent _ both.1
    | false =>
      rw [exists_beq_iff chosen hx, exists_beq_iff numbers hx, countP_beq numbers hx]
      have most : (∀ z ∈ xs, xs.countP (· == z) ≤ frequency xs (Ordered.place x)) ↔
          ∀ z ∈ xs, frequency xs (Ordered.place z) ≤ frequency xs (Ordered.place x) := by
        refine forall₂_congr fun z member => ?_
        rw [countP_beq numbers (numbers z member)]
      rw [most]
      exact tallies.leads lead

end

def zerosAndTwos : List Float := [2, -0.0, 1, 0.0, 2]

theorem mode_mostFrequent_zerosAndTwos :
    AreNumbers zerosAndTwos ∧
      (∃ y ∈ mode zerosAndTwos, (y == 0) = true) ∧
      (∃ y ∈ mode zerosAndTwos, (y == 2) = true) ∧
      ¬ ∃ y ∈ mode zerosAndTwos, (y == 1) = true := by
  have numbers : AreNumbers zerosAndTwos := by
    change ∀ x ∈ zerosAndTwos, x.isNaN = false
    decide +kernel
  have chosen := (mode_mostFrequent numbers).2.1
  refine ⟨numbers, (chosen 0).mpr ⟨?_, ?_⟩, (chosen 2).mpr ⟨?_, ?_⟩, fun one => ?_⟩
  · exact ⟨-0.0, by simp [zerosAndTwos], by decide +kernel⟩
  · decide +kernel
  · exact ⟨2, by simp [zerosAndTwos], by decide +kernel⟩
  · decide +kernel
  · exact absurd ((chosen 1).mp one).2 (by decide +kernel)

end Reckoner.Statistics
