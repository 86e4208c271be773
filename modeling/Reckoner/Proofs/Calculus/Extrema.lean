import Reckoner.Proofs.Binary.Order
import Reckoner.Proofs.Calculus.Scan

/-! The lowest and the highest sample of a scan. After any number of its points the scan holds, for
either end of the order, the first sample that no other one passes: an equal value later does not
count, and what is not a number never does. -/
namespace Reckoner.Calculus

open Binary

/-- Whether a point of a scan is the first at which a function has the value that comes before all
its others in an order. Values that are not numbers are left aside. -/
structure IsEarliest (le : Float → Float → Prop) (f : Float → Float) (start stop step : Float)
    (i : ℕ) : Prop where
  reached : Reaches start stop step i
  number : (f (gridPoint start step i)).isNaN = false
  extreme : ∀ j, Reaches start stop step j → (f (gridPoint start step j)).isNaN = false →
    le (f (gridPoint start step i)) (f (gridPoint start step j))
  first : ∀ j < i, (f (gridPoint start step j) == f (gridPoint start step i)) = false

def gridSample (f : Float → Float) (start step : Float) (i : ℕ) : SamplePoint :=
  ⟨gridPoint start step i, f (gridPoint start step i)⟩

/-- A sample that is first among those of some points by a key of their values. -/
def IsFirst {α : Type} [LinearOrder α] (key : Float → α) (f : Float → Float) (xs : List Float)
    (p : SamplePoint) : Prop :=
  ∃ before after, xs = before ++ p.x :: after ∧ p.y = f p.x ∧ p.y.isNaN = false ∧
    (∀ x ∈ before, (f x).isNaN = false → key p.y < key (f x)) ∧
    ∀ x ∈ after, (f x).isNaN = false → key p.y ≤ key (f x)

section

variable {α : Type} [LinearOrder α] {key : Float → α} {le : Float → Float → Prop}
  {f : Float → Float} {xs : List Float} {p : SamplePoint} {x start stop step : Float} {i k : ℕ}

theorem IsFirst.number (h : IsFirst key f xs p) : p.y.isNaN = false := by
  obtain ⟨_, _, _, _, number, _⟩ := h
  exact number

theorem IsFirst.bound (h : IsFirst key f xs p) (member : x ∈ xs) (number : (f x).isNaN = false) :
    key p.y ≤ key (f x) := by
  obtain ⟨before, after, rfl, value, _, earlier, later⟩ := h
  rcases List.mem_append.mp member with member | member
  · exact (earlier x member number).le
  · rcases List.mem_cons.mp member with rfl | member
    · rw [value]
    · exact later x member number

/-- A point whose value does not come before that of the first one changes nothing. -/
theorem IsFirst.keep (h : IsFirst key f xs p)
    (passed : (f x).isNaN = false → key p.y ≤ key (f x)) : IsFirst key f (xs ++ [x]) p := by
  obtain ⟨before, after, rfl, value, numeric, earlier, later⟩ := h
  refine ⟨before, after ++ [x], by simp, value, numeric, earlier, ?_⟩
  intro z member
  rcases List.mem_append.mp member with member | member
  · exact later z member
  · rw [List.mem_singleton.mp member]
    exact passed

/-- A point whose value comes before all others is the first. -/
theorem isFirst_concat (number : (f x).isNaN = false)
    (before : ∀ z ∈ xs, (f z).isNaN = false → key (f x) < key (f z)) :
    IsFirst key f (xs ++ [x]) ⟨x, f x⟩ :=
  ⟨xs, [], rfl, rfl, number, before, nofun⟩

/-- One step of a running record. -/
theorem IsFirst.next {less : Prop} [Decidable less] (h : IsFirst key f xs p)
    (number : (f x).isNaN = false) (iff : less ↔ key (f x) < key p.y) :
    IsFirst key f (xs ++ [x]) (if less then ⟨x, f x⟩ else p) := by
  split
  · rename_i before
    exact isFirst_concat number fun z member numeric =>
      (iff.mp before).trans_le (h.bound member numeric)
  · rename_i notBefore
    rw [iff, not_lt] at notBefore
    exact h.keep fun _ => notBefore

theorem ofSamples_concat (ps : List SamplePoint) (p : SamplePoint) :
    Extrema.ofSamples (ps ++ [p]) =
      some (match Extrema.ofSamples ps with
        | some e => e.extend p
        | none => ⟨p, p⟩) := by
  cases ps with
  | nil => rfl
  | cons q ps => simp [Extrema.ofSamples]

def samples (f : Float → Float) (xs : List Float) : List SamplePoint :=
  (xs.map fun x => ⟨x, f x⟩).filter fun p => !p.y.isNaN

theorem samples_concat (xs : List Float) (x : Float) :
    samples f (xs ++ [x]) = samples f xs ++ if (f x).isNaN then [] else [⟨x, f x⟩] := by
  rw [samples, List.map_append, List.filter_append]
  cases number : (f x).isNaN <;>
    simp only [samples, List.map_cons, List.map_nil, List.filter_cons, List.filter_nil, number,
      Bool.not_true, Bool.not_false, Bool.false_eq_true, if_true, if_false]

/-- What is known after a number of points. -/
theorem ofSamples_samples (xs : List Float) :
    (∀ x ∈ xs, (f x).isNaN = true) ∧ Extrema.ofSamples (samples f xs) = none ∨
      ∃ e, Extrema.ofSamples (samples f xs) = some e ∧ IsFirst extendedValue f xs e.min ∧
        IsFirst (OrderDual.toDual ∘ extendedValue) f xs e.max := by
  induction xs using List.reverseRecOn with
  | nil => exact .inl ⟨nofun, rfl⟩
  | append_singleton xs x ih =>
    rw [samples_concat]
    cases number : (f x).isNaN with
    | true =>
      rw [if_pos rfl, List.append_nil]
      have passed (numeric : (f x).isNaN = false) : False :=
        Bool.false_ne_true (numeric.symm.trans number)
      rcases ih with ⟨silent, same⟩ | ⟨e, same, lowest, highest⟩
      · refine .inl ⟨?_, same⟩
        exact List.forall_mem_append.mpr ⟨silent, List.forall_mem_singleton.mpr number⟩
      · exact .inr ⟨e, same, lowest.keep fun h => (passed h).elim,
          highest.keep fun h => (passed h).elim⟩
    | false =>
      rw [if_neg Bool.false_ne_true, ofSamples_concat]
      right
      rcases ih with ⟨silent, same⟩ | ⟨e, same, lowest, highest⟩
      · rw [same]
        have before (z : Float) (member : z ∈ xs) (numeric : (f z).isNaN = false) : False :=
          Bool.false_ne_true (numeric.symm.trans (silent z member))
        exact ⟨_, rfl, isFirst_concat number fun z member h => (before z member h).elim,
          isFirst_concat number fun z member h => (before z member h).elim⟩
      · rw [same]
        have numberMin := lowest.number
        have numberMax := highest.number
        exact ⟨_, rfl, lowest.next number (lt_iff_extendedValue number numberMin),
          highest.next number (lt_iff_extendedValue numberMax number)⟩

theorem Reaches.mono (reaches : Reaches start stop step i) (le : k ≤ i) :
    Reaches start stop step k :=
  ⟨reaches.toIsScan, fun j below => reaches.below j (below.trans le)⟩

structure IsKey (le : Float → Float → Prop) (key : Float → α) : Prop where
  le_iff : ∀ {y z : Float}, y.isNaN = false → z.isNaN = false → (le y z ↔ key y ≤ key z)
  beq_iff : ∀ {y z : Float}, y.isNaN = false → z.isNaN = false → ((y == z) = true ↔ key y = key z)

theorem isKey_extendedValue : IsKey (· ≤ ·) extendedValue :=
  ⟨le_iff_extendedValue, beq_iff_extendedValue⟩

theorem isKey_toDual : IsKey (fun y z => z ≤ y) (OrderDual.toDual ∘ extendedValue) :=
  ⟨fun hy hz => le_iff_extendedValue hz hy, beq_iff_extendedValue⟩

/-- The first sample among the points of a scan is the earliest of its grid. -/
theorem IsFirst.isEarliest (isKey : IsKey le key) (points : scanPoints start stop step = some xs)
    (h : IsFirst key f xs p) :
    ∃ i, IsEarliest le f start stop step i ∧ p = gridSample f start step i := by
  obtain ⟨before, after, split, value, number, earlier, later⟩ := id h
  have entry : xs[before.length]? = some p.x := by
    rw [split, List.getElem?_append_right le_rfl, Nat.sub_self, List.getElem?_cons_zero]
  obtain ⟨reached, point⟩ := (getElem?_of_scanPoints points).mp entry
  have sample : p = gridSample f start step before.length := by
    rw [gridSample, ← point, ← value]
  have height : p.y = f (gridPoint start step before.length) := by rw [value, point]
  rw [height] at number earlier
  refine ⟨before.length, ⟨reached, number, ?_, ?_⟩, sample⟩
  · intro j reachedJ numeric
    have member := List.mem_of_getElem? ((getElem?_of_scanPoints points).mpr ⟨reachedJ, rfl⟩)
    rw [isKey.le_iff number numeric, ← height]
    exact h.bound member numeric
  · intro j less
    cases numeric : (f (gridPoint start step j)).isNaN with
    | true => exact beq_of_isNaN numeric
    | false =>
      have entryJ := (getElem?_of_scanPoints points).mpr ⟨reached.mono less.le, rfl⟩
      rw [split, List.getElem?_append_left less] at entryJ
      rw [Bool.eq_false_iff, Ne, isKey.beq_iff numeric number]
      exact (earlier _ (List.mem_of_getElem? entryJ) numeric).ne'

theorem IsEarliest.unique (isKey : IsKey le key) (hi : IsEarliest le f start stop step i)
    (hk : IsEarliest le f start stop step k) : i = k := by
  have same : key (f (gridPoint start step i)) = key (f (gridPoint start step k)) :=
    le_antisymm ((isKey.le_iff hi.number hk.number).mp (hi.extreme k hk.reached hk.number))
      ((isKey.le_iff hk.number hi.number).mp (hk.extreme i hi.reached hi.number))
  rcases lt_trichotomy i k with less | same' | more
  · cases (hk.first i less).symm.trans ((isKey.beq_iff hi.number hk.number).mpr same)
  · exact same'
  · cases (hi.first k more).symm.trans ((isKey.beq_iff hk.number hi.number).mpr same.symm)

/-- A scan that ends has no extrema just when no sample is a number. Else they are its earliest lowest
and its earliest highest sample. A scan that does not end says neither. -/
theorem extrema_earliest (f : Float → Float) (start stop step : Float) :
    (extrema f start stop step = some none ↔ Ends start stop step ∧
      ∀ i, Reaches start stop step i → (f (gridPoint start step i)).isNaN = true) ∧
      (∀ e, extrema f start stop step = some (some e) ↔ Ends start stop step ∧
        (∃ i, IsEarliest (· ≤ ·) f start stop step i ∧ e.min = gridSample f start step i) ∧
          ∃ k, IsEarliest (fun y z => z ≤ y) f start stop step k ∧
            e.max = gridSample f start step k) ∧
        (extrema f start stop step = none ↔ ¬Ends start stop step) := by
  by_cases ends : Ends start stop step
  · obtain ⟨xs, points⟩ := exists_scanPoints ends
    have defined : extrema f start stop step = some (Extrema.ofSamples (samples f xs)) := by
      rw [extrema, points]
      rfl
    simp only [defined, ends, true_and, not_true, Option.some.injEq, reduceCtorEq, and_true]
    rcases ofSamples_samples (f := f) xs with ⟨silent, same⟩ | ⟨found, same, lowest, highest⟩
    · rw [same]
      have silentGrid (i : ℕ) (reached : Reaches start stop step i) :
          (f (gridPoint start step i)).isNaN = true :=
        silent _ (List.mem_of_getElem? ((getElem?_of_scanPoints points).mpr ⟨reached, rfl⟩))
      refine ⟨iff_of_true rfl silentGrid, fun e => iff_of_false nofun ?_⟩
      rintro ⟨⟨i, least, _⟩, _⟩
      exact Bool.false_ne_true (least.number.symm.trans (silentGrid i least.reached))
    · rw [same]
      obtain ⟨i, least, min⟩ := lowest.isEarliest isKey_extendedValue points
      obtain ⟨k, greatest, max⟩ := highest.isEarliest isKey_toDual points
      refine ⟨iff_of_false nofun fun silent => ?_, fun e => ⟨?_, ?_⟩⟩
      · exact Bool.false_ne_true (least.number.symm.trans (silent i least.reached))
      · rintro ⟨⟩
        exact ⟨⟨i, least, min⟩, k, greatest, max⟩
      · rintro ⟨⟨i', least', min'⟩, k', greatest', max'⟩
        obtain rfl := least.unique isKey_extendedValue least'
        obtain rfl := greatest.unique isKey_toDual greatest'
        change some (⟨found.min, found.max⟩ : Extrema) = some ⟨e.min, e.max⟩
        rw [min, max, min', max']
  · have endless : extrema f start stop step = none := by
      rw [extrema, scanPoints_eq_none_iff.mpr ends, Option.map_none]
    rw [endless]
    exact ⟨iff_of_false nofun fun h => ends h.1, fun e => iff_of_false nofun fun h => ends h.1,
      iff_of_true rfl ends⟩

end

end Reckoner.Calculus
