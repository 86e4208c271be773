import Mathlib.Data.List.Sort
import Mathlib.Data.Prod.Lex
import Reckoner.Proofs.Binary.Compare
import Reckoner.Statistics.Sample

/-! The order of a sample. The numbers of a precision have places in a linear order, which are what
its comparisons compare, and sorting puts a list that is free of NaN in the order of the places. -/
namespace Reckoner.Statistics

open Float.Model (UnpackedFloat)

/-- A place among the numbers: a kind, and within the kind an exponent and a mantissa. -/
abbrev Place := ℤ ×ₗ ℤ ×ₗ ℤ

/-- Where an unpacked number stands. Both zeros stand in one place; nothing is said of NaN's. -/
def unpackedPlace : UnpackedFloat → Place
  | .infinity .negative => toLex (-2, toLex (0, 0))
  | .finite .negative m e _ => toLex (-1, toLex (-e, -m))
  | .zero _ | .notANumber => toLex (0, toLex (0, 0))
  | .finite .positive m e _ => toLex (1, toLex (e, m))
  | .infinity .positive => toLex (2, toLex (0, 0))

theorem compare_magnitudes (m n : ℕ) (e k : ℤ) :
    compare (toLex (e, (m : ℤ))) (toLex (k, (n : ℤ))) = (compare e k).then (compare m n) := by
  have rises : StrictMono fun n : ℕ => (n : ℤ) := fun _ _ less => Int.ofNat_lt.mpr less
  rw [← cmp_eq_compare m n, ← rises.cmp_map_eq, cmp_eq_compare]
  rfl

theorem compare_opposite_magnitudes (m n : ℕ) (e k : ℤ) :
    compare (toLex (-e, -(m : ℤ))) (toLex (-k, -(n : ℤ))) =
      ((compare e k).then (compare m n)).swap := by
  rw [← compare_magnitudes]
  change (compare (-e) (-k)).then (compare (-(m : ℤ)) (-n)) =
    ((compare e k).then (compare (m : ℤ) n)).swap
  rw [Ordering.swap_then, Binary.swap_compare_neg, Binary.swap_compare_neg]

/-- Numbers compare as their places do. Places of two kinds compare by the kind alone, so only
two finite numbers of one sign are compared further. -/
theorem compare_eq_compare_place {u v : UnpackedFloat} (hu : u.isNaN = false)
    (hv : v.isNaN = false) :
    UnpackedFloat.compare u v = some (compare (unpackedPlace u) (unpackedPlace v)) := by
  cases u with
  | notANumber => cases hu
  | infinity s =>
    cases v with
    | notANumber => cases hv
    | infinity t => cases s <;> cases t <;> rfl
    | zero t => cases s <;> rfl
    | finite t n k pos => cases s <;> cases t <;> rfl
  | zero s =>
    cases v with
    | notANumber => cases hv
    | infinity t => cases t <;> rfl
    | zero t => rfl
    | finite t n k pos => cases t <;> rfl
  | finite s m e pos =>
    cases v with
    | notANumber => cases hv
    | infinity t => cases s <;> cases t <;> rfl
    | zero t => cases s <;> rfl
    | finite t n k pos =>
      cases s with
      | negative =>
        cases t with
        | negative => exact congrArg some (compare_opposite_magnitudes m n e k).symm
        | positive => rfl
      | positive =>
        cases t with
        | negative => rfl
        | positive => exact congrArg some (compare_magnitudes m n e k).symm

theorem lt_iff_place {u v : UnpackedFloat} (hu : u.isNaN = false) (hv : v.isNaN = false) :
    u.lt v = true ↔ unpackedPlace u < unpackedPlace v := by
  change (UnpackedFloat.compare u v == some .lt) = true ↔ _
  rw [compare_eq_compare_place hu hv, beq_iff_eq, Option.some.injEq, compare_lt_iff_lt]

theorem beq_iff_place {u v : UnpackedFloat} (hu : u.isNaN = false) (hv : v.isNaN = false) :
    u.beq v = true ↔ unpackedPlace u = unpackedPlace v := by
  change (UnpackedFloat.compare u v == some .eq) = true ↔ _
  rw [compare_eq_compare_place hu hv, beq_iff_eq, Option.some.injEq, compare_eq_iff_eq]

theorem beq_notANumber {u v : UnpackedFloat} (hv : v.isNaN = true) : u.beq v = false := by
  cases v with
  | notANumber => cases u <;> rfl
  | infinity | zero | finite => cases hv

/-- What the comparisons of a precision say of its numbers: they compare places in a linear order.
NaN equals nothing. -/
class Ordered (α : Type) [Measure α] where
  isNaN : α → Bool
  place : α → Place
  below_iff {x y : α} (hx : isNaN x = false) (hy : isNaN y = false) :
    Measure.below x y = true ↔ place x < place y
  beq_iff {x y : α} (hx : isNaN x = false) (hy : isNaN y = false) :
    (x == y) = true ↔ place x = place y
  beq_of_isNaN {x y : α} (nan : isNaN y = true) : (x == y) = false

instance : Ordered Float where
  isNaN := Float.isNaN
  place x := unpackedPlace x.toModel.unpack
  below_iff hx hy :=
    (decide_eq_true_iff.trans decide_eq_true_iff).trans (lt_iff_place hx hy)
  beq_iff hx hy := beq_iff_place hx hy
  beq_of_isNaN nan := beq_notANumber nan

instance : Ordered Float32 where
  isNaN := Float32.isNaN
  place x := unpackedPlace x.toModel.unpack
  below_iff hx hy :=
    (decide_eq_true_iff.trans decide_eq_true_iff).trans (lt_iff_place hx hy)
  beq_iff hx hy := beq_iff_place hx hy
  beq_of_isNaN nan := beq_notANumber nan

section

variable {α : Type} [Measure α] {x y : α} {xs ys : List α}

/-- Insertion in descending order is insertion in an order of which the comparison is the
opposite. It is total only on numbers. -/
theorem insertDescending_eq_orderedInsert (x : α) (ys : List α) :
    insertDescending x ys = ys.orderedInsert (fun x y => ¬ Measure.below x y = true) x := by
  induction ys with
  | nil => rfl
  | cons y ys ih =>
    rw [insertDescending, List.orderedInsert_cons, ih]
    by_cases below : Measure.below x y = true
    · rw [if_pos below, if_neg (not_not.mpr below)]
    · rw [if_neg below, if_pos below]

theorem perm_insertDescending (x : α) (ys : List α) :
    (insertDescending x ys).Perm (x :: ys) := by
  rw [insertDescending_eq_orderedInsert]
  exact List.perm_orderedInsert _ x ys

theorem perm_foldl_insertDescending (xs ys : List α) :
    (xs.foldl (fun ordered x => insertDescending x ordered) ys).Perm (xs ++ ys) := by
  induction xs generalizing ys with
  | nil => exact List.Perm.refl ys
  | cons x xs ih =>
    exact (ih _).trans (((perm_insertDescending x ys).append_left xs).trans List.perm_middle)

theorem perm_sorted (xs : List α) : (sorted xs).Perm xs := by
  have inserted := perm_foldl_insertDescending xs []
  rw [List.append_nil] at inserted
  exact (List.reverse_perm _).trans inserted

variable [Ordered α]

def AreNumbers (xs : List α) : Prop := ∀ x ∈ xs, Ordered.isNaN x = false

def IsAscending (xs : List α) : Prop :=
  xs.Pairwise fun x y => Ordered.place x ≤ Ordered.place y

theorem AreNumbers.perm (numbers : AreNumbers xs) (same : ys.Perm xs) : AreNumbers ys :=
  fun y member => numbers y (same.mem_iff.mp member)

theorem descending_insert (hx : Ordered.isNaN x = false) (numbers : AreNumbers ys)
    (descending : ys.Pairwise fun y z => Ordered.place z ≤ Ordered.place y) :
    (insertDescending x ys).Pairwise fun y z => Ordered.place z ≤ Ordered.place y := by
  induction ys with
  | nil => exact List.pairwise_singleton _ x
  | cons y ys ih =>
    obtain ⟨top, rest⟩ := List.pairwise_cons.mp descending
    have hy := numbers y List.mem_cons_self
    have ordered := Ordered.below_iff hx hy
    rw [insertDescending]
    split
    · next below =>
      refine List.pairwise_cons.mpr ⟨?_, ih (fun z member => numbers z (.tail y member)) rest⟩
      intro z member
      rcases List.mem_cons.mp ((perm_insertDescending x ys).mem_iff.mp member) with rfl | member
      · exact (ordered.mp below).le
      · exact top z member
    · next above =>
      have le : Ordered.place y ≤ Ordered.place x := not_lt.mp (mt ordered.mpr above)
      refine List.pairwise_cons.mpr ⟨?_, descending⟩
      intro z member
      rcases List.mem_cons.mp member with rfl | member
      · exact le
      · exact (top z member).trans le

theorem descending_foldl (hx : AreNumbers xs) (hy : AreNumbers ys)
    (descending : ys.Pairwise fun y z => Ordered.place z ≤ Ordered.place y) :
    (xs.foldl (fun ordered x => insertDescending x ordered) ys).Pairwise
      fun y z => Ordered.place z ≤ Ordered.place y := by
  induction xs generalizing ys with
  | nil => exact descending
  | cons x xs ih =>
    obtain ⟨number, rest⟩ := List.forall_mem_cons.mp hx
    have numbers : AreNumbers (x :: ys) := List.forall_mem_cons.mpr ⟨number, hy⟩
    exact ih rest (numbers.perm (perm_insertDescending x ys))
      (descending_insert number hy descending)

theorem ascending_sorted (numbers : AreNumbers xs) : IsAscending (sorted xs) := by
  have none : AreNumbers ([] : List α) := List.forall_mem_nil _
  exact List.pairwise_reverse.mpr (descending_foldl numbers none List.Pairwise.nil)

end

end Reckoner.Statistics
