import Reckoner.Proofs.Binary.Canonical
import Reckoner.Proofs.Decimal.Layout
import Reckoner.Proofs.Decimal.Shortest

/-! The fewest digits of an integer up to `2 ^ 53`. The doubles around it are no further apart than the
integers, so no other integer rounds to it, and no grid that is coarser than its last digit other than
zero has a point that does. -/
namespace Reckoner.Decimal

open Binary

theorem repr_mul_ten_pow {n : ℕ} (pos : 0 < n) (k : ℕ) : (n * 10 ^ k).repr = n.repr ++ zeros k := by
  apply String.toList_inj.mp
  rw [String.toList_append, Nat.toList_repr, Nat.toList_repr, zeros, String.toList_ofList]
  induction k with
  | zero => simp
  | succ k ih =>
    have shifted : n * 10 ^ (k + 1) = 10 * (n * 10 ^ k) + 0 := by ring
    rw [shifted, ← Nat.toDigits_append_toDigits (by norm_num) (by positivity) (by norm_num), ih,
      List.append_assoc, List.replicate_succ']
    rfl

section

variable {m d k : ℕ} {e : ℤ}

theorem inInterval_self (pos : 0 < m) (e : ℤ) : InInterval m e (m * 2 ^ e) := by
  have unit := two_zpow_pos e
  have low : (lowerEnd m e : ℚ) < 4 * m := by
    have bound : lowerEnd m e < 4 * m := by
      unfold lowerEnd
      split <;> omega
    exact_mod_cast bound
  have below : (lowerEnd m e : ℚ) * 2 ^ (e - 2) < m * 2 ^ e := by
    rw [quarters]
    exact mul_lt_mul_of_pos_right (by linarith) unit
  have above : (m : ℚ) * 2 ^ e < upperEnd m * 2 ^ (e - 2) := by
    rw [quarters, upperEnd_eq]
    exact mul_lt_mul_of_pos_right (by linarith) unit
  exact ⟨below.le, above.le, fun _ => ⟨below, above⟩⟩

/-- Of the integers only the number itself lies between the bounds. -/
theorem InInterval.eq_of_integer {i n : ℕ} (inside : InInterval m e i) (fine : e ≤ 0)
    (whole : (m : ℚ) * 2 ^ e = n) : i = n := by
  have unit : (2 : ℚ) ^ e ≤ 1 := zpow_le_one_of_nonpos₀ one_le_two fine
  have scale := two_zpow_pos e
  have near : |(i : ℚ) - n| ≤ 1 / 2 := by
    have counted := abs_sub_mul scale (i : ℚ) m
    rw [whole] at counted
    rw [counted]
    calc |(i : ℚ) / 2 ^ e - m| * 2 ^ e ≤ 1 / 2 * 1 :=
          mul_le_mul inside.nearest.close unit scale.le (by norm_num)
      _ = 1 / 2 := mul_one _
  have apart : |(i : ℤ) - n| < 1 := by
    have strict : |(i : ℚ) - n| < 1 := near.trans_lt (by norm_num)
    exact_mod_cast strict
  rw [Int.abs_lt_one_iff] at apart
  omega

section

variable (fine : e ≤ 0) (whole : (m : ℚ) * 2 ^ e = (d * 10 ^ k : ℕ)) (last : ¬10 ∣ d)
include fine whole last

theorem gridPoint_of_coarser {place : ℤ} (coarser : k < place) : gridPoint? m e place = none := by
  cases hit : gridPoint? m e place with
  | none => rfl
  | some i =>
    have inside := roundsTo_iff.mp (roundsTo_of_gridPoint hit)
    obtain ⟨more, rfl⟩ : ∃ more : ℕ, place = k + (more + 1 : ℕ) :=
      ⟨(place - k - 1).toNat, by omega⟩
    have power : (10 : ℚ) ^ ((k : ℤ) + (more + 1 : ℕ)) = 10 ^ (k + (more + 1)) := by
      rw [← Nat.cast_add, zpow_natCast]
    rw [power] at inside
    have same : i * 10 ^ (k + (more + 1)) = d * 10 ^ k :=
      InInterval.eq_of_integer (by exact_mod_cast inside) fine whole
    rw [pow_add, pow_succ, mul_left_comm, mul_comm d] at same
    have multiple := Nat.eq_of_mul_eq_mul_left (by positivity) same
    exact absurd ⟨i * 10 ^ more, by rw [← multiple]; ring⟩ last

omit fine last in
theorem gridPoint_of_last (pos : 0 < m) : gridPoint? m e k = some d := by
  have den := Ratio.den_onGrid_pos m e k
  have ratio : (Ratio.onGrid m e k).num = d * (Ratio.onGrid m e k).den := by
    have quotient := Ratio.toRat_onGrid m e k
    rw [whole, zpow_natCast, Nat.cast_mul, Nat.cast_pow, Nat.cast_ofNat,
      mul_div_cancel_right₀ _ (by positivity), Ratio.toRat,
      div_eq_iff (by exact_mod_cast den.ne')] at quotient
    exact_mod_cast quotient
  have inside : roundsTo m e k d = true := by
    have self := inInterval_self pos e
    rw [whole] at self
    refine roundsTo_iff.mpr ?_
    rw [zpow_natCast]
    exact_mod_cast self
  unfold gridPoint?
  dsimp only
  rw [ratio, Nat.mul_div_cancel _ den, Nat.mul_mod_left, inside, Nat.mul_zero, if_pos den]
  split <;> simp_all

/-- The search passes the coarser grids and ends on that of the last digit. -/
theorem search_of_integer (pos : 0 < m) {tries : ℕ} :
    ∀ {place : ℤ}, k ≤ place → place < k + tries → search m e tries place = ⟨d, k⟩ := by
  induction tries with
  | zero =>
    intro place above below
    omega
  | succ tries ih =>
    intro place above below
    rw [search]
    rcases above.eq_or_lt with reached | coarser
    · rw [← reached, gridPoint_of_last whole pos]
    · rw [gridPoint_of_coarser fine whole last coarser]
      exact ih (by omega) (by omega)

theorem shortest_of_integer (canonical : IsCanonical m e) (pos : 0 < m) :
    shortest m e = ⟨d, k⟩ := by
  have bits : m.log2 ≤ 52 := by
    have := (Nat.log2_lt pos.ne').mpr canonical.short
    omega
  have posD : 0 < d := Nat.pos_of_ne_zero (by rintro rfl; exact last (dvd_zero 10))
  have size : (10 : ℚ) ^ (k : ℤ) < 2 ^ (e + m.log2 + 1) :=
    calc (10 : ℚ) ^ (k : ℤ) ≤ (d * 10 ^ k : ℕ) := by
          rw [zpow_natCast]
          exact_mod_cast Nat.le_mul_of_pos_left _ posD
      _ = m * 2 ^ e := whole.symm
      _ < 2 ^ (m.log2 + 1) * 2 ^ e :=
          mul_lt_mul_of_pos_right (by exact_mod_cast Nat.lt_log2_self) (two_zpow_pos e)
      _ = 2 ^ (e + m.log2 + 1) := by
          rw [two_pow_mul_zpow]
          congr 1
          push_cast
          ring
  have least : 0 ≤ e + m.log2 := by
    have one : (2 : ℚ) ^ (0 : ℤ) < 2 ^ (e + m.log2 + 1) :=
      (one_le_zpow₀ (by norm_num) (by omega)).trans_lt size
    have := (zpow_lt_zpow_iff_right₀ (by norm_num)).mp one
    omega
  have start : placeAbove m e = leadingPlaceOfPower (e + m.log2) + 2 := rfl
  have above : (k : ℤ) ≤ placeAbove m e := by
    have power := (ten_zpow_leadingPlaceOfPower (k := e + m.log2) (by omega) (by omega)).2
    have next : (10 : ℚ) ^ (k : ℤ) < 10 ^ (leadingPlaceOfPower (e + m.log2) + 1 + 1) :=
      calc (10 : ℚ) ^ (k : ℤ) < 2 ^ (e + m.log2) * 2 := by rwa [← zpow_add_one₀ (by norm_num)]
        _ ≤ 10 ^ (leadingPlaceOfPower (e + m.log2) + 1) * 10 :=
            mul_le_mul power.le (by norm_num) (by norm_num) (ten_zpow_pos _).le
        _ = 10 ^ (leadingPlaceOfPower (e + m.log2) + 1 + 1) :=
            (zpow_add_one₀ (by norm_num) _).symm
    have := (zpow_lt_zpow_iff_right₀ (by norm_num : (1 : ℚ) < 10)).mp next
    omega
  have near : placeAbove m e < k + (20 : ℕ) := by
    have estimate : leadingPlaceOfPower (e + m.log2) ≤ 15 := by
      unfold leadingPlaceOfPower
      rw [Int.fdiv_eq_ediv_of_nonneg _ (by norm_num)]
      omega
    omega
  rw [shortest, if_neg pos.ne']
  exact search_of_integer fine whole last pos above near

end

theorem exponent_nonpos {n : ℕ} (canonical : IsCanonical m e) (small : n < 2 ^ 53)
    (whole : (m : ℚ) * 2 ^ e = n) : e ≤ 0 := by
  by_contra coarse
  have leading : (2 : ℚ) ^ 52 ≤ m := by exact_mod_cast canonical.normal.resolve_left (by omega)
  have two : (2 : ℚ) ^ (1 : ℤ) ≤ 2 ^ e := zpow_le_zpow_right₀ (by norm_num) (by omega)
  have large : (2 : ℚ) ^ 52 * 2 ^ (1 : ℤ) ≤ n :=
    (mul_le_mul leading two (two_zpow_pos 1).le (Nat.cast_nonneg m)).trans_eq whole
  have bound : (n : ℚ) < 2 ^ 53 := by exact_mod_cast small
  norm_num at large bound
  linarith

/-- The fewest digits of an integer are written as the integer is. -/
theorem positional_shortest {n : ℕ} (canonical : IsCanonical m e) (pos : 0 < m)
    (small : n ≤ 2 ^ 53) (whole : (m : ℚ) * 2 ^ e = n) : (shortest m e).positional = n.repr := by
  rcases small.eq_or_lt with top | less
  · have power : (m : ℚ) * 2 ^ e = (2 ^ 52 : ℕ) * 2 ^ (1 : ℤ) := by
      rw [whole, top]
      norm_num
    have leading : IsCanonical (2 ^ 52) 1 := ⟨by norm_num, by norm_num, .inr le_rfl⟩
    obtain ⟨rfl, rfl⟩ := canonical_unique canonical leading pos (by norm_num) power
    rw [top]
    decide
  have notZero : n ≠ 0 := by
    rintro rfl
    rw [Nat.cast_zero] at whole
    exact (mul_two_zpow_pos pos e).ne' whole
  have fine := exponent_nonpos canonical less whole
  obtain ⟨k, d, last, rfl⟩ := Nat.exists_eq_pow_mul_and_not_dvd notZero 10 (by norm_num)
  rw [Nat.mul_comm] at whole ⊢
  have posD : 0 < d := Nat.pos_of_ne_zero (by rintro rfl; exact last (dvd_zero 10))
  rw [shortest_of_integer fine whole last canonical pos, repr_mul_ten_pow posD]
  simp only [Scientific.positional, Int.natCast_nonneg, if_true, posD.ne', if_false,
    Int.toNat_natCast]

end

end Reckoner.Decimal
