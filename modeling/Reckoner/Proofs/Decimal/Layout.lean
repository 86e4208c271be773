import Reckoner.Decimal.Layout
import Reckoner.Proofs.Decimal.Literal
import Reckoner.Proofs.Scan.Boundary

/-! Written forms of a number, read as literals. -/
namespace Reckoner.Decimal

open Binary

def isDigits (cs : List Char) : Prop := ∀ c ∈ cs, c.isDigit = true

section

variable {whole fraction power : List Char}

theorem natural_eq (cs : List Char) : natural cs = Nat.ofDigitChars 10 cs 0 :=
  Nat.ofDigitChars_eq_foldl.symm

theorem natural_repr (n : ℕ) : natural n.repr.toList = n := by
  rw [natural_eq, Nat.toList_repr, Nat.ofDigitChars_ten_toDigits]

theorem natural_zeros_append (k : ℕ) (cs : List Char) :
    natural ((zeros k).toList ++ cs) = natural cs := by
  rw [natural_eq, natural_eq, zeros, String.toList_ofList, Nat.ofDigitChars_append,
    Nat.ofDigitChars_replicate_zero, Nat.mul_zero]

theorem natural_append_zeros (cs : List Char) (k : ℕ) :
    natural (cs ++ (zeros k).toList) = natural cs * 10 ^ k := by
  rw [natural_eq, natural_eq, zeros, String.toList_ofList, Nat.ofDigitChars_append,
    Nat.ofDigitChars_replicate_zero, Nat.mul_comm]

theorem powerOfTen_nil : powerOfTen [] = 0 := rfl

theorem isDigits_repr (n : ℕ) : isDigits n.repr.toList := by
  intro c h
  rw [Nat.toList_repr] at h
  exact Nat.isDigit_of_mem_toDigits (by decide) (by decide) h

theorem isDigits_zeros (k : ℕ) : isDigits (zeros k).toList := by
  intro c h
  rw [zeros, String.toList_ofList] at h
  rw [List.eq_of_mem_replicate h]
  rfl

theorem isDigits_append {cs ds : List Char} (hc : isDigits cs) (hd : isDigits ds) :
    isDigits (cs ++ ds) := by
  intro c h
  exact (List.mem_append.mp h).elim (hc c) (hd c)

theorem repr_ne_nil (n : ℕ) : n.repr.toList ≠ [] := by
  rw [Nat.toList_repr]
  exact Nat.toDigits_ne_nil

theorem literal_of_whole (digits : isDigits whole) (notEmpty : whole ≠ []) :
    literal? whole power = some (nearest (natural whole) (powerOfTen power)) := by
  have taken : whole.takeWhile Char.isDigit = whole := List.takeWhile_eq_self_iff.mpr digits
  have dropped : whole.dropWhile Char.isDigit = [] := List.dropWhile_eq_nil_iff.mpr digits
  have nonempty : whole.isEmpty = false := by simpa using notEmpty
  simp [literal?, taken, dropped, nonempty]

theorem literal_of_point (digits : isDigits whole) (digits' : isDigits fraction)
    (notEmpty : whole ≠ []) :
    literal? (whole ++ '.' :: fraction) power =
      some (nearest (natural (whole ++ fraction)) (powerOfTen power - fraction.length)) := by
  have stop : ∀ c ∈ ('.' :: fraction).head?, c.isDigit = false := by
    intro c first
    cases first
    rfl
  have taken := Scan.takeWhile_append_of_stop stop digits
  have dropped := Scan.dropWhile_append_of_stop stop digits
  have all : fraction.all Char.isDigit = true := List.all_eq_true.mpr digits'
  have nonempty : whole.isEmpty = false := by simpa using notEmpty
  simp [literal?, taken, dropped, all, nonempty]

end

theorem literal_pointed (n places : ℕ) (power : List Char) :
    literal? (pointed n.repr places).toList power =
      some (nearest n (powerOfTen power - places)) := by
  unfold pointed
  split
  · rename_i none
    rw [literal_of_whole (isDigits_repr n) (repr_ne_nil n), natural_repr, none, Nat.cast_zero,
      sub_zero]
  · rename_i notZero
    dsimp only
    generalize padding : places + 1 - n.repr.length = k
    rw [String.toList_append (s := zeros k)]
    have digits : isDigits ((zeros k).toList ++ n.repr.toList) :=
      isDigits_append (isDigits_zeros k) (isDigits_repr n)
    have enough : places < ((zeros k).toList ++ n.repr.toList).length := by
      rw [List.length_append, String.length_toList, String.length_toList, zeros,
        String.length_ofList, List.length_replicate]
      omega
    have value : natural ((zeros k).toList ++ n.repr.toList) = n := by
      rw [natural_zeros_append, natural_repr]
    generalize (zeros k).toList ++ n.repr.toList = padded at digits enough value
    have text : (String.ofList (padded.take (padded.length - places)) ++ "." ++
        String.ofList (padded.drop (padded.length - places))).toList =
          padded.take (padded.length - places) ++ '.' :: padded.drop (padded.length - places) := by
      simp
    have notEmpty : padded.take (padded.length - places) ≠ [] := by
      intro none
      have := congrArg List.length none
      rw [List.length_take] at this
      simp only [List.length_nil] at this
      omega
    have count : (padded.drop (padded.length - places)).length = places := by
      rw [List.length_drop]
      omega
    rw [text, literal_of_point (fun c h => digits c (List.mem_of_mem_take h))
      (fun c h => digits c (List.mem_of_mem_drop h)) notEmpty, List.take_append_drop, value, count]

theorem literal_positional (d : Scientific) :
    ∃ y, literal? d.positional.toList [] = some y ∧ IsRounding d.toRat y := by
  unfold Scientific.positional Scientific.toRat
  split
  · rename_i whole
    have power : (10 : ℚ) ^ d.exponent = 10 ^ d.exponent.toNat := by
      rw [← zpow_natCast]
      congr 1
      omega
    split
    · rename_i none
      have zero := isRounding_nearest 0 0
      rw [none, Nat.cast_zero, zero_mul]
      rw [Nat.cast_zero, zero_mul] at zero
      exact ⟨nearest 0 0, rfl, zero⟩
    · have result := isRounding_nearest (d.digits * 10 ^ d.exponent.toNat) 0
      have digits := isDigits_append (isDigits_repr d.digits) (isDigits_zeros d.exponent.toNat)
      have read := @literal_of_whole _ [] digits
        (List.append_ne_nil_of_left_ne_nil (repr_ne_nil _) _)
      rw [natural_append_zeros, natural_repr, ← String.toList_append, powerOfTen_nil] at read
      refine ⟨_, read, ?_⟩
      rw [power]
      simpa using result
  · rename_i fraction
    refine ⟨_, literal_pointed _ _ _, ?_⟩
    have result := isRounding_nearest d.digits d.exponent
    have exponent : powerOfTen [] - ((-d.exponent).toNat : ℤ) = d.exponent := by
      rw [powerOfTen_nil]
      omega
    rw [exponent]
    exact result

theorem powerOfTen_signedPower (n : ℤ) : powerOfTen (signedPower n).toList = n := by
  unfold signedPower
  split
  · rw [String.toList_append]
    change -(natural n.natAbs.repr.toList : ℤ) = n
    rw [natural_repr]
    omega
  · rw [String.toList_append]
    change (natural n.natAbs.repr.toList : ℤ) = n
    rw [natural_repr]
    omega

end Reckoner.Decimal
