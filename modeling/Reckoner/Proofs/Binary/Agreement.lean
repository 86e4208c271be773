import Reckoner.Proofs.Binary.Order

/-! Doubles that are numerically the same. They are one double, or zeros of different signs, and
sums and quotients of such doubles are numerically the same again. -/
namespace Reckoner.Binary

open Float.Model (UnpackedFloat Format)
open Float.Model.UnpackedFloat

/-- Whether two doubles are one number, the two zeros being one, or neither is a number. -/
def Agree (x y : Float) : Prop := (x == y) = true ∨ x.isNaN = true ∧ y.isNaN = true

def AlikeUpToZero (u v : UnpackedFloat) : Prop := u = v ∨ ∃ s t, u = .zero s ∧ v = .zero t

section

variable {u u' v v' : UnpackedFloat} {x x' y y' : Float}

theorem alike_zeros (s t : Sign) : AlikeUpToZero (.zero s) (.zero t) := .inr ⟨s, t, rfl, rfl⟩

theorem alike_of_beq (same : u.beq v = true) : AlikeUpToZero u v := by
  have order : UnpackedFloat.compare u v = some .eq := eq_of_beq same
  cases u with
  | notANumber => cases order
  | infinity s =>
    cases v with
    | notANumber => cases order
    | infinity t => cases s <;> cases t <;> first | exact .inl rfl | cases order
    | zero t => cases s <;> cases order
    | finite t n k pos => cases s <;> cases order
  | zero s =>
    cases v with
    | notANumber => cases order
    | infinity t => cases t <;> cases order
    | zero t => exact alike_zeros s t
    | finite t n k pos => cases t <;> cases order
  | finite s m e pos =>
    have equal {n : ℕ} {k : ℤ} (h : (compare e k).then (compare m n) = .eq) : m = n ∧ e = k := by
      rw [Ordering.then_eq_eq, compare_eq_iff_eq, compare_eq_iff_eq] at h
      exact h.symm
    cases v with
    | notANumber => cases order
    | infinity t => cases t <;> cases order
    | zero t => cases s <;> cases order
    | finite t n k pos' =>
      cases s <;> cases t
      · have swapped := Option.some.inj order
        rw [Ordering.swap_eq_eq] at swapped
        obtain ⟨rfl, rfl⟩ := equal swapped
        exact .inl rfl
      · cases order
      · cases order
      · obtain ⟨rfl, rfl⟩ := equal (Option.some.inj order)
        exact .inl rfl

/-- A zero added on the left leaves all but zeros as they are, whatever its sign. -/
theorem alike_zero_add (spec : Format) (s t : Sign) (v : UnpackedFloat) :
    AlikeUpToZero (.add spec (.zero s) v) (.add spec (.zero t) v) := by
  cases v with
  | zero r => cases s <;> cases t <;> cases r <;> exact alike_zeros _ _
  | notANumber => exact .inl rfl
  | infinity r => exact .inl rfl
  | finite r m e pos => exact .inl rfl

theorem alike_add_zero (spec : Format) (s t : Sign) (v : UnpackedFloat) :
    AlikeUpToZero (.add spec v (.zero s)) (.add spec v (.zero t)) := by
  cases v with
  | zero r => cases s <;> cases t <;> cases r <;> exact alike_zeros _ _
  | notANumber => exact .inl rfl
  | infinity r => exact .inl rfl
  | finite r m e pos => exact .inl rfl

theorem AlikeUpToZero.trans {w : UnpackedFloat} (huv : AlikeUpToZero u v)
    (hvw : AlikeUpToZero v w) : AlikeUpToZero u w := by
  rcases huv with rfl | ⟨s, t, rfl, rfl⟩
  · exact hvw
  · rcases hvw with rfl | ⟨_, r, _, rfl⟩
    · exact alike_zeros s t
    · exact alike_zeros s r

theorem AlikeUpToZero.add (hu : AlikeUpToZero u u') (hv : AlikeUpToZero v v') (spec : Format) :
    AlikeUpToZero (.add spec u v) (.add spec u' v') := by
  have left : AlikeUpToZero (.add spec u v) (.add spec u' v) := by
    rcases hu with rfl | ⟨s, t, rfl, rfl⟩
    · exact .inl rfl
    · exact alike_zero_add spec s t v
  have right : AlikeUpToZero (.add spec u' v) (.add spec u' v') := by
    rcases hv with rfl | ⟨s, t, rfl, rfl⟩
    · exact .inl rfl
    · exact alike_add_zero spec s t u'
  exact left.trans right

theorem AlikeUpToZero.div (hu : AlikeUpToZero u u') (spec : Format) (v : UnpackedFloat) :
    AlikeUpToZero (.div spec u v) (.div spec u' v) := by
  rcases hu with rfl | ⟨s, t, rfl, rfl⟩
  · exact .inl rfl
  · cases v with
    | notANumber => exact .inl rfl
    | infinity r => exact alike_zeros _ _
    | zero r => exact .inl rfl
    | finite r m e pos => exact alike_zeros _ _

theorem agree_refl (x : Float) : Agree x x := by
  cases nan : x.isNaN with
  | true => exact .inr ⟨nan, nan⟩
  | false => exact .inl ((beq_iff_extendedValue nan nan).mpr rfl)

theorem Agree.alike (h : Agree x y) : AlikeUpToZero x.toModel.unpack y.toModel.unpack := by
  rcases h with same | ⟨hx, hy⟩
  · exact alike_of_beq same
  · exact .inl ((unpack_of_isNaN hx).trans (unpack_of_isNaN hy).symm)

theorem AlikeUpToZero.agree (h : AlikeUpToZero u v) :
    Agree (.ofModel (.pack u)) (.ofModel (.pack v)) := by
  rcases h with rfl | ⟨s, t, rfl, rfl⟩
  · exact agree_refl _
  · refine .inl ?_
    change (Float.Model.pack (.zero s)).unpack.beq (Float.Model.pack (.zero t)).unpack = true
    rw [unpack_pack_zero, unpack_pack_zero]
    rfl

theorem Agree.add (hx : Agree x x') (hy : Agree y y') : Agree (x + y) (x' + y') :=
  (hx.alike.add hy.alike Format.binary64).agree

theorem Agree.div (hx : Agree x x') (y : Float) : Agree (x / y) (x' / y) :=
  (hx.alike.div Format.binary64 y.toModel.unpack).agree

end

end Reckoner.Binary
