import Reckoner.Binary.Exact

/-! The double that is not a number. It goes through every operation and compares with nothing. -/
namespace Reckoner.Binary

open Float.Model (UnpackedFloat)

theorem unpack_nan : nan.toModel.unpack = .notANumber := by
  have isNaN : nan.toModel.unpack.isNaN = true := by decide
  unfold UnpackedFloat.isNaN at isNaN
  split at isNaN
  · assumption
  · cases isNaN

theorem ofModel_notANumber : Float.ofModel (.pack .notANumber) = nan := by
  decide

variable (x : Float)

@[simp] theorem nan_add : nan + x = nan := by
  change Float.ofModel (.pack (UnpackedFloat.add _ nan.toModel.unpack _)) = nan
  rw [unpack_nan]
  exact ofModel_notANumber

@[simp] theorem add_nan : x + nan = nan := by
  change Float.ofModel (.pack (UnpackedFloat.add _ x.toModel.unpack nan.toModel.unpack)) = nan
  rw [unpack_nan]
  cases x.toModel.unpack <;> exact ofModel_notANumber

@[simp] theorem nan_sub : nan - x = nan := by
  change Float.ofModel (.pack (UnpackedFloat.sub _ nan.toModel.unpack _)) = nan
  rw [unpack_nan]
  exact ofModel_notANumber

@[simp] theorem nan_mul : nan * x = nan := by
  change Float.ofModel (.pack (UnpackedFloat.mul _ nan.toModel.unpack _)) = nan
  rw [unpack_nan]
  exact ofModel_notANumber

@[simp] theorem mul_nan : x * nan = nan := by
  change Float.ofModel (.pack (UnpackedFloat.mul _ x.toModel.unpack nan.toModel.unpack)) = nan
  rw [unpack_nan]
  cases x.toModel.unpack <;> exact ofModel_notANumber

@[simp] theorem nan_div : nan / x = nan := by
  change Float.ofModel (.pack (UnpackedFloat.div _ nan.toModel.unpack _)) = nan
  rw [unpack_nan]
  exact ofModel_notANumber

@[simp] theorem abs_nan : nan.abs = nan := by
  decide

@[simp] theorem isNaN_nan : nan.isNaN = true := by
  decide

@[simp] theorem not_nan_lt : ¬nan < x := by
  change ¬UnpackedFloat.lt nan.toModel.unpack x.toModel.unpack = true
  rw [unpack_nan]
  exact Bool.false_ne_true

end Reckoner.Binary
