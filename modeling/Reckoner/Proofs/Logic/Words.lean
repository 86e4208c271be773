import Mathlib.Data.Int.Bitwise
import Reckoner.Logic

/-! Words of 64 bits as integers in two's complement. A word has the bits of its integer, and its
sign bit stands for all the bits above, so that an operation on words is the operation on the
integers, bit by bit. -/
namespace Reckoner.LogicOp

/-- The operation on the bits of two integers in two's complement. -/
def onIntegers (op : LogicOp) (m n : ℤ) : ℤ := Int.bitwise op.apply m n

section

variable {w k : ℕ} {m n : ℤ} {f : Bool → Bool → Bool}

theorem eq_of_testBit_eq (same : ∀ i, m.testBit i = n.testBit i) : m = n := by
  -- Above all of its digits a number below zero has ones, any other has zeros.
  have above {a i : ℕ} (h : a ≤ i) : a.testBit i = false :=
    Nat.testBit_lt_two_pow (Nat.lt_two_pow_self.trans_le (Nat.pow_le_pow_right Nat.two_pos h))
  cases m with
  | ofNat a =>
    cases n with
    | ofNat b => exact congrArg Int.ofNat (Nat.eq_of_testBit_eq same)
    | negSucc b =>
      have clash := same (a + b)
      simp [Int.testBit, above] at clash
  | negSucc a =>
    cases n with
    | ofNat b =>
      have clash := same (a + b)
      simp [Int.testBit, above] at clash
    | negSucc b =>
      refine congrArg Int.negSucc (Nat.eq_of_testBit_eq fun i => ?_)
      exact Bool.not_inj (same i)

theorem toInt_of_msb {x : BitVec w} (negative : x.msb = true) :
    x.toInt = Int.negSucc (~~~x).toNat := by
  have bound := x.isLt
  have scale : ((2 ^ w : ℕ) : ℤ) = 2 ^ w := by push_cast; rfl
  rw [BitVec.toInt_eq_msb_cond, if_pos negative, BitVec.toNat_not, Int.negSucc_eq]
  omega

theorem testBit_toInt (x : BitVec w) (i : ℕ) :
    x.toInt.testBit i = if i < w then x.getLsbD i else x.msb := by
  cases sign : x.msb with
  | false =>
    have positive : x.toInt = Int.ofNat x.toNat := by
      rw [BitVec.toInt_eq_msb_cond, sign]
      rfl
    rw [positive]
    split
    · rfl
    · exact BitVec.getLsbD_of_ge x i (by omega)
  | true =>
    rw [toInt_of_msb sign]
    have flipped : (Int.negSucc (~~~x).toNat).testBit i = !(~~~x).getLsbD i := rfl
    rw [flipped, BitVec.getLsbD_not]
    split <;> simp [*]

theorem getLsbD_onWords (op : LogicOp) (x y : BitVec 64) {i : ℕ} (h : i < 64) :
    (op.onWords x y).getLsbD i = op.apply (x.getLsbD i) (y.getLsbD i) := by
  cases op with
  | xnor =>
    simp only [onWords, apply, BitVec.getLsbD_not, BitVec.getLsbD_xor, h]
    cases x.getLsbD i <;> simp
  | _ => simp [onWords, apply, h]

theorem msb_onWords (op : LogicOp) (x y : BitVec 64) :
    (op.onWords x y).msb = op.apply x.msb y.msb := by
  simp only [BitVec.msb_eq_getLsbD_last, op.getLsbD_onWords x y (by decide : 64 - 1 < 64)]

/-- An operation on words is the operation on the bits of their integers. -/
theorem toInt_onWords (op : LogicOp) (x y : BitVec 64) :
    (op.onWords x y).toInt = op.onIntegers x.toInt y.toInt := by
  apply eq_of_testBit_eq
  intro i
  rw [onIntegers, Int.testBit_bitwise, testBit_toInt, testBit_toInt, testBit_toInt]
  split
  · exact op.getLsbD_onWords x y ‹_›
  · exact op.msb_onWords x y

theorem toInt_not (x : BitVec 64) : (~~~x).toInt = Int.lnot x.toInt := by
  apply eq_of_testBit_eq
  intro i
  rw [Int.testBit_lnot, testBit_toInt, testBit_toInt]
  split <;> simp [*]

theorem lnot_eq (n : ℤ) : Int.lnot n = -n - 1 := by
  cases n with
  | ofNat a =>
    change Int.negSucc a = -(a : ℤ) - 1
    omega
  | negSucc a =>
    change (a : ℤ) = -Int.negSucc a - 1
    omega

theorem natBitwise_bounds {a b : ℕ} (ha : a < 2 ^ k) (hb : b < 2 ^ k) :
    -2 ^ k ≤ Int.natBitwise f a b ∧ Int.natBitwise f a b < 2 ^ k := by
  have plain : (Nat.bitwise f a b : ℤ) < 2 ^ k := by exact_mod_cast Nat.bitwise_lt_two_pow ha hb
  have flipped : (Nat.bitwise (fun x y => !f x y) a b : ℤ) < 2 ^ k := by
    exact_mod_cast Nat.bitwise_lt_two_pow ha hb
  unfold Int.natBitwise
  cases f false false with
  | false =>
    rw [cond_false]
    omega
  | true =>
    rw [cond_true, Int.negSucc_eq]
    omega

/-- The integers of so many bits are closed under each operation on bits. -/
theorem bitwise_bounds (hm : -2 ^ k ≤ m ∧ m < 2 ^ k) (hn : -2 ^ k ≤ n ∧ n < 2 ^ k) :
    -2 ^ k ≤ Int.bitwise f m n ∧ Int.bitwise f m n < 2 ^ k := by
  have digits {a : ℕ} (h : (a : ℤ) < 2 ^ k) : a < 2 ^ k := by exact_mod_cast h
  have digits' {a : ℕ} (h : -2 ^ k ≤ Int.negSucc a) : a < 2 ^ k := by
    apply digits
    rw [Int.negSucc_eq] at h
    omega
  cases m with
  | ofNat a =>
    cases n with
    | ofNat b => exact natBitwise_bounds (digits hm.2) (digits hn.2)
    | negSucc b =>
      rw [Int.bitwise]
      exact natBitwise_bounds (digits hm.2) (digits' hn.1)
  | negSucc a =>
    cases n with
    | ofNat b =>
      rw [Int.bitwise]
      exact natBitwise_bounds (digits' hm.1) (digits hn.2)
    | negSucc b =>
      rw [Int.bitwise]
      exact natBitwise_bounds (digits' hm.1) (digits' hn.1)

end

section

def opposite : LogicOp → LogicOp
  | .and => .nand
  | .or => .nor
  | .xor => .xnor
  | .nand => .and
  | .nor => .or
  | .xnor => .xor

/-- The operation that has, on two operands, the result of this one on their complements. -/
def onComplements : LogicOp → LogicOp
  | .and => .nor
  | .or => .nand
  | .xor => .xor
  | .nand => .or
  | .nor => .and
  | .xnor => .xnor

variable (op : LogicOp)

theorem not_onWords (x y : BitVec 64) : ~~~op.onWords x y = op.opposite.onWords x y := by
  cases op <;> simp [onWords, opposite]

theorem onWords_not (x y : BitVec 64) :
    op.onWords (~~~x) (~~~y) = op.onComplements.onWords x y := by
  apply BitVec.eq_of_getLsbD_eq
  intro i below
  simp only [getLsbD_onWords _ _ _ below, BitVec.getLsbD_not, below, decide_true, Bool.true_and]
  cases op <;> simp [apply, onComplements]

end

end Reckoner.LogicOp
