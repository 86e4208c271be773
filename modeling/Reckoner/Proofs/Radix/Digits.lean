import Mathlib.Data.Nat.Digits.Lemmas
import Reckoner.Radix

/-! Strings of digits against the numbers that they stand for, in any radix up to sixteen. What is
read may have zeros in front and small letters. What is written is the one spelling of a number
that has neither. -/
namespace Reckoner.Radix

/-- Whether a character is a digit of a radix. The letters count on from ten, in either case. -/
structure IsDigit (radix : ℕ) (c : Char) (d : ℕ) : Prop where
  below : d < radix
  shape : c = d.digitChar ∨ c = d.digitChar.toUpper

/-- Digits, at least one, and the number that they stand for. The last digit counts once. -/
def Spells (radix : ℕ) (cs : List Char) (n : ℕ) : Prop :=
  cs ≠ [] ∧ ∃ ds, List.Forall₂ (IsDigit radix) cs ds ∧ Nat.ofDigits radix ds.reverse = n

/-- A spelling in capital letters, with no zero in front but the digit of zero itself. -/
structure IsCanonical (radix : ℕ) (cs : List Char) (n : ℕ) : Prop where
  spells : Spells radix cs n
  capital : ∀ c ∈ cs, c.isLower = false
  short : cs.head? = some '0' → cs = ['0']

section

variable {radix n d : ℕ} {c : Char} {cs : List Char} {ds : List ℕ}

theorem digitValue_of_large (large : 128 ≤ c.toNat) : digitValue? radix c = none := by
  have above (high : Char) (ascii : high.toNat < 128) : ¬c ≤ high := by
    rw [Char.le_def, UInt32.le_iff_toNat_le]
    change ¬c.toNat ≤ high.toNat
    omega
  have notDigit : c.isDigit = false := by
    have nine := above '9' (by decide)
    simpa [Char.isDigit, Char.le_def] using fun _ => nine
  simp [digitValue?, notDigit, above 'z' (by decide), above 'Z' (by decide)]

theorem digitValue_sixteen :
    digitValue? 16 c = some d ↔ d < 16 ∧ (c = d.digitChar ∨ c = d.digitChar.toUpper) := by
  have table : ∀ code < 128, ∀ d < 16, digitValue? 16 (.ofNat code) = some d ↔
      Char.ofNat code = d.digitChar ∨ Char.ofNat code = d.digitChar.toUpper := by
    decide +kernel
  have ascii : ∀ d < 16, d.digitChar.toNat < 128 ∧ d.digitChar.toUpper.toNat < 128 := by
    decide +kernel
  by_cases small : c.toNat < 128
  · have row := table c.toNat small
    rw [Char.ofNat_toNat] at row
    constructor
    · intro read
      have below : d < 16 := of_decide_eq_true (Option.filter_eq_some_iff.mp read).2
      exact ⟨below, (row d below).mp read⟩
    · rintro ⟨below, shape⟩
      exact (row d below).mpr shape
  · rw [digitValue_of_large (not_lt.mp small)]
    refine iff_of_false nofun ?_
    rintro ⟨below, rfl | rfl⟩
    · exact small (ascii d below).1
    · exact small (ascii d below).2

theorem digitValue_eq_some_iff (most : radix ≤ 16) :
    digitValue? radix c = some d ↔ IsDigit radix c d := by
  have smaller : digitValue? radix c = some d ↔ digitValue? 16 c = some d ∧ d < radix := by
    simp only [digitValue?, Option.filter_eq_some_iff, decide_eq_true_eq]
    constructor
    · rintro ⟨value, below⟩
      exact ⟨⟨value, by omega⟩, below⟩
    · rintro ⟨⟨value, _⟩, below⟩
      exact ⟨value, below⟩
  rw [smaller, digitValue_sixteen]
  constructor
  · rintro ⟨⟨_, shape⟩, below⟩
    exact ⟨below, shape⟩
  · intro digit
    exact ⟨⟨digit.below.trans_le most, digit.shape⟩, digit.below⟩

theorem foldlM_eq_some_iff (most : radix ≤ 16) (k : ℕ) :
    cs.foldlM (fun n c => (digitValue? radix c).map (radix * n + ·)) k = some n ↔
      ∃ ds, List.Forall₂ (IsDigit radix) cs ds ∧ ds.foldl (fun n d => radix * n + d) k = n := by
  induction cs generalizing k with
  | nil => simp
  | cons c cs ih =>
    rw [List.foldlM_cons, Option.bind_eq_bind, Option.bind_eq_some_iff]
    constructor
    · rintro ⟨m, first, others⟩
      obtain ⟨d, value, rfl⟩ := Option.map_eq_some_iff.mp first
      obtain ⟨ds, valid, folded⟩ := (ih _).mp others
      exact ⟨d :: ds, .cons ((digitValue_eq_some_iff most).mp value) valid, folded⟩
    · rintro ⟨_, valid, folded⟩
      obtain ⟨d, ds, digit, others, rfl⟩ := List.forall₂_cons_left_iff.mp valid
      exact ⟨radix * k + d, by rw [(digitValue_eq_some_iff most).mpr digit, Option.map_some],
        (ih _).mpr ⟨ds, others, folded⟩⟩

theorem ofDigits_reverse (ds : List ℕ) :
    Nat.ofDigits radix ds.reverse = ds.foldl (fun n d => radix * n + d) 0 := by
  rw [Nat.ofDigits_eq_foldr, List.foldr_reverse]
  simp only [Nat.cast_id, add_comm]

theorem natural_eq_some_iff (most : radix ≤ 16) : natural? radix cs = some n ↔ Spells radix cs n := by
  unfold natural? Spells
  cases cs with
  | nil => simp
  | cons c cs =>
    rw [List.isEmpty_cons, if_neg Bool.false_ne_true, foldlM_eq_some_iff most]
    simp only [ofDigits_reverse, ne_eq, reduceCtorEq, not_false_eq_true, true_and]

theorem digit_cases : ∀ d < 16, d.digitChar.toUpper.isLower = false ∧
    (d.digitChar.isLower = false → d.digitChar = d.digitChar.toUpper) ∧
    (d.digitChar.toUpper = '0' ↔ d = 0) := by
  decide +kernel

theorem toDigits_eq (least : 1 < radix) (notZero : n ≠ 0) :
    Nat.toDigits radix n = (Nat.digits radix n).reverse.map Nat.digitChar := by
  induction n using Nat.strong_induction_on with
  | _ n ih =>
    by_cases single : n < radix
    · rw [Nat.toDigits_of_lt_base single, Nat.digits_of_lt radix n notZero single]
      rfl
    · have fewer : n / radix < n := Nat.div_lt_self (Nat.pos_of_ne_zero notZero) least
      have rest : n / radix ≠ 0 := (Nat.div_pos (not_lt.mp single) (by omega)).ne'
      rw [Nat.toDigits_of_base_le least (not_lt.mp single), ih _ fewer rest,
        Nat.digits_def' least (Nat.pos_of_ne_zero notZero)]
      simp

theorem digits_zero (radix : ℕ) : digits radix 0 = ['0'] := by
  rw [digits, Nat.toDigits_zero]
  rfl

theorem digits_eq (least : 1 < radix) (notZero : n ≠ 0) :
    digits radix n = (Nat.digits radix n).reverse.map fun d => d.digitChar.toUpper := by
  rw [digits, toDigits_eq least notZero, List.map_map]
  rfl

/-- Capital digits are determined by their values. -/
theorem eq_map_of_capital (most : radix ≤ 16) (valid : List.Forall₂ (IsDigit radix) cs ds)
    (capital : ∀ c ∈ cs, c.isLower = false) : cs = ds.map fun d => d.digitChar.toUpper := by
  induction valid with
  | nil => rfl
  | @cons c d cs ds digit _ ih =>
    have small := digit.below.trans_le most
    have first : c = d.digitChar.toUpper := by
      rcases digit.shape with rfl | same
      · exact (digit_cases d small).2.1 (capital _ (.head _))
      · exact same
    rw [List.map_cons, ← first, ← ih fun c member => capital c (.tail _ member)]

theorem below_of_forall₂ (valid : List.Forall₂ (IsDigit radix) cs ds) : ∀ d ∈ ds, d < radix := by
  induction valid with
  | nil => nofun
  | cons digit _ ih => exact List.forall_mem_cons.mpr ⟨digit.below, ih⟩

theorem forall₂_capital (below : ∀ d ∈ ds, d < radix) :
    List.Forall₂ (IsDigit radix) (ds.map fun d => d.digitChar.toUpper) ds := by
  induction ds with
  | nil => exact .nil
  | cons d ds ih =>
    exact .cons ⟨below d (.head _), .inr rfl⟩ (ih fun d member => below d (.tail _ member))

theorem isCanonical_digits (least : 1 < radix) (most : radix ≤ 16) (n : ℕ) :
    IsCanonical radix (digits radix n) n := by
  by_cases zero : n = 0
  · subst zero
    rw [digits_zero]
    have spells : Spells radix ['0'] 0 :=
      ⟨List.cons_ne_nil _ _, [0], .cons ⟨by omega, .inl rfl⟩ .nil, by simp⟩
    exact ⟨spells, List.forall_mem_singleton.mpr rfl, fun _ => rfl⟩
  · rw [digits_eq least zero]
    have below : ∀ d ∈ (Nat.digits radix n).reverse, d < radix := fun d member =>
      Nat.digits_lt_base least (List.mem_reverse.mp member)
    refine ⟨⟨?_, _, forall₂_capital below, ?_⟩, ?_, ?_⟩
    · simpa using Nat.digits_ne_nil_iff_ne_zero.mpr zero
    · rw [List.reverse_reverse, Nat.ofDigits_digits]
    · intro c member
      obtain ⟨d, listed, rfl⟩ := List.mem_map.mp member
      exact (digit_cases d ((below d listed).trans_le most)).1
    · intro first
      have notEmpty := Nat.digits_ne_nil_iff_ne_zero (b := radix).mpr zero
      rw [List.head?_map, List.head?_reverse, List.getLast?_eq_some_getLast notEmpty,
        Option.map_some, Option.some.injEq] at first
      have small := (Nat.digits_lt_base least (List.getLast_mem notEmpty)).trans_le most
      exact absurd ((digit_cases _ small).2.2.mp first) (Nat.getLast_digit_ne_zero radix zero)

/-- A number has one canonical spelling, which is what is written for it. -/
theorem isCanonical_iff (least : 1 < radix) (most : radix ≤ 16) :
    IsCanonical radix cs n ↔ cs = digits radix n := by
  refine ⟨fun canonical => ?_, fun same => same ▸ isCanonical_digits least most n⟩
  obtain ⟨notEmpty, ds, valid, value⟩ := canonical.spells
  have written := eq_map_of_capital most valid canonical.capital
  have below := below_of_forall₂ valid
  cases ds with
  | nil => exact absurd written notEmpty
  | cons d ds =>
    have small := (below d (.head _)).trans_le most
    by_cases first : d = 0
    · have zero := canonical.short (by rw [written, List.map_cons, List.head?_cons,
        (digit_cases d small).2.2.mpr first])
      have single : ds = [] := by
        rw [zero, List.map_cons, List.cons.injEq] at written
        exact List.map_eq_nil_iff.mp written.2.symm
      subst single first
      rw [← value, zero]
      exact (digits_zero radix).symm
    · have expansion : Nat.digits radix n = (d :: ds).reverse := by
        rw [← value]
        refine Nat.digits_ofDigits radix least _ (fun d member => ?_) fun _ => ?_
        · exact below d (List.mem_reverse.mp member)
        · rwa [List.getLast_reverse]
      have notZero : n ≠ 0 := by
        rw [← Nat.digits_ne_nil_iff_ne_zero (b := radix), expansion]
        simp
      rw [digits_eq least notZero, expansion, List.reverse_reverse, written]

end

end Reckoner.Radix
