import Reckoner.Expression.Scan

/-! The kinds of characters that scanning tells apart, and which of them exclude each other. A
blank, a digit or point, a letter and a sign of the notation are four different things. -/
namespace Reckoner.Scan

variable {c : Char}

/-- What is checked for every code point of a range holds for the characters in it. -/
theorem of_between {p : Char → Bool} {value : Bool} {low count : Nat}
    (checked : ∀ k < count, p (Char.ofNat (low + k)) = value) (above : low ≤ c.toNat)
    (below : c.toNat < low + count) : p c = value := by
  have here := checked (c.toNat - low) (by omega)
  rwa [Nat.add_sub_cancel' above, Char.ofNat_toNat] at here

section Blanks

theorem toNat_of_isBlank (h : Text.isBlank c = true) : c.toNat ≤ 32 ∨ 133 ≤ c.toNat := by
  simp only [Text.isBlank, Bool.or_eq_true, Bool.and_eq_true, decide_eq_true_eq, beq_iff_eq] at h
  rcases h with (((((((((rfl | ⟨_, high⟩) | rfl) | rfl) | rfl) | ⟨low, _⟩) | rfl) | rfl) | rfl) |
    rfl) | rfl
  any_goals decide
  · exact .inl (Nat.le_trans (UInt32.le_iff_toNat_le.mp high) (by decide))
  · exact .inr (Nat.le_trans (by decide) (UInt32.le_iff_toNat_le.mp low))

theorem continuesName_of_isBlank (blank : Text.isBlank c = true) : continuesName c = false := by
  simp only [Text.isBlank, Bool.or_eq_true, Bool.and_eq_true, decide_eq_true_eq, beq_iff_eq]
    at blank
  rcases blank with (((((((((rfl | ⟨low, high⟩) | rfl) | rfl) | rfl) | ⟨low, high⟩) | rfl) | rfl) |
    rfl) | rfl) | rfl
  any_goals decide +kernel
  · have controls : ∀ k < 5, continuesName (Char.ofNat (9 + k)) = false := by decide +kernel
    exact of_between controls (UInt32.le_iff_toNat_le.mp low)
      (Nat.lt_succ_of_le (UInt32.le_iff_toNat_le.mp high))
  · have spaces : ∀ k < 11, continuesName (Char.ofNat (0x2000 + k)) = false := by decide +kernel
    exact of_between spaces (UInt32.le_iff_toNat_le.mp low)
      (Nat.lt_succ_of_le (UInt32.le_iff_toNat_le.mp high))

theorem notBlank_of_continuesName (continued : continuesName c = true) :
    Text.isBlank c = false := by
  rw [Bool.eq_false_iff]
  intro blank
  cases continued.symm.trans (continuesName_of_isBlank blank)

theorem ne_of_isBlank {d : Char} (blank : Text.isBlank c = true)
    (notBlank : Text.isBlank d = false) : c ≠ d := by
  rintro rfl
  cases blank.symm.trans notBlank

end Blanks

section Digits

theorem isDigit_of_isLiteral (literal : isLiteral c = true) (notPoint : c ≠ '.') :
    c.isDigit = true := by
  simpa [isLiteral, notPoint] using literal

theorem isLiteral_of_isDigit (digit : c.isDigit = true) : isLiteral c = true := by
  rw [isLiteral, digit, Bool.true_or]

theorem toNat_of_isLiteral (h : isLiteral c = true) : 46 ≤ c.toNat ∧ c.toNat ≤ 57 := by
  simp only [isLiteral, Char.isDigit, Bool.or_eq_true, Bool.and_eq_true, decide_eq_true_eq,
    beq_iff_eq] at h
  rcases h with ⟨low, high⟩ | rfl
  · exact ⟨Nat.le_trans (by decide) (UInt32.le_iff_toNat_le.mp low),
      UInt32.le_iff_toNat_le.mp high⟩
  · decide

theorem isLiteral_notBlank (h : isLiteral c = true) : Text.isBlank c = false := by
  rw [Bool.eq_false_iff]
  intro blank
  have range := toNat_of_isLiteral h
  have outside := toNat_of_isBlank blank
  omega

theorem isLiteral_of_isBlank (blank : Text.isBlank c = true) : isLiteral c = false := by
  rw [Bool.eq_false_iff]
  intro literal
  cases blank.symm.trans (isLiteral_notBlank literal)

theorem startsName_of_isLiteral (literal : isLiteral c = true) : startsName c = false := by
  have range := toNat_of_isLiteral literal
  have figures : ∀ k < 12, startsName (Char.ofNat (46 + k)) = false := by decide +kernel
  exact of_between figures range.1 (by omega)

end Digits

section Letters

theorem continuesName_of_startsName (starts : startsName c = true)
    (notSymbol : isSymbol c = false) : continuesName c = true := by
  rw [continuesName, notSymbol, Bool.not_false, Bool.and_true]
  rw [startsName, Bool.or_eq_true] at starts
  rcases starts with letter | line
  · rw [Text.isAlphanumeric, letter, Bool.true_or, Bool.true_or, Bool.true_or]
  · rw [line, Bool.or_true]

theorem symbol_cases (symbol : isSymbol c = true) : c = 'π' ∨ c = 'φ' := by
  simpa [isSymbol] using symbol

end Letters

section Signs

variable {m : Mark}

/-- A sign of the notation, which is part of no longer lexeme, unless it is a star. -/
structure IsSign (m : Mark) (c : Char) : Prop where
  punctuation : punctuation? c = some m
  notBlank : Text.isBlank c = false
  notLiteral : isLiteral c = false
  notSymbol : isSymbol c = false
  notStart : startsName c = false
  notContinued : continuesName c = false

theorem isSign_of_punctuation (h : punctuation? c = some m) : IsSign m c := by
  unfold punctuation? at h
  split at h <;> cases h <;> constructor <;> decide +kernel

theorem isSign_star : IsSign .star '*' := isSign_of_punctuation rfl

theorem isSign_minus : IsSign .minus '-' := isSign_of_punctuation rfl

theorem isSign_text (m : Mark) : ∃ c, m.text.toList = [c] ∧ IsSign m c := by
  cases m <;> exact ⟨_, rfl, isSign_of_punctuation rfl⟩

end Signs

end Reckoner.Scan
