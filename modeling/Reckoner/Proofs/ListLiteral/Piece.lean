import Mathlib.Algebra.Group.Int.Defs
import Mathlib.Algebra.Group.Nat.Defs
import Mathlib.Data.List.Basic
import Mathlib.Data.List.Induction
import Reckoner.ListLiteral

/-! The pieces between the commas of a list, by counting brackets. A piece never closes more than is
open, closes all of it, and has its commas inside brackets. A text that can be split is its pieces
with one comma between two of them, and it is so in one way only. -/
namespace Reckoner.ListLiteral

def rise (c : Char) : Int :=
  if c = '[' ∨ c = '(' then 1 else if c = ']' ∨ c = ')' then -1 else 0

/-- The brackets that are opened in a text less those that are closed. -/
def depth (cs : List Char) : Int := cs.foldr (fun c below => rise c + below) 0

/-- The depth that a counter of 32 bits with a sign shows after a text, read from some depth on. -/
def counted (start : Int) (cs : List Char) : Int := (start + depth cs).bmod (2 ^ 32)

/-- A piece of a list that begins at some depth, inside of further brackets around the list. The depth
never falls below zero, it is zero at the end, and no comma stands where it is zero. Together with the
brackets around it is never too large for 32 bits with a sign. -/
structure IsPiece (around start : Int) (cs : List Char) : Prop where
  guarded : ∀ front, front <+: cs → 0 ≤ start + depth front
  closed : start + depth cs = 0
  together : ∀ front, front ++ [','] <+: cs → start + depth front ≠ 0
  fits : ∀ front, front <+: cs → around + (start + depth front) < 2 ^ 31

section

variable {c : Char} {cs : List Char} {a k : Int}

@[simp] theorem depth_nil : depth [] = 0 := rfl

@[simp] theorem depth_cons (c : Char) (cs : List Char) : depth (c :: cs) = rise c + depth cs :=
  rfl

theorem isPiece_nil_iff : IsPiece a k [] ↔ k = 0 ∧ a < 2 ^ 31 := by
  constructor
  · intro piece
    have closed : k = 0 := by simpa using piece.closed
    exact ⟨closed, by simpa [closed] using piece.fits [] List.nil_prefix⟩
  · rintro ⟨rfl, fits⟩
    exact ⟨by simp, by simp, by simp, by simpa using fits⟩

theorem isPiece_cons_iff :
    IsPiece a k (c :: cs) ↔
      (0 ≤ k ∧ a + k < 2 ^ 31) ∧ (c = ',' → k ≠ 0) ∧ IsPiece a (k + rise c) cs := by
  constructor
  · intro piece
    have start : 0 ≤ k := by simpa using piece.guarded [] List.nil_prefix
    have fits : a + k < 2 ^ 31 := by simpa using piece.fits [] List.nil_prefix
    refine ⟨⟨start, fits⟩, ?_, ?_, ?_, ?_, ?_⟩
    · rintro rfl
      simpa using piece.together [] (by simp)
    · intro front isPrefix
      have bound := piece.guarded (c :: front) (by simpa using isPrefix)
      rw [depth_cons] at bound
      omega
    · have closed := piece.closed
      rw [depth_cons] at closed
      omega
    · intro front isPrefix
      have apart := piece.together (c :: front) (by simpa using isPrefix)
      rw [depth_cons] at apart
      omega
    · intro front isPrefix
      have bound := piece.fits (c :: front) (by simpa using isPrefix)
      rw [depth_cons] at bound
      omega
  · rintro ⟨⟨start, small⟩, comma, guarded, closed, together, fits⟩
    refine ⟨?_, ?_, ?_, ?_⟩
    · rintro (_ | ⟨d, front⟩) isPrefix
      · simpa using start
      · obtain ⟨rfl, shorter⟩ := List.cons_prefix_cons.mp isPrefix
        have bound := guarded front shorter
        rw [depth_cons]
        omega
    · rw [depth_cons]
      omega
    · rintro (_ | ⟨d, front⟩) isPrefix
      · obtain ⟨same, _⟩ := List.cons_prefix_cons.mp isPrefix
        simpa using comma same.symm
      · obtain ⟨rfl, shorter⟩ := List.cons_prefix_cons.mp isPrefix
        have apart := together front shorter
        rw [depth_cons]
        omega
    · rintro (_ | ⟨d, front⟩) isPrefix
      · simpa using small
      · obtain ⟨rfl, shorter⟩ := List.cons_prefix_cons.mp isPrefix
        have bound := fits front shorter
        rw [depth_cons]
        omega

theorem IsPiece.start_nonneg (piece : IsPiece a k cs) : 0 ≤ k := by
  simpa using piece.guarded [] List.nil_prefix

theorem IsPiece.start_fits (piece : IsPiece a k cs) : a + k < 2 ^ 31 := by
  simpa using piece.fits [] List.nil_prefix

theorem rise_of_opening (h : c = '[' ∨ c = '(') : rise c = 1 := if_pos h

theorem rise_of_closing (h : c = ']' ∨ c = ')') : rise c = -1 := by
  obtain rfl | rfl := h <;> rfl

theorem rise_of_plain (notOpening : ¬(c = '[' ∨ c = '(')) (notClosing : ¬(c = ']' ∨ c = ')')) :
    rise c = 0 := by
  rw [rise, if_neg notOpening, if_neg notClosing]

theorem rise_cases (c : Char) : rise c = 1 ∨ rise c = -1 ∨ rise c = 0 := by
  unfold rise
  split
  · exact .inl rfl
  · split
    · exact .inr (.inl rfl)
    · exact .inr (.inr rfl)

theorem depthAfter_eq_some_iff {d d' : Nat} (small : d < 2 ^ 31) :
    depthAfter d c = some d' ↔ (d' : Int) = d + rise c ∧ d' < 2 ^ 31 := by
  have limit : Nat.pow 2 31 = 2 ^ 31 := rfl
  unfold depthAfter
  by_cases opening : c = '[' ∨ c = '('
  · rw [rise_of_opening opening, if_pos (by simpa using opening), limit]
    split
    · rw [Option.some.injEq]
      omega
    · exact iff_of_false nofun (by omega)
  rw [if_neg (by simpa using opening)]
  by_cases closing : c = ']' ∨ c = ')'
  · rw [rise_of_closing closing, if_pos (by simpa using closing)]
    split
    · exact iff_of_false nofun (by omega)
    · rw [Option.some.injEq]
      omega
  · rw [rise_of_plain opening closing, if_neg (by simpa using closing), Option.some.injEq]
    omega

theorem depth_concat (cs : List Char) (c : Char) : depth (cs ++ [c]) = depth cs + rise c := by
  induction cs with
  | nil => rw [List.nil_append, depth_cons, depth_nil, Int.add_comm]
  | cons d cs ih => rw [List.cons_append, depth_cons, depth_cons, ih, Int.add_assoc]

theorem counted_eq (least : 0 ≤ a + depth cs) (small : a + depth cs < 2 ^ 31) :
    counted a cs = a + depth cs :=
  Int.bmod_eq_of_le (by omega) (by omega)

/-- A counter that never falls below its start has shown the depth itself all the time. One step can
lead out of its range at the upper end only, and from there to the least number. -/
theorem bounds_of_counted (start : 0 ≤ a ∧ a < 2 ^ 31)
    (guarded : ∀ front, front <+: cs → a ≤ counted a front) :
    ∀ front, front <+: cs → 0 ≤ depth front ∧ a + depth front < 2 ^ 31 := by
  intro front
  induction front using List.reverseRecOn with
  | nil => exact fun _ => ⟨Int.le_refl 0, by simpa using start.2⟩
  | append_singleton front c ih =>
    intro isPrefix
    obtain ⟨least, small⟩ := ih ((List.prefix_append front [c]).trans isPrefix)
    have next := guarded _ isPrefix
    rw [counted, depth_concat] at next
    rw [depth_concat]
    have moved := rise_cases c
    rcases Int.lt_or_le (a + (depth front + rise c)) (2 ^ 31) with inside | outside
    · rw [Int.bmod_eq_of_le (by omega) (by omega)] at next
      omega
    · have top : a + (depth front + rise c) = 2 ^ 31 := by omega
      have least : Int.bmod (2 ^ 31) (2 ^ 32) = -2 ^ 31 := by decide
      rw [top, least] at next
      omega

end

def ArePieces (start : Int) : List (List Char) → Prop
  | [] => False
  | part :: others => IsPiece 0 start part ∧ ∀ p ∈ others, IsPiece 0 0 p

theorem ArePieces.all {parts : List (List Char)} (pieces : ArePieces 0 parts) :
    ∀ p ∈ parts, IsPiece 0 0 p := by
  cases parts with
  | nil => exact pieces.elim
  | cons part others => exact List.forall_mem_cons.mpr pieces

theorem areAll_pieces {parts : List (List Char)} (nonempty : parts ≠ [])
    (all : ∀ p ∈ parts, IsPiece 0 0 p) : ArePieces 0 parts := by
  cases parts with
  | nil => exact absurd rfl nonempty
  | cons part others => exact List.forall_mem_cons.mp all

/-- A character that separates nothing belongs to the piece after it. -/
theorem ArePieces.cons {d d' : Nat} {c : Char} {part : List Char} {others : List (List Char)}
    (small : d < 2 ^ 31) (after : depthAfter d c = some d')
    (inner : ¬ (c == ',' && d' == 0) = true) (h : ArePieces d' (part :: others)) :
    ArePieces d ((c :: part) :: others) := by
  obtain ⟨rises, _⟩ := (depthAfter_eq_some_iff small).mp after
  refine ⟨isPiece_cons_iff.mpr ⟨by omega, ?_, rises ▸ h.1⟩, h.2⟩
  rintro rfl
  have same : (d' : Int) = d := by simpa [rise] using rises
  simp only [beq_self_eq_true, Bool.true_and, beq_iff_eq] at inner
  omega

theorem arePieces_of_pieces {d : Nat} {cs : List Char} {parts : List (List Char)}
    (small : d < 2 ^ 31) (h : pieces d cs = some parts) :
    ArePieces d parts ∧ [','].intercalate parts = cs := by
  fun_induction pieces d cs generalizing parts with
  | case1 =>
    cases h
    exact ⟨⟨isPiece_nil_iff.mpr ⟨rfl, by decide⟩, by simp⟩, rfl⟩
  | case2 d nonzero => cases h
  | case3 d c rest below => cases h
  | case4 d c rest d' after unsplit => cases h
  | case5 d c rest d' after parts' split comma ih =>
    cases h
    obtain ⟨rises, small'⟩ := (depthAfter_eq_some_iff small).mp after
    obtain ⟨areParts, text⟩ := ih small' split
    simp only [Bool.and_eq_true, beq_iff_eq] at comma
    obtain ⟨rfl, rfl⟩ := comma
    have start : (d : Int) = 0 := by simpa [rise] using rises.symm
    refine ⟨⟨isPiece_nil_iff.mpr ⟨start, by decide⟩, areParts.all⟩, ?_⟩
    cases parts' with
    | nil => exact areParts.elim
    | cons part others => rw [List.intercalate_cons_cons, text, List.nil_append, List.singleton_append]
  | case6 d c rest d' after comma none ih =>
    exact (ih ((depthAfter_eq_some_iff small).mp after).2 none).1.elim
  | case7 d c rest d' after comma part others split ih =>
    cases h
    obtain ⟨areParts, text⟩ := ih ((depthAfter_eq_some_iff small).mp after).2 split
    exact ⟨areParts.cons small after comma, by rw [List.intercalate_cons_cons_left, text]⟩

theorem pieces_of_arePieces {d : Nat} {cs : List Char} {parts : List (List Char)}
    (h : ArePieces d parts) (text : [','].intercalate parts = cs) : pieces d cs = some parts := by
  induction cs generalizing d parts with
  | nil =>
    rcases parts with _ | ⟨_ | ⟨c, part⟩, _ | ⟨next, others⟩⟩
    · exact h.elim
    · have zero := (isPiece_nil_iff.mp h.1).1
      rw [pieces, if_pos (by omega)]
    all_goals simp at text
  | cons c rest ih =>
    rcases parts with _ | ⟨_ | ⟨c', part⟩, others⟩
    · exact h.elim
    · -- An empty piece ends at the comma.
      obtain ⟨empty, others_pieces⟩ := h
      have zero : d = 0 := by exact_mod_cast (isPiece_nil_iff.mp empty).1
      subst zero
      cases others with
      | nil => simp at text
      | cons next others =>
        rw [List.intercalate_cons_cons, List.nil_append, List.singleton_append] at text
        cases text
        have further := ih (areAll_pieces (by simp) others_pieces) rfl
        have level : depthAfter 0 ',' = some 0 := rfl
        rw [pieces, level]
        dsimp only
        rw [further]
        rfl
    · obtain ⟨first, others_pieces⟩ := h
      rw [List.intercalate_cons_cons_left] at text
      cases text
      have small := first.start_fits
      obtain ⟨_, comma, inner⟩ := isPiece_cons_iff.mp first
      obtain ⟨d', after⟩ := Int.eq_ofNat_of_zero_le inner.start_nonneg
      rw [after] at inner
      have small' := inner.start_fits
      have next : depthAfter d c = some d' :=
        (depthAfter_eq_some_iff (by omega)).mpr ⟨after.symm, by omega⟩
      have notSplit : (c == ',' && d' == 0) = false := by
        rw [Bool.and_eq_false_iff, beq_eq_false_iff_ne, beq_eq_false_iff_ne]
        by_cases isComma : c = ','
        · subst isComma
          have nonzero := comma rfl
          have same : rise ',' = 0 := rfl
          exact .inr (by omega)
        · exact .inl isComma
      have areParts : ArePieces d' (part :: others) := ⟨inner, others_pieces⟩
      have further := ih areParts rfl
      rw [pieces, next]
      dsimp only
      rw [further, notSplit]
      rfl

/-- A text is split into these pieces exactly if it is these pieces with commas between. -/
theorem pieces_eq_some_iff {cs : List Char} {parts : List (List Char)} :
    pieces 0 cs = some parts ↔ ArePieces 0 parts ∧ [','].intercalate parts = cs :=
  ⟨arePieces_of_pieces (by decide), fun h => pieces_of_arePieces h.1 h.2⟩

end Reckoner.ListLiteral
