import Mathlib.Data.List.Forall2
import Reckoner.Proofs.ListLiteral.Piece
import Reckoner.Proofs.Result
import Reckoner.Proofs.Text.Trimmed

/-! List literals, written and split. A literal of elements is split into these elements, with any
white space around them, and a nested literal into its rows. Nothing else is split: what comes out are
elements, and the text was a literal of them. -/
namespace Reckoner.ListLiteral

open Text (Spaced IsTight isBlank)

/-- An element of a list, inside of some brackets: some text without blanks at its ends. The running
depth, a number of 32 bits, goes on from those brackets. It never falls below them, it is back there at
the end, and no comma stands there. -/
structure IsElement (around : Int) (cs : List Char) : Prop where
  nonempty : cs ≠ []
  tight : IsTight cs
  guarded : ∀ front, front <+: cs → around ≤ counted around front
  closed : counted around cs = around
  together : ∀ front, front ++ [','] <+: cs → counted around front ≠ around

def Bracketed (texts : List (List Char)) (text : List Char) : Prop :=
  Spaced ('[' :: ([','].intercalate texts ++ [']'])) text

/-- A literal of some elements, with white space around each. -/
def WritesVector (es : List String) (text : List Char) : Prop :=
  ∃ texts, List.Forall₂ (fun e t => Spaced e.toList t) es texts ∧ Bracketed texts text

section

variable {cs core text inner : List Char} {c : Char} {a j k : Int}

/-- As long as the counter is large enough an element closes the brackets that it opens, no others, and
has its commas inside brackets. -/
theorem isElement_iff_of_fits (start : 0 ≤ a)
    (fits : ∀ front, front <+: cs → a + depth front < 2 ^ 31) :
    IsElement a cs ↔ cs ≠ [] ∧ IsTight cs ∧ (∀ front, front <+: cs → 0 ≤ depth front) ∧
      depth cs = 0 ∧ ∀ front, front ++ [','] <+: cs → depth front ≠ 0 := by
  have small : a < 2 ^ 31 := by simpa using fits [] List.nil_prefix
  have shown {front : List Char} (isPrefix : front <+: cs) (least : 0 ≤ depth front) :
      counted a front = a + depth front := counted_eq (by omega) (fits front isPrefix)
  constructor
  · rintro ⟨nonempty, tight, guarded, closed, together⟩
    have bounds := bounds_of_counted ⟨start, small⟩ guarded
    refine ⟨nonempty, tight, fun front isPrefix => (bounds front isPrefix).1, ?_, ?_⟩
    · rw [shown (List.prefix_refl cs) (bounds cs (List.prefix_refl cs)).1] at closed
      omega
    · intro front isPrefix
      have shorter := (List.prefix_append front [',']).trans isPrefix
      have apart := together front isPrefix
      rw [shown shorter (bounds front shorter).1] at apart
      omega
  · rintro ⟨nonempty, tight, guarded, closed, together⟩
    refine ⟨nonempty, tight, fun front isPrefix => ?_, ?_, fun front isPrefix => ?_⟩
    · have least := guarded front isPrefix
      rw [shown isPrefix least]
      omega
    · rw [shown (List.prefix_refl cs) (by omega)]
      omega
    · have shorter := (List.prefix_append front [',']).trans isPrefix
      have apart := together front isPrefix
      rw [shown shorter (guarded front shorter)]
      omega

theorem isElement_iff (start : 0 ≤ a ∧ a < 2 ^ 31) :
    IsElement a cs ↔ cs ≠ [] ∧ IsTight cs ∧ IsPiece a 0 cs := by
  constructor
  · intro element
    have bounds := bounds_of_counted start element.guarded
    have plain := (isElement_iff_of_fits start.1 fun front isPrefix => (bounds front isPrefix).2).mp
      element
    obtain ⟨nonempty, tight, guarded, closed, together⟩ := plain
    exact ⟨nonempty, tight, by simpa using guarded, by simpa using closed, by simpa using together,
      by simpa using fun front isPrefix => (bounds front isPrefix).2⟩
  · rintro ⟨nonempty, tight, guarded, closed, together, fits⟩
    exact (isElement_iff_of_fits start.1 (by simpa using fits)).mpr
      ⟨nonempty, tight, by simpa using guarded, by simpa using closed, by simpa using together⟩

/-! White space has no brackets and no comma. -/

theorem rise_of_isBlank (blank : isBlank c = true) : rise c = 0 := by
  refine rise_of_plain ?_ ?_
  · rintro (rfl | rfl) <;> cases blank
  · rintro (rfl | rfl) <;> cases blank

theorem isPiece_blank_cons_iff (blank : isBlank c = true) :
    IsPiece a k (c :: cs) ↔ IsPiece a k cs := by
  rw [isPiece_cons_iff, rise_of_isBlank blank, Int.add_zero]
  constructor
  · exact fun h => h.2.2
  · intro piece
    refine ⟨⟨piece.start_nonneg, piece.start_fits⟩, ?_, piece⟩
    rintro rfl
    cases blank

theorem isPiece_blanks_append_iff (cs : List Char) {before : List Char}
    (blank : ∀ c ∈ before, isBlank c = true) : IsPiece a k (before ++ cs) ↔ IsPiece a k cs := by
  induction before with
  | nil => rfl
  | cons c before ih =>
    rw [List.forall_mem_cons] at blank
    rw [List.cons_append, isPiece_blank_cons_iff blank.1, ih blank.2]

theorem isPiece_append_blanks_iff {after : List Char} (blank : ∀ c ∈ after, isBlank c = true) :
    IsPiece a k (cs ++ after) ↔ IsPiece a k cs := by
  induction cs generalizing k with
  | nil => simpa using isPiece_blanks_append_iff [] blank
  | cons c cs ih => rw [List.cons_append, isPiece_cons_iff, isPiece_cons_iff, ih]

theorem isPiece_iff_of_spaced (spaced : Spaced core text) :
    IsPiece a k text ↔ IsPiece a k core := by
  obtain ⟨before, after, blank_before, blank_after, rfl⟩ := spaced
  rw [isPiece_blanks_append_iff _ blank_before, isPiece_append_blanks_iff blank_after]

theorem forall_isPiece_iff_of_spaced {parts texts : List (List Char)}
    (around : List.Forall₂ Spaced parts texts) :
    (∀ t ∈ texts, IsPiece a k t) ↔ ∀ p ∈ parts, IsPiece a k p := by
  induction around with
  | nil => exact iff_of_true nofun nofun
  | cons spaced _ ih =>
    rw [List.forall_mem_cons, List.forall_mem_cons, isPiece_iff_of_spaced spaced, ih]

/-! Inside a further bracket a piece separates nothing. -/

theorem IsPiece.around_le (piece : IsPiece a j cs) {a' : Int} (le : a' ≤ a) : IsPiece a' j cs where
  guarded := piece.guarded
  closed := piece.closed
  together := piece.together
  fits front isPrefix := by
    have fits := piece.fits front isPrefix
    omega

theorem IsPiece.inside_iff (piece : IsPiece 0 j cs) (positive : 0 < k) (rest : List Char) :
    IsPiece 0 (j + k) (cs ++ rest) ↔ IsPiece k j cs ∧ IsPiece 0 k rest := by
  induction cs generalizing j with
  | nil =>
    rw [(isPiece_nil_iff.mp piece).1, isPiece_nil_iff, Int.zero_add, List.nil_append]
    constructor
    · intro h
      have fits := h.start_fits
      exact ⟨⟨rfl, by omega⟩, h⟩
    · exact fun h => h.2
  | cons c cs ih =>
    obtain ⟨⟨start, _⟩, comma, piece⟩ := isPiece_cons_iff.mp piece
    have shifted : j + k + rise c = j + rise c + k := by omega
    rw [List.cons_append, isPiece_cons_iff, isPiece_cons_iff, shifted, ih piece]
    constructor
    · rintro ⟨⟨_, fits⟩, _, inner, outer⟩
      exact ⟨⟨⟨start, by omega⟩, comma, inner⟩, outer⟩
    · rintro ⟨⟨⟨_, fits⟩, _, inner⟩, outer⟩
      exact ⟨⟨by omega, by omega⟩, fun _ => by omega, inner, outer⟩

theorem isPiece_intercalate_iff {parts : List (List Char)} (pieces : ∀ p ∈ parts, IsPiece 0 0 p)
    (positive : 0 < k) {rest : List Char} :
    IsPiece 0 k ([','].intercalate parts ++ rest) ↔
      (∀ p ∈ parts, IsPiece k 0 p) ∧ IsPiece 0 k rest := by
  induction parts with
  | nil => exact ⟨fun h => ⟨nofun, h⟩, fun h => h.2⟩
  | cons part others ih =>
    obtain ⟨first, further⟩ := List.forall_mem_cons.mp pieces
    have inside := first.inside_iff positive
    rw [Int.zero_add] at inside
    rw [List.forall_mem_cons, and_assoc]
    cases others with
    | nil => simpa using inside rest
    | cons next others =>
      have comma : IsPiece 0 k (',' :: ([','].intercalate (next :: others) ++ rest)) ↔
          IsPiece 0 k ([','].intercalate (next :: others) ++ rest) := by
        have level : rise ',' = 0 := rfl
        rw [isPiece_cons_iff, level, Int.add_zero]
        exact ⟨fun h => h.2.2, fun h => ⟨⟨h.start_nonneg, h.start_fits⟩, fun _ => by omega, h⟩⟩
      have text : [','].intercalate (part :: next :: others) ++ rest =
          part ++ ',' :: ([','].intercalate (next :: others) ++ rest) := by simp
      rw [text, inside, comma, ih further]

theorem isTight_bracketed (inner : List Char) : IsTight ('[' :: (inner ++ [']'])) := by
  constructor
  · rintro c ⟨⟩
    rfl
  · intro c last
    rw [← List.cons_append, List.getLast?_concat] at last
    cases last
    rfl

theorem isPiece_bracketed_iff {parts : List (List Char)} (pieces : ∀ p ∈ parts, IsPiece 0 0 p) :
    IsPiece 0 0 ('[' :: ([','].intercalate parts ++ [']'])) ↔ ∀ p ∈ parts, IsPiece 1 0 p := by
  have opening : 0 + rise '[' = 1 := rfl
  have closing : IsPiece 0 1 [']'] :=
    isPiece_cons_iff.mpr ⟨by decide, by simp, isPiece_nil_iff.mpr (by decide)⟩
  rw [isPiece_cons_iff, opening, isPiece_intercalate_iff pieces Int.one_pos]
  exact ⟨fun h => h.2.2.1, fun h => ⟨by decide, by simp, h, closing⟩⟩

/-! The depths at which elements are read: in a vector outside of all brackets, in a matrix inside of
those of a row. -/

theorem isElement_zero_iff : IsElement 0 cs ↔ cs ≠ [] ∧ IsTight cs ∧ IsPiece 0 0 cs :=
  isElement_iff (by decide)

theorem isElement_one_iff : IsElement 1 cs ↔ cs ≠ [] ∧ IsTight cs ∧ IsPiece 1 0 cs :=
  isElement_iff (by decide)

theorem IsElement.outermost (element : IsElement 1 cs) : IsElement 0 cs := by
  obtain ⟨nonempty, tight, piece⟩ := isElement_one_iff.mp element
  exact isElement_zero_iff.mpr ⟨nonempty, tight, piece.around_le (by decide)⟩

end

/-! What is split, and into what. -/

section

variable {ε α β : Type} {text inner : List Char}

theorem stripBrackets_eq_ok_iff : stripBrackets text = .ok inner ↔ text = '[' :: (inner ++ [']']) := by
  constructor
  · intro h
    unfold stripBrackets at h
    split at h
    · split at h
      · rename_i rest last
        cases h
        rw [List.dropLast_append_getLast? _ last]
      · cases h
    · cases h
  · rintro rfl
    simp [stripBrackets]

theorem trimmed_texts {parts texts : List (List Char)} (all : ∀ p ∈ parts, IsElement 0 p)
    (around : List.Forall₂ Spaced parts texts) : texts.map Text.trimmed = parts := by
  induction around with
  | nil => rfl
  | cons spaced _ ih =>
    obtain ⟨first, further⟩ := List.forall_mem_cons.mp all
    rw [List.map_cons, Text.trimmed_of_spaced first.tight spaced, ih further]

theorem elements_of_texts {parts texts : List (List Char)} (nonempty : parts ≠ [])
    (all : ∀ p ∈ parts, IsElement 0 p) (around : List.Forall₂ Spaced parts texts) :
    elements ([','].intercalate texts) = .ok parts := by
  have same := trimmed_texts all around
  have areParts := (forall_isPiece_iff_of_spaced around).mpr fun p member =>
    (isElement_zero_iff.mp (all p member)).2.2
  have texts_nonempty : texts ≠ [] := by
    rintro rfl
    exact nonempty same.symm
  have split : pieces 0 ([','].intercalate texts) = some texts :=
    pieces_eq_some_iff.mpr ⟨areAll_pieces texts_nonempty areParts, rfl⟩
  have filled : parts.any List.isEmpty = false := by
    rw [List.any_eq_false]
    exact fun p member => by simpa using (all p member).nonempty
  rw [elements, split]
  dsimp only
  rw [same, filled]
  rfl

theorem elements_eq_ok_iff {parts : List (List Char)} :
    elements text = .ok parts ↔
      parts ≠ [] ∧ (∀ p ∈ parts, IsElement 0 p) ∧
        ∃ texts, List.Forall₂ Spaced parts texts ∧ [','].intercalate texts = text := by
  constructor
  · intro h
    unfold elements at h
    split at h
    · cases h
    rename_i texts split
    dsimp only at h
    split at h
    · cases h
    rename_i filled
    cases h
    obtain ⟨areParts, text_eq⟩ := pieces_eq_some_iff.mp split
    rw [Bool.not_eq_true, List.any_eq_false] at filled
    refine ⟨?_, ?_, texts, ?_, text_eq⟩
    · cases texts with
      | nil => exact areParts.elim
      | cons t texts => exact List.cons_ne_nil _ _
    · rw [List.forall_mem_map]
      intro t member
      have nonempty := filled _ (List.mem_map_of_mem member)
      have piece := (isPiece_iff_of_spaced (Text.spaced_trimmed t)).mp (areParts.all t member)
      exact isElement_zero_iff.mpr ⟨by simpa using nonempty, Text.isTight_trimmed t, piece⟩
    · exact List.forall₂_map_left_iff.mpr (List.forall₂_same.mpr fun t _ => Text.spaced_trimmed t)
  · rintro ⟨nonempty, all, texts, around, rfl⟩
    exact elements_of_texts nonempty all around

/-- The elements of a text in brackets, the first step for a vector and for a matrix. -/
theorem bracketed_eq_ok_iff {parts : List (List Char)} :
    (stripBrackets (Text.trimmed text) >>= elements) = .ok parts ↔
      parts ≠ [] ∧ (∀ p ∈ parts, IsElement 0 p) ∧
        ∃ texts, List.Forall₂ Spaced parts texts ∧ Bracketed texts text := by
  simp only [bind_eq_ok, stripBrackets_eq_ok_iff, Text.trimmed_eq_iff, elements_eq_ok_iff]
  constructor
  · rintro ⟨inner, ⟨_, spaced⟩, nonempty, all, texts, around, rfl⟩
    exact ⟨nonempty, all, texts, around, spaced⟩
  · rintro ⟨nonempty, all, texts, around, spaced⟩
    exact ⟨_, ⟨isTight_bracketed _, spaced⟩, nonempty, all, texts, around, rfl⟩

theorem row_eq_ok_iff {es : List String} :
    row text = .ok es ↔
      es ≠ [] ∧ (∀ e ∈ es, IsElement 0 e.toList) ∧ WritesVector es text := by
  have steps : row text =
      (stripBrackets (Text.trimmed text) >>= elements) >>= fun parts => .ok (parts.map String.ofList) := by
    rw [row, bind_assoc]
  rw [steps, bind_eq_ok]
  simp only [bracketed_eq_ok_iff, Except.ok.injEq]
  constructor
  · rintro ⟨parts, ⟨nonempty, all, texts, around, bracketed⟩, rfl⟩
    refine ⟨?_, ?_, texts, ?_, bracketed⟩
    · simpa using nonempty
    · simpa using all
    · rw [List.forall₂_map_left_iff]
      simpa only [String.toList_ofList] using around
  · rintro ⟨nonempty, all, texts, around, bracketed⟩
    refine ⟨es.map String.toList, ⟨?_, ?_, texts, ?_, bracketed⟩, ?_⟩
    · simpa using nonempty
    · simpa using all
    · exact List.forall₂_map_left_iff.mpr around
    · simp

theorem WritesVector.spaced {es : List String} {t : List Char} (writes : WritesVector es text)
    (spaced : Spaced text t) : WritesVector es t := by
  obtain ⟨texts, around, bracketed⟩ := writes
  exact ⟨texts, around, bracketed.trans spaced⟩

/-- The literal in a row's text is an element, and it is split into the row. -/
theorem WritesVector.element {es : List String} (writes : WritesVector es text) (nonempty : es ≠ [])
    (all : ∀ e ∈ es, IsElement 1 e.toList) :
    ∃ p, IsElement 0 p ∧ Spaced p text ∧ row p = .ok es := by
  obtain ⟨texts, around, bracketed⟩ := writes
  have outermost : ∀ e ∈ es, IsElement 0 e.toList := fun e member => (all e member).outermost
  have pieces : ∀ t ∈ texts, IsPiece 1 0 t := by
    rw [forall_isPiece_iff_of_spaced (List.forall₂_map_left_iff.mpr around), List.forall_mem_map]
    exact fun e member => (isElement_one_iff.mp (all e member)).2.2
  have bracket := (isPiece_bracketed_iff fun t member => (pieces t member).around_le (by decide)).mpr
    pieces
  exact ⟨_, isElement_zero_iff.mpr ⟨List.cons_ne_nil _ _, isTight_bracketed _, bracket⟩, bracketed,
    row_eq_ok_iff.mpr ⟨nonempty, outermost, texts, around, .refl _⟩⟩

end

/-! Rejoining what was split. -/

/-- Commas inside brackets of any kind stay, and so do blanks inside an element. -/
example : splitMatrix " [[1, root(8,3)],[ [2, (3)] , a b]] " =
    .ok [["1", "root(8,3)"], ["[2, (3)]", "a b"]] := by
  decide +kernel

end Reckoner.ListLiteral
