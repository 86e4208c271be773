import Mathlib.Data.List.DropRight
import Reckoner.Text.Blank

/-! White space around a text. What trimming leaves is the one text without blanks at its ends that
gives the text back with blanks around it. -/
namespace Reckoner.Text

def Spaced (core text : List Char) : Prop :=
  ∃ before after, (∀ c ∈ before, isBlank c = true) ∧ (∀ c ∈ after, isBlank c = true) ∧
    text = before ++ (core ++ after)

structure IsTight (cs : List Char) : Prop where
  first : ∀ c ∈ cs.head?, isBlank c = false
  last : ∀ c ∈ cs.getLast?, isBlank c = false

theorem Spaced.refl (cs : List Char) : Spaced cs cs := ⟨[], [], by simp, by simp, by simp⟩

theorem Spaced.trans {cs ds es : List Char} (inner : Spaced cs ds) (outer : Spaced ds es) :
    Spaced cs es := by
  obtain ⟨a, b, blank_a, blank_b, rfl⟩ := inner
  obtain ⟨a', b', blank_a', blank_b', rfl⟩ := outer
  exact ⟨a' ++ a, b ++ b', List.forall_mem_append.mpr ⟨blank_a', blank_a⟩,
    List.forall_mem_append.mpr ⟨blank_b, blank_b'⟩, by simp⟩

theorem trimmed_eq (cs : List Char) :
    trimmed cs = (cs.dropWhile isBlank).rdropWhile isBlank := rfl

theorem spaced_trimmed (cs : List Char) : Spaced (trimmed cs) cs := by
  refine ⟨cs.takeWhile isBlank, (cs.dropWhile isBlank).rtakeWhile isBlank,
    fun c member => List.mem_takeWhile_imp member, fun c member => List.mem_rtakeWhile_imp member, ?_⟩
  rw [trimmed_eq, List.rdropWhile_append_rtakeWhile, List.takeWhile_append_dropWhile]

theorem isTight_trimmed (cs : List Char) : IsTight (trimmed cs) := by
  rw [trimmed_eq]
  constructor
  · intro c first
    obtain ⟨after, split⟩ := List.rdropWhile_prefix isBlank (cs.dropWhile isBlank)
    have head : (cs.dropWhile isBlank).head? = some c := by
      rw [← split, List.head?_append, first, Option.some_or]
    have notBlank := List.head?_dropWhile_not isBlank cs
    rw [head] at notBlank
    exact notBlank
  · intro c last
    obtain ⟨nonempty, same⟩ := List.mem_getLast?_eq_getLast last
    have notBlank := List.rdropWhile_last_not isBlank (cs.dropWhile isBlank) nonempty
    rw [← same] at notBlank
    exact Bool.eq_false_iff.mpr notBlank

theorem rdropWhile_append_of_blank {core after : List Char} (blank : ∀ c ∈ after, isBlank c = true) :
    (core ++ after).rdropWhile isBlank = core.rdropWhile isBlank := by
  rw [List.rdropWhile, List.reverse_append, List.dropWhile_append_of_pos, List.rdropWhile]
  exact fun c member => blank c (List.mem_reverse.mp member)

theorem trimmed_of_spaced {core cs : List Char} (tight : IsTight core) (spaced : Spaced core cs) :
    trimmed cs = core := by
  obtain ⟨before, after, blank_before, blank_after, rfl⟩ := spaced
  rw [trimmed_eq, List.dropWhile_append_of_pos blank_before]
  cases core with
  | nil => rw [List.nil_append, List.dropWhile_eq_nil_iff.mpr blank_after, List.rdropWhile_nil]
  | cons c core =>
    have starts := tight.first c rfl
    rw [List.cons_append, List.dropWhile_cons_of_neg (by simp [starts]), ← List.cons_append,
      rdropWhile_append_of_blank blank_after, List.rdropWhile_eq_self_iff]
    intro nonempty
    simp [tight.last _ (List.getLast_mem_getLast? nonempty)]

theorem trimmed_eq_iff {core cs : List Char} : trimmed cs = core ↔ IsTight core ∧ Spaced core cs := by
  constructor
  · rintro rfl
    exact ⟨isTight_trimmed cs, spaced_trimmed cs⟩
  · rintro ⟨tight, spaced⟩
    exact trimmed_of_spaced tight spaced

end Reckoner.Text
