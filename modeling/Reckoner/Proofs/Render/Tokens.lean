import Reckoner.Proofs.Binary.Unsigned
import Reckoner.Proofs.Display.Shortest
import Reckoner.Proofs.Render.Value

/-! A normalized expression as text, scanned again. Each token comes back as it was, since no text of
a token runs into the text after it, two stars in a row apart. -/
namespace Reckoner

open Binary (IsUnsigned)

/-- The digits written for a double are read back as that double. -/
theorem Decimal.readsBack_of_isUnsigned {x : Float} (unsigned : IsUnsigned x)
    (finite : x.isFinite = true) : ReadsBack x := by
  obtain ⟨v, decoded⟩ := Binary.decode_of_isFinite finite
  have sign := unsigned.decode decoded
  have digits : Binary.rounded (shortest v.mantissa v.exponent).toRat = Binary.value x := by
    rcases Nat.eq_zero_or_pos v.mantissa with zero | pos
    · simp [Binary.value_of_decode decoded, Binary.Exact.value, Binary.Exact.magnitude, zero, shortest,
        Scientific.toRat, Binary.rounded_zero]
    · have same := Display.rounded_shortest decoded pos
      rw [sign] at same
      exact same
  obtain ⟨y, read, rounding⟩ := literal_positional (shortest v.mantissa v.exponent)
  obtain ⟨finite', same⟩ := rounding.value_eq digits
  have back : y = x := (Binary.isUnsigned_literal read).eq_of_value_eq unsigned finite' finite same
  have written : plain x = (shortest v.mantissa v.exponent).positional := by
    rw [plain, write, decoded]
    dsimp only
    rw [sign]
    exact String.empty_append
  rw [ReadsBack, written, read_of_isLiteral (isLiteral_positional _), read, back]

section

variable {symbols : Symbols} {binding : Option (Binding Float)}

/-- A stored value is written for each name of it that the free variable does not take. -/
theorem Normal.number_mem_replaceNames {ts : List (Token Float)} {name : String} {x : Float}
    (member : .name name ∈ ts) (unbound : ∀ b ∈ binding, b.name ≠ name)
    (stored : symbols.value? name = some x) : .number x ∈ replaceNames id symbols binding ts := by
  fun_induction replaceNames id symbols binding ts with
  | case1 => cases member
  | case2 s rest ih =>
    rw [List.mem_append]
    rcases List.mem_cons.mp member with same | later
    · cases same
      refine .inl ?_
      have free : binding.filter (·.name == name) = none :=
        Option.filter_eq_none_iff.mpr fun b mem => by simpa using unbound b mem
      have here : replacement id symbols binding (isCalled rest) name = spelled id x := by
        rw [replacement, free]
        change replacement id symbols none (isCalled rest) name = _
        rw [replacement_unbound, stored]
      rw [here, spelled]
      split <;> simp [inParens]
    · exact .inr (ih later)
  | case3 y rest ih =>
    rcases List.mem_cons.mp member with same | later
    · cases same
    · exact .tail _ (ih later)
  | case4 m rest ih =>
    rcases List.mem_cons.mp member with same | later
    · cases same
    · exact .tail _ (ih later)

def AllUnsigned (ts : List (Token Float)) : Prop :=
  ∀ x, .number x ∈ ts → x.isFinite = true ∧ IsUnsigned x

theorem AllUnsigned.of_cons {t : Token Float} {ts : List (Token Float)}
    (h : AllUnsigned (t :: ts)) : AllUnsigned ts :=
  fun x member => h x (.tail t member)

theorem AllUnsigned.readable {ts : List (Token Float)} (h : AllUnsigned ts) : Readable ts :=
  fun x member => ⟨(h x member).1, Decimal.readsBack_of_isUnsigned (h x member).2 (h x member).1⟩

theorem AllUnsigned.enclosed {text : String} {policy : ParenPolicy} {n : Normal Float}
    (h : AllUnsigned n.tokens) (normal : normalize text symbols binding policy = .ok n) :
    Enclosed n.tokens := by
  refine enclosed_normal normal fun ts scanned name x member unbound stored => ?_
  obtain ⟨us, scanned', _, _, tokens⟩ := normalizeWith_ok normal
  cases scanned.symm.trans scanned'
  have kept : .number x ∈ n.tokens := by
    rw [tokens, List.mem_append]
    exact .inl (Normal.number_mem_replaceNames member unbound stored)
  exact (h x kept).2.not_isNegativeZero

end

section

variable {ts us : List (Token Float)}

theorem tokens_number_rendered {x : Float} (unsigned : IsUnsigned x) (finite : x.isFinite = true)
    (scanned : Scan.tokens (renderTokens ts).toList = .ok us) :
    Scan.tokens (renderTokens (.number x :: ts)).toList = .ok (.number x :: us) := by
  have back := Decimal.readsBack_of_isUnsigned unsigned finite
  obtain ⟨digits, y, literal, read, ⟨rfl, text⟩ | ⟨_, signed, _⟩⟩ := Token.number_text finite back
  · rw [renderTokens_cons, text, Scan.tokens_number literal read (breaks_textAfter rfl ts),
      tokens_textAfter, scanned]
    rfl
  · exact absurd unsigned signed

theorem tokens_name_rendered {s : String} (settled : IsSettled s)
    (scanned : Scan.tokens (renderTokens ts).toList = .ok us) :
    Scan.tokens (renderTokens (.name s :: ts)).toList = .ok (.name s :: us) := by
  rw [renderTokens_cons, Token.text, Scan.tokens_name settled.scanned (breaks_textAfter rfl ts),
    tokens_textAfter, scanned, String.ofList_toList]
  rfl

theorem tokens_star_rendered (single : (renderTokens ts).toList.head? ≠ some '*')
    (scanned : Scan.tokens (renderTokens ts).toList = .ok us) :
    Scan.tokens (renderTokens (.mark .star :: ts)).toList = .ok (.mark .star :: us) := by
  rw [renderTokens_cons]
  change Scan.tokens ('*' :: (renderTokens ts).toList) = _
  rw [Scan.tokens_star single, scanned]
  rfl

def StarsApart (ts : List (Token Float)) : Prop := ¬[.mark .star, .mark .star] <:+: ts

theorem StarsApart.of_cons {t : Token Float} (h : StarsApart (t :: ts)) : StarsApart ts :=
  fun within => h (within.trans (List.suffix_cons t ts).isInfix)

theorem StarsApart.head_ne (h : StarsApart (.mark .star :: ts)) (enclosed : Enclosed ts)
    (readable : Readable ts) : (renderTokens ts).toList.head? ≠ some '*' := by
  intro first
  obtain ⟨rest, rfl⟩ := renderTokens_star enclosed readable first
  exact h ⟨[], rest, rfl⟩

theorem tokens_rendered (enclosed : Enclosed ts) (unsigned : AllUnsigned ts)
    (apart : StarsApart ts) : Scan.tokens (renderTokens ts).toList = .ok ts := by
  induction enclosed with
  | nil => exact Scan.tokens_nil
  | @number x ts _ _ ih =>
    obtain ⟨finite, positive⟩ := unsigned x (.head _)
    exact tokens_number_rendered positive finite (ih unsigned.of_cons apart.of_cons)
  | name settled _ ih => exact tokens_name_rendered settled (ih unsigned.of_cons apart.of_cons)
  | @mark m ts enclosed ih =>
    have scanned := ih unsigned.of_cons apart.of_cons
    by_cases isStar : m = .star
    · subst isStar
      exact tokens_star_rendered (apart.head_ne enclosed unsigned.of_cons.readable) scanned
    · exact Rereads.tokens_mark isStar scanned
  | @group x ts _ ih =>
    obtain ⟨finite, positive⟩ := unsigned x (.tail _ (.head _))
    have scanned := ih unsigned.of_cons.of_cons.of_cons apart.of_cons.of_cons.of_cons
    have closed := Rereads.tokens_mark (m := .closing) (by decide) scanned
    exact Rereads.tokens_mark (by decide) (tokens_number_rendered positive finite closed)

end

/-- The text of a normalized expression is scanned back to its tokens, if its numbers are finite and
without a minus sign, and no two of its stars would be taken for a power sign. -/
theorem tokenize_text {text : String} {symbols : Symbols} {binding : Option (Binding Float)}
    {policy : ParenPolicy} {n : Normal Float}
    (normal : normalize text symbols binding policy = .ok n) (unsigned : AllUnsigned n.tokens)
    (apart : StarsApart n.tokens) : tokenize n.text = .ok n.tokens :=
  tokens_rendered (unsigned.enclosed normal) unsigned apart

def tripleSine : List (Token Float) :=
  [.number 3, .name "sin", .mark .opening, .number 0.5, .mark .closing]

theorem tokenize_text_tripleSine :
    normalize "3Sin(ANS" { lastAnswer := some 0.5 } none .repair = .ok ⟨tripleSine, 1⟩ ∧
      AllUnsigned tripleSine ∧ StarsApart tripleSine ∧ tokenize "3 sin(0.5)" = .ok tripleSine := by
  have scanned : tokenize "3Sin(ANS" =
      .ok [.number 3, .name "Sin", .mark .opening, .name "ANS"] := by decide +kernel
  have depth : Paren.depthAfter 0 (textParens "3Sin(ANS".toList) = some 1 := by decide +kernel
  have replaced : Normal.replaceNames id { lastAnswer := some 0.5 } none
      [.number 3, .name "Sin", .mark .opening, .name "ANS"] ++ [.mark .closing] =
        tripleSine := by decide +kernel
  have normal : normalize "3Sin(ANS" { lastAnswer := some 0.5 } none .repair =
      .ok ⟨tripleSine, 1⟩ := by
    rw [normalize, normalizeWith_eq, depth, scanned, ← replaced]
    rfl
  have unsigned : AllUnsigned tripleSine := by
    intro x member
    have number : x = 3 ∨ x = 0.5 := by simpa [tripleSine] using member
    rcases number with rfl | rfl <;>
      exact ⟨by decide +kernel, Binary.isUnsigned_ofScientific _ _ _⟩
  have apart : StarsApart tripleSine := by unfold StarsApart; decide +kernel
  have text : renderTokens tripleSine = "3 sin(0.5)" := by decide +kernel
  exact ⟨normal, unsigned, apart, text ▸ tokenize_text normal unsigned apart⟩

end Reckoner
