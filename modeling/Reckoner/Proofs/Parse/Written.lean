import Reckoner.Proofs.Parse.Context

/-! Trees written out as tokens, with parentheses around every operand, and read again. A phrase
that is written out ends before a comma, before a closing parenthesis and at the end of all tokens,
so the parts of a tree are read one by one and nothing of one part goes into the next. -/
namespace Reckoner

open Grammar Parse

variable {ν : Type}

def BinaryOp.mark : BinaryOp → Mark
  | .add => .plus
  | .sub => .minus
  | .mul => .star
  | .div => .slash
  | .pow => .caret
  | .rem => .percent

namespace Expr

mutual

def Meaningful : Expr ν → Prop
  | .number _ | .name _ => True
  | .binary l sign r => (BinaryOp.ofSign? sign).isSome ∧ l.Meaningful ∧ r.Meaningful
  | .unary sign e => (UnaryOp.ofSign? sign).isSome ∧ e.Meaningful
  | .call _ es => AllMeaningful es

def AllMeaningful : List (Expr ν) → Prop
  | [] => True
  | e :: es => e.Meaningful ∧ AllMeaningful es

end

mutual

/-- The tokens of a tree. A minus stands before its operand and the other unary signs after it. A
sign that means nothing has no token. -/
def written : Expr ν → List (Token ν)
  | .number x => [.number x]
  | .name s => [.name s]
  | .binary l sign r =>
    parenthesized l.written ++
      ((BinaryOp.ofSign? sign).toList.map (.mark ·.mark) ++ parenthesized r.written)
  | .unary sign e =>
    match UnaryOp.ofSign? sign with
    | some .neg => .mark .minus :: parenthesized e.written
    | some .percent => parenthesized e.written ++ [.mark .percent]
    | some .factorial => parenthesized e.written ++ [.mark .bang]
    | none => parenthesized e.written
  | .call s es => .name s :: .mark .opening :: (writtenAll es ++ [.mark .closing])

def writtenAll : List (Expr ν) → List (Token ν)
  | [] => []
  | e :: es => e.written ++ writtenFurther es

def writtenFurther : List (Expr ν) → List (Token ν)
  | [] => []
  | e :: es => .mark .comma :: (e.written ++ writtenFurther es)

end

end Expr

namespace Grammar

/-- Where a phrase that is written out comes to its end. -/
inductive Ends : List (Token ν) → Prop where
  | nil : Ends []
  | comma (ts : List (Token ν)) : Ends (.mark .comma :: ts)
  | closing (ts : List (Token ν)) : Ends (.mark .closing :: ts)

section

variable {ts rest : List (Token ν)} {e l r : Expr ν}

theorem Ends.noMark (ends : Ends rest) : markFollows rest = false := by
  cases ends <;> rfl

theorem Ends.notOpening (ends : Ends rest) : opens rest = false := by
  cases ends <;> rfl

theorem isSum_atom (atom : IsAtom ts e rest) (ends : Ends rest) : IsSum ts e rest :=
  (atom.isPower ends.noMark).isSum

def Writes (ts : List (Token ν)) (e : Expr ν) : Prop :=
  ∀ rest, Ends rest → IsSum (ts ++ rest) e rest

theorem Writes.group (h : Writes ts e) (k : List (Token ν)) :
    IsAtom (parenthesized ts ++ k) e k := by
  have inner := h (.mark .closing :: k) (.closing k)
  simpa [parenthesized] using IsAtom.group inner

theorem Writes.operand (h : Writes ts e) {k : List (Token ν)} (noMark : markFollows k = false) :
    IsOperand (parenthesized ts ++ k) e k :=
  .marked (.atom (h.group k)) noMark

theorem Writes.signed (h : Writes ts e) {k : List (Token ν)} (noMark : markFollows k = false) :
    IsSigned (parenthesized ts ++ k) e k :=
  .power (.operand (h.operand noMark))

theorem startsOperand_parenthesized (ts k : List (Token ν)) :
    startsOperand (parenthesized ts ++ k) = true := rfl

theorem Writes.binary {us : List (Token ν)} {sign : Char} {op : BinaryOp} (left : Writes ts l)
    (right : Writes us r) (known : BinaryOp.ofSign? sign = some op) :
    Writes (parenthesized ts ++ .mark op.mark :: parenthesized us) (.binary l sign r) := by
  intro rest ends
  rw [List.append_assoc, List.cons_append]
  have operator {m : Mark} (noMark : markFollows (.mark m :: (parenthesized us ++ rest)) = false) :=
    left.signed noMark
  have next := right.signed ends.noMark
  unfold BinaryOp.ofSign? at known
  split at known <;> cases known
  · exact .plus (.product (.signed (operator rfl))) (.signed next)
  · exact .minus (.product (.signed (operator rfl))) (.signed next)
  · exact .product (.star (.signed (operator rfl)) next)
  · exact .product (.slash (.signed (operator rfl)) next)
  · exact IsPower.isSum (.caret (left.operand rfl) next)
  · -- The parenthesis of the right operand makes the sign a remainder and not a mark.
    have starts := startsOperand_parenthesized us rest
    exact .product (.percent (.signed (operator rfl)) starts next)

theorem Writes.minus (h : Writes ts e) :
    Writes (.mark .minus :: parenthesized ts) (.unary '-' e) := by
  intro rest ends
  exact .product (.signed (.minus (h.signed ends.noMark)))

theorem Writes.bang (h : Writes ts e) :
    Writes (parenthesized ts ++ [.mark .bang]) (.unary '!' e) := by
  intro rest ends
  have operand := h.group (.mark .bang :: rest)
  have marked := IsMarked.bang (.atom operand)
  rw [List.append_assoc]
  exact IsPower.isSum (.operand (.marked marked ends.noMark))

theorem Writes.percent (h : Writes ts e) :
    Writes (parenthesized ts ++ [.mark .percent]) (.unary '%' e) := by
  intro rest ends
  have noOperand : startsOperand rest = false := by
    cases ends <;> rfl
  have operand := h.group (.mark .percent :: rest)
  have marked := IsMarked.percent (.atom operand) noOperand
  rw [List.append_assoc]
  exact IsPower.isSum (.operand (.marked marked ends.noMark))

theorem Writes.unary {sign : Char} (h : Writes e.written e)
    (known : (UnaryOp.ofSign? sign).isSome) :
    Writes (Expr.unary sign e).written (.unary sign e) := by
  rw [Expr.written]
  unfold UnaryOp.ofSign? at known ⊢
  split at known
  · exact h.minus
  · exact h.percent
  · exact h.bang
  · cases known

theorem Writes.call (s : String) {es : List (Expr ν)}
    (h : ∀ rest, IsArguments (ts ++ .mark .closing :: rest) es rest) :
    Writes (.name s :: .mark .opening :: (ts ++ [.mark .closing])) (.call s es) := by
  intro rest ends
  have arguments := IsAtom.call (s := s) (h rest)
  have atom : IsAtom (.name s :: .mark .opening :: (ts ++ [.mark .closing]) ++ rest)
      (.call s es) rest := by
    simpa using arguments
  exact isSum_atom atom ends

end

mutual

theorem writes_written : (e : Expr ν) → e.Meaningful → Writes e.written e
  | .number x, _ => fun _ ends => isSum_atom .number ends
  | .name s, _ => fun _ ends => isSum_atom (.name ends.notOpening) ends
  | .binary l sign r, ⟨known, left, right⟩ => by
    obtain ⟨op, known⟩ := Option.isSome_iff_exists.mp known
    have both := (writes_written l left).binary (writes_written r right) known
    simpa [Expr.written, known] using both
  | .unary sign e, ⟨known, operand⟩ => (writes_written e operand).unary known
  | .call s es, arguments => .call s (isArguments_written es arguments)

theorem isArguments_written : (es : List (Expr ν)) → Expr.AllMeaningful es →
    ∀ rest, IsArguments (Expr.writtenAll es ++ .mark .closing :: rest) es rest
  | [], _, _ => .none
  | e :: es, ⟨first, others⟩, rest => by
    rw [Expr.writtenAll, List.append_assoc]
    exact .some (isSums_written e es (writes_written e first) others rest)

theorem isSums_written (e : Expr ν) : (es : List (Expr ν)) → Writes e.written e →
    Expr.AllMeaningful es → ∀ rest,
      IsSums (e.written ++ (Expr.writtenFurther es ++ .mark .closing :: rest)) (e :: es)
        (.mark .closing :: rest)
  | [], first, _, rest => .one (first _ (.closing rest))
  | e' :: es, first, ⟨next, others⟩, rest => by
    have further := isSums_written e' es (writes_written e' next) others rest
    rw [Expr.writtenFurther, List.cons_append, List.append_assoc]
    exact .more (first _ (.comma _)) further

end

end Grammar

/-- A tree is read back from its tokens, whatever its shape. -/
theorem parse_written (e : Expr ν) (meaningful : e.Meaningful) : parse e.written = .ok e := by
  have isSum := writes_written e meaningful [] .nil
  rw [List.append_nil] at isSum
  exact parse_eq_ok_iff_isSum.mpr isSum

def percentRemainder : Expr Nat :=
  .call "f" [.binary (.unary '%' (.number 50)) '%' (.unary '-' (.name "x")), .call "g" []]

theorem parse_written_percentRemainder :
    percentRemainder.Meaningful ∧
      parse [.name "f", .mark .opening, .mark .opening, .mark .opening, .number 50, .mark .closing,
        .mark .percent, .mark .closing, .mark .percent, .mark .opening, .mark .minus,
        .mark .opening, .name "x", .mark .closing, .mark .closing, .mark .comma, .name "g",
        .mark .opening, .mark .closing, .mark .closing] = .ok percentRemainder := by
  have meaningful : percentRemainder.Meaningful :=
    ⟨⟨rfl, ⟨rfl, trivial⟩, rfl, trivial⟩, trivial, trivial⟩
  exact ⟨meaningful, parse_written percentRemainder meaningful⟩

end Reckoner
