import Reckoner.Machine.Program
import Reckoner.Proofs.Parse.Ending

/-! How large a tree can be. Every node but one has a token of its own, or is a product between two
operands that stand side by side; so a phrase of some tokens has fewer than twice as many nodes. A
program has an instruction for each node. -/
namespace Reckoner

variable {ν : Type}

namespace Grammar

def Fits (ts : List (Token ν)) (nodes : Nat) (rest : List (Token ν)) : Prop :=
  nodes + 2 * rest.length < 2 * ts.length

section

variable {ts mid rest : List (Token ν)} {t : Token ν} {m n : Nat}

theorem Fits.single (t : Token ν) (rest : List (Token ν)) : Fits (t :: rest) 1 rest := by
  simp only [Fits, List.length_cons]
  omega

/-- A token before a phrase that is a node of its own. -/
theorem Fits.token (h : Fits ts n rest) : Fits (t :: ts) (n + 1) rest := by
  simp only [Fits, List.length_cons] at *
  omega

/-- A token before a phrase for which there is no node. -/
theorem Fits.idle (h : Fits ts n rest) : Fits (t :: ts) n rest := by
  simp only [Fits, List.length_cons] at *
  omega

/-- The token after a phrase pays for a node. -/
theorem Fits.mark (h : Fits ts n (t :: rest)) : Fits ts (n + 1) rest := by
  simp only [Fits, List.length_cons] at *
  omega

theorem Fits.pass (h : Fits ts n (t :: rest)) : Fits ts n rest := by
  simp only [Fits, List.length_cons] at *
  omega

/-- A node for two operands needs no token: what pays for it is the half that each of them leaves
over. -/
theorem Fits.pair (left : Fits ts m mid) (right : Fits mid n rest) :
    Fits ts (m + n + 1) rest := by
  simp only [Fits] at *
  omega

theorem Fits.list (first : Fits ts m mid) (others : Fits mid n rest) : Fits ts (m + n) rest := by
  simp only [Fits] at *
  omega

end

mutual

theorem IsSum.fits {ts rest : List (Token ν)} {e : Expr ν} :
    IsSum ts e rest → Fits ts e.size rest
  | .product h => h.fits
  | .plus before next | .minus before next => before.fits.pass.pair next.fits

theorem IsProduct.fits {ts rest : List (Token ν)} {e : Expr ν} :
    IsProduct ts e rest → Fits ts e.size rest
  | .signed h => h.fits
  | .star before next | .slash before next | .percent before _ next =>
    before.fits.pass.pair next.fits
  | .juxtaposed before _ next => before.fits.pair next.fits

theorem IsSigned.fits {ts rest : List (Token ν)} {e : Expr ν} :
    IsSigned ts e rest → Fits ts e.size rest
  | .minus h => h.fits.token
  | .plus h => h.fits.idle
  | .power h => h.fits

theorem IsPower.fits {ts rest : List (Token ν)} {e : Expr ν} :
    IsPower ts e rest → Fits ts e.size rest
  | .operand h => h.fits
  | .caret base exponent => base.fits.pass.pair exponent.fits

theorem IsOperand.fits {ts rest : List (Token ν)} {e : Expr ν} :
    IsOperand ts e rest → Fits ts e.size rest
  | .marked h _ => h.fits

theorem IsMarked.fits {ts rest : List (Token ν)} {e : Expr ν} :
    IsMarked ts e rest → Fits ts e.size rest
  | .atom h => h.fits
  | .bang h | .percent h _ => h.fits.mark

theorem IsAtom.fits {ts rest : List (Token ν)} {e : Expr ν} :
    IsAtom ts e rest → Fits ts e.size rest
  | .number | .name _ => .single _ _
  | .call h => h.fits.idle.idle
  | .group h => h.fits.pass.idle
  | .root h => h.fits.token

/-- The parenthesis at the end pays for the node of the call. -/
theorem IsArguments.fits {ts rest : List (Token ν)} {es : List (Expr ν)} :
    IsArguments ts es rest → Fits ts (Expr.sizeAll es + 1) rest
  | .none => .single _ _
  | .some h => h.fits.mark

theorem IsSums.fits {ts rest : List (Token ν)} {es : List (Expr ν)} :
    IsSums ts es rest → Fits ts (Expr.sizeAll es) rest
  | .one h => h.fits
  | .more h others => h.fits.pass.list others.fits

end

end Grammar

namespace Expr

mutual

theorem length_compile : (e : Expr ν) → {code : Program ν} → e.compile = .ok code →
    code.length = e.size
  | .number x, _, h => by
    cases h
    rfl
  | .name s, _, h => by cases h
  | .binary l sign r, _, h => by
    obtain ⟨left, hl, h⟩ := bind_eq_ok.mp h
    obtain ⟨right, hr, h⟩ := bind_eq_ok.mp h
    split at h <;> cases h
    rw [List.length_append, List.length_append, length_compile l hl, length_compile r hr]
    rfl
  | .unary sign e, _, h => by
    obtain ⟨operand, he, h⟩ := bind_eq_ok.mp h
    split at h <;> cases h
    rw [List.length_append, length_compile e he]
    rfl
  | .call s es, _, h => by
    obtain ⟨f, _, h⟩ := bind_eq_ok.mp h
    obtain ⟨arguments, hes, h⟩ := bind_eq_ok.mp h
    cases h
    rw [List.length_append, length_compileAll es hes]
    rfl

theorem length_compileAll : (es : List (Expr ν)) → {code : Program ν} → compileAll es = .ok code →
    code.length = sizeAll es
  | [], _, h => by
    cases h
    rfl
  | e :: es, _, h => by
    obtain ⟨first, he, h⟩ := bind_eq_ok.mp h
    obtain ⟨others, hes, h⟩ := bind_eq_ok.mp h
    cases h
    rw [List.length_append, length_compile e he, length_compileAll es hes]
    rfl

end

end Expr

theorem size_of_parse {ts : List (Token ν)} {e : Expr ν} (accepted : parse ts = .ok e) :
    e.size < 2 * ts.length :=
  (parse_eq_ok_iff_isSum.mp accepted).fits

/-- Reading ends, with calls nested no deeper than nine for a token. From every position each level
ends, at a later one if it has an answer, and never behind the last token. A tree has fewer nodes than
twice the tokens, and its program fewer instructions. -/
theorem parse_ends (ts : List (Token ν)) :
    (∀ n, 9 * ts.length + 6 < n → parseWithin n ts = some (parse ts)) ∧
      (∀ (level : Parse.Level) (p n : Nat), p ≤ ts.length →
        9 * (ts.length - p) + level.rank < n →
          ∃ p', p ≤ p' ∧ p' ≤ ts.length ∧
            ((p < p' ∧ level.leaves (ts.drop p) = .ok ((), ts.drop p') ∧
                (level.walk ts n).from? p = some (.ok (), p')) ∨
              ∃ f, level.leaves (ts.drop p) = .error f ∧
                (level.walk ts n).from? p = some (.error f, p'))) ∧
      ∀ e, parse ts = .ok e → e.size < 2 * ts.length ∧
        ∀ code, e.compile = .ok code → code.length < 2 * ts.length := by
  refine ⟨fun n room => parseWithin_eq room, fun level p n inside room => level.ends inside room,
    fun e accepted => ?_⟩
  have bound := size_of_parse accepted
  exact ⟨bound, fun code compiled => Expr.length_compile e compiled ▸ bound⟩

/-- No token is spare where operands stand side by side. -/
example : (parse [.number 1, .number 2, .number 3]).map Expr.size = .ok (2 * 3 - 1) := by
  cbv

end Reckoner
