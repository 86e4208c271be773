import Mathlib.Tactic.ByContra
import Reckoner.Machine.Program
import Reckoner.Proofs.Result

/-! Which trees compile, and which node is blamed for one that does not. The nodes of a tree are
looked at in a fixed order, a call before its arguments and an operator after its operands. A tree
compiles when every node is sound, and else the first node that is not gives the error. -/
namespace Reckoner

namespace Builtin

theorem mem_named {name : String} {argc : Nat} {f : Builtin} :
    (argc, f) ∈ named name ↔ (name.toLower, argc, f) ∈ catalogue := by
  constructor
  · intro member
    obtain ⟨⟨key, row⟩, listed, same⟩ := List.mem_map.mp member
    obtain ⟨listed, matching⟩ := List.mem_filter.mp listed
    cases same
    rwa [← eq_of_beq matching]
  · intro listed
    exact List.mem_map.mpr ⟨_, List.mem_filter.mpr ⟨listed, beq_self_eq_true _⟩, rfl⟩

theorem not_mem_catalogue {name : String} (unknown : isName name = false) (argc : Nat)
    (f : Builtin) : (name.toLower, argc, f) ∉ catalogue := by
  intro listed
  have none : named name = [] := by simpa [isName] using unknown
  have member := mem_named.mpr listed
  rw [none] at member
  cases member

end Builtin

namespace Expr

variable {ν α β : Type}

mutual

/-- The nodes of a tree in the order in which they are looked at. -/
def visits : Expr ν → List (Expr ν)
  | .number x => [.number x]
  | .name s => [.name s]
  | .binary l sign r => l.visits ++ (r.visits ++ [.binary l sign r])
  | .unary sign e => e.visits ++ [.unary sign e]
  | .call s es => .call s es :: visitsAll es

def visitsAll : List (Expr ν) → List (Expr ν)
  | [] => []
  | e :: es => e.visits ++ visitsAll es

end

/-- Whether a node has a meaning, its children left aside. -/
def IsSound : Expr ν → Prop
  | .number _ => True
  | .name _ => False
  | .binary _ sign _ => sign ∈ ['+', '-', '*', '/', '^', '%']
  | .unary sign _ => sign ∈ ['-', '%', '!']
  | .call s es => ∃ f, (s.toLower, es.length, f) ∈ Builtin.catalogue

inductive Blames : Expr ν → Error → Prop
  | name (s : String) : Blames (.name s) (.unknownIdentifier s)
  | binary (l : Expr ν) {sign : Char} (r : Expr ν) : sign ∉ ['+', '-', '*', '/', '^', '%'] →
      Blames (.binary l sign r) (.read (.unknownBinary sign))
  | unary {sign : Char} (e : Expr ν) : sign ∉ ['-', '%', '!'] →
      Blames (.unary sign e) (.read (.unknownUnary sign))
  | function {s : String} (es : List (Expr ν)) : Builtin.isName s = false →
      Blames (.call s es) (.unknownFunction s)
  | arity {s : String} {es : List (Expr ν)} : Builtin.isName s = true →
      (∀ f, (s.toLower, es.length, f) ∉ Builtin.catalogue) →
      Blames (.call s es) (.arity s
        ((Builtin.catalogue.filter (·.1 == s.toLower)).map (·.2.1)) es.length)

theorem Blames.not_isSound {n : Expr ν} {error : Error} (blamed : n.Blames error) :
    ¬n.IsSound := by
  cases blamed with
  | name s => exact not_false
  | binary l r unknown => exact unknown
  | unary e unknown => exact unknown
  | function es unknown => exact fun ⟨f, listed⟩ => Builtin.not_mem_catalogue unknown _ f listed
  | arity known missing => exact fun ⟨f, listed⟩ => missing f listed

theorem Blames.unique {n : Expr ν} {error error' : Error} (blamed : n.Blames error)
    (blamed' : n.Blames error') : error = error' := by
  cases blamed with
  | name s => cases blamed'; rfl
  | binary l r unknown => cases blamed'; rfl
  | unary e unknown => cases blamed'; rfl
  | function es unknown =>
    cases blamed' with
    | function => rfl
    | arity known => cases unknown.symm.trans known
  | arity known missing =>
    cases blamed' with
    | function es unknown => cases unknown.symm.trans known
    | arity => rfl

def BlamesFirst (nodes : List (Expr ν)) (error : Error) : Prop :=
  ∃ before n after, nodes = before ++ n :: after ∧ (∀ m ∈ before, m.IsSound) ∧ n.Blames error

theorem BlamesFirst.unique {nodes : List (Expr ν)} {error error' : Error}
    (first : BlamesFirst nodes error) (first' : BlamesFirst nodes error') : error = error' := by
  obtain ⟨before, n, after, rfl, sound, blamed⟩ := first
  obtain ⟨before', n', after', same, sound', blamed'⟩ := first'
  -- If one place came before the other, its node would be among the sound ones.
  rcases List.append_eq_append_iff.mp same with ⟨more, rfl, rest⟩ | ⟨more, rfl, rest⟩
  · cases more with
    | nil => cases rest; exact blamed.unique blamed'
    | cons m more => cases rest; exact absurd (sound' n (by simp)) blamed.not_isSound
  · cases more with
    | nil => cases rest; exact blamed.unique blamed'
    | cons m more => cases rest; exact absurd (sound n' (by simp)) blamed'.not_isSound

/-- What a step of the compiler says about the nodes that it has looked at. -/
def Judges (nodes : List (Expr ν)) : Except Error α → Prop
  | .ok _ => ∀ n ∈ nodes, n.IsSound
  | .error error => BlamesFirst nodes error

theorem Judges.bind {nodes nodes' : List (Expr ν)} {x : Except Error α} {f : α → Except Error β}
    (first : Judges nodes x) (next : ∀ a, Judges nodes' (f a)) :
    Judges (nodes ++ nodes') (x >>= f) := by
  cases x with
  | error e =>
    obtain ⟨before, n, after, rfl, sound, blamed⟩ := first
    exact ⟨before, n, after ++ nodes', by simp, sound, blamed⟩
  | ok a =>
    rw [ok_bind]
    have second := next a
    cases result : f a with
    | ok b =>
      rw [result] at second
      exact List.forall_mem_append.mpr ⟨first, second⟩
    | error e =>
      rw [result] at second
      obtain ⟨before, n, after, rfl, sound, blamed⟩ := second
      exact ⟨nodes ++ before, n, after, by simp, List.forall_mem_append.mpr ⟨first, sound⟩, blamed⟩

theorem judges_nil (a : α) : Judges ([] : List (Expr ν)) (.ok a) := nofun

theorem judges_sound (n : Expr ν) (sound : n.IsSound) (a : α) : Judges [n] (.ok a) := by
  intro m member
  rwa [List.mem_singleton.mp member]

theorem judges_blamed {n : Expr ν} {error : Error} (blamed : n.Blames error) :
    Judges [n] (.error error : Except Error α) :=
  ⟨[], n, [], rfl, nofun, blamed⟩

theorem binary_eq_none_iff {sign : Char} :
    BinaryOp.ofSign? sign = none ↔ sign ∉ ['+', '-', '*', '/', '^', '%'] := by
  unfold BinaryOp.ofSign?
  split <;> simp_all

theorem unary_eq_none_iff {sign : Char} :
    UnaryOp.ofSign? sign = none ↔ sign ∉ ['-', '%', '!'] := by
  unfold UnaryOp.ofSign?
  split <;> simp_all

theorem judges_binary (l : Expr ν) (sign : Char) (r : Expr ν) (code : BinaryOp → α) :
    Judges [.binary l sign r] (match BinaryOp.ofSign? sign with
      | some op => .ok (code op)
      | none => .error (.read (.unknownBinary sign))) := by
  cases meaning : BinaryOp.ofSign? sign with
  | none => exact judges_blamed (.binary l r (binary_eq_none_iff.mp meaning))
  | some op =>
    have known : sign ∈ ['+', '-', '*', '/', '^', '%'] := by
      by_contra unknown
      cases meaning.symm.trans (binary_eq_none_iff.mpr unknown)
    exact judges_sound (.binary l sign r) known _

theorem judges_unary (sign : Char) (e : Expr ν) (code : UnaryOp → α) :
    Judges [.unary sign e] (match UnaryOp.ofSign? sign with
      | some op => .ok (code op)
      | none => .error (.read (.unknownUnary sign))) := by
  cases meaning : UnaryOp.ofSign? sign with
  | none => exact judges_blamed (.unary e (unary_eq_none_iff.mp meaning))
  | some op =>
    have known : sign ∈ ['-', '%', '!'] := by
      by_contra unknown
      cases meaning.symm.trans (unary_eq_none_iff.mpr unknown)
    exact judges_sound (.unary sign e) known _

theorem judges_find (s : String) (es : List (Expr ν)) :
    Judges [.call s es] (Builtin.find s es.length) := by
  unfold Builtin.find
  dsimp only
  split
  · rename_i empty
    exact judges_blamed (.function es (by simp [Builtin.isName, empty]))
  · rename_i listed
    cases found : (Builtin.named s).lookup es.length with
    | some f =>
      obtain ⟨before, after, rows, _⟩ := List.lookup_eq_some_iff.mp found
      exact judges_sound (.call s es) ⟨f, Builtin.mem_named.mp (by simp [rows])⟩ f
    | none =>
      have missing (f : Builtin) : (s.toLower, es.length, f) ∉ Builtin.catalogue := by
        intro listed
        have other := List.lookup_eq_none_iff.mp found _ (Builtin.mem_named.mpr listed)
        simp at other
      have arities : (Builtin.named s).map (·.1) =
          (Builtin.catalogue.filter (·.1 == s.toLower)).map (·.2.1) := by
        simp [Builtin.named]
      dsimp only
      rw [arities]
      exact judges_blamed (.arity (by simpa [Builtin.isName] using listed) missing)

mutual

theorem compile_judges : (e : Expr ν) → Judges e.visits e.compile
  | .number x => judges_sound (.number x) trivial _
  | .name s => judges_blamed (.name s)
  | .binary l sign r =>
    (compile_judges l).bind fun left => (compile_judges r).bind fun right =>
      judges_binary l sign r fun op => left ++ right ++ [.binary op]
  | .unary sign e =>
    (compile_judges e).bind fun code => judges_unary sign e fun op => code ++ [.unary op]
  | .call s es => by
    refine (judges_find s es).bind fun f => ?_
    rw [← List.append_nil (visitsAll es)]
    exact (compileAll_judges es).bind fun code => judges_nil _

theorem compileAll_judges : (es : List (Expr ν)) → Judges (visitsAll es) (compileAll es)
  | [] => judges_nil _
  | e :: es => by
    refine (compile_judges e).bind fun first => ?_
    rw [← List.append_nil (visitsAll es)]
    exact (compileAll_judges es).bind fun others => judges_nil _

end

/-- A tree compiles just when all its nodes are sound, and else the error is that of the first one
that is not. -/
theorem compile_blames_first (e : Expr ν) :
    ((∃ code, e.compile = .ok code) ↔ ∀ n ∈ e.visits, n.IsSound) ∧
      ∀ error, e.compile = .error error ↔
        ∃ before n after, e.visits = before ++ n :: after ∧ (∀ m ∈ before, m.IsSound) ∧
          n.Blames error := by
  have judged := compile_judges e
  cases result : e.compile with
  | ok code =>
    rw [result] at judged
    refine ⟨⟨fun _ => judged, fun _ => ⟨code, rfl⟩⟩, fun error => ⟨nofun, ?_⟩⟩
    rintro ⟨before, n, after, visited, _, blamed⟩
    exact absurd (judged n (by simp [visited])) blamed.not_isSound
  | error fault =>
    rw [result] at judged
    constructor
    · refine ⟨nofun, fun sound => ?_⟩
      obtain ⟨before, n, after, visited, _, blamed⟩ := judged
      exact absurd (sound n (by simp [visited])) blamed.not_isSound
    · intro error
      constructor
      · intro same
        cases same
        exact judged
      · intro first
        rw [judged.unique first]

/-- A call with too many arguments is blamed before the name among them. -/
example : (call "Sin" [.name "x", .number 1] : Expr Nat).compile = .error (.arity "Sin" [1] 2) := by
  cbv

/-- A name in an operand is blamed before the sign of the operator. -/
example : (binary (.number 1) '?' (.name "x") : Expr Nat).compile =
    .error (.unknownIdentifier "x") := by
  cbv

end Expr

end Reckoner
