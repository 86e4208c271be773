import Mathlib.Data.List.Basic
import Reckoner.Proofs.Machine.Blame
import Reckoner.Proofs.Machine.Simulation

/-! Programs read back as trees. A program is run on a stack of trees instead of numbers: what a
tree compiles to leaves that tree and nothing else, so a program comes from one tree only, up to the
spelling of the calls. The other way round, every program that finds its operands and leaves one
number is the code of a tree. -/
namespace Reckoner

variable {ν : Type}

inductive Resolved (ν : Type) where
  | number (value : ν)
  | name (text : String)
  | binary (left : Resolved ν) (sign : Char) (right : Resolved ν)
  | unary (sign : Char) (operand : Resolved ν)
  | call (function : Builtin) (arguments : List (Resolved ν))

namespace Expr

mutual

/-- Replaces every name of a call by its function. A call without one leaves nothing. -/
def resolved? : Expr ν → Option (Resolved ν)
  | .number x => some (.number x)
  | .name s => some (.name s)
  | .binary l sign r => do
    let left ← l.resolved?
    let right ← r.resolved?
    some (.binary left sign right)
  | .unary sign e => do
    let operand ← e.resolved?
    some (.unary sign operand)
  | .call s es => do
    let f ← (Builtin.find s es.length).toOption
    let arguments ← resolvedAll? es
    some (.call f arguments)

def resolvedAll? : List (Expr ν) → Option (List (Resolved ν))
  | [] => some []
  | e :: es => do
    let first ← e.resolved?
    let others ← resolvedAll? es
    some (first :: others)

end

end Expr

namespace Builtin

theorem find_of_mem_catalogue {name : String} {argc : Nat} {f : Builtin}
    (listed : (name, argc, f) ∈ catalogue) : find name argc = .ok f := by
  have all : ∀ row ∈ catalogue, find row.1 row.2.1 = .ok row.2.2 := by decide +kernel
  exact all _ listed

theorem mem_catalogue_of_find {name : String} {argc : Nat} {f : Builtin}
    (found : find name argc = .ok f) : (name.toLower, argc, f) ∈ catalogue := by
  unfold find at found
  dsimp only at found
  split at found
  · cases found
  split at found
  · rename_i row
    cases found
    obtain ⟨before, after, rows, _⟩ := List.lookup_eq_some_iff.mp row
    exact mem_named.mp (by simp [rows])
  · cases found

end Builtin

def BinaryOp.sign : BinaryOp → Char
  | .add => '+'
  | .sub => '-'
  | .mul => '*'
  | .div => '/'
  | .pow => '^'
  | .rem => '%'

def UnaryOp.sign : UnaryOp → Char
  | .neg => '-'
  | .percent => '%'
  | .factorial => '!'

theorem BinaryOp.ofSign_sign (op : BinaryOp) : ofSign? op.sign = some op := by
  cases op <;> rfl

theorem UnaryOp.ofSign_sign (op : UnaryOp) : ofSign? op.sign = some op := by
  cases op <;> rfl

theorem BinaryOp.sign_of_ofSign {sign : Char} {op : BinaryOp} (found : ofSign? sign = some op) :
    op.sign = sign := by
  unfold ofSign? at found
  split at found <;> cases found <;> rfl

theorem UnaryOp.sign_of_ofSign {sign : Char} {op : UnaryOp} (found : ofSign? sign = some op) :
    op.sign = sign := by
  unfold ofSign? at found
  split at found <;> cases found <;> rfl

namespace Opcode

def IsListed : Opcode ν → Prop
  | .call f argc => ∃ name, (name, argc, f) ∈ Builtin.catalogue
  | _ => True

def plant : Opcode ν → List (Resolved ν) → Option (List (Resolved ν))
  | .load x, stack => some (.number x :: stack)
  | .binary op, r :: l :: stack => some (.binary l op.sign r :: stack)
  | .unary op, e :: stack => some (.unary op.sign e :: stack)
  | .call f argc, stack =>
    if argc ≤ stack.length then some (.call f (stack.take argc).reverse :: stack.drop argc)
    else none
  | _, _ => none

theorem length_plant (op : Opcode ν) (stack : List (Resolved ν)) :
    (op.plant stack).map List.length =
      if op.operands ≤ stack.length then some (stack.length - op.operands + 1) else none := by
  cases op with
  | load x => simp [plant, operands]
  | binary op => rcases stack with _ | ⟨r, _ | ⟨l, stack⟩⟩ <;> simp [plant, operands]
  | unary op => cases stack <;> simp [plant, operands]
  | call f argc =>
    rw [plant, operands]
    split <;> simp

end Opcode

namespace Program

/-- The depth of the stack after a program that starts at some depth. Every instruction takes its
operands, which must be there, and leaves one number. -/
def depthAfter : Nat → Program ν → Option Nat
  | depth, [] => some depth
  | depth, op :: rest =>
    if op.operands ≤ depth then depthAfter (depth - op.operands + 1) rest else none

structure WellFormed (p : Program ν) : Prop where
  listed : ∀ f argc, .call f argc ∈ p → ∃ name, (name, argc, f) ∈ Builtin.catalogue
  depth : p.depthAfter 0 = some 1

def trees : Program ν → List (Resolved ν) → Option (List (Resolved ν))
  | [], stack => some stack
  | op :: rest, stack => (op.plant stack).bind (trees rest)

theorem trees_append (p q : Program ν) (stack : List (Resolved ν)) :
    trees (p ++ q) stack = (trees p stack).bind (trees q) := by
  induction p generalizing stack with
  | nil => rfl
  | cons op p ih =>
    rw [List.cons_append, trees, trees, Option.bind_assoc]
    exact congrArg _ (funext ih)

theorem depthAfter_eq_length (p : Program ν) (stack : List (Resolved ν)) :
    depthAfter stack.length p = (trees p stack).map List.length := by
  induction p generalizing stack with
  | nil => rfl
  | cons op p ih =>
    have length := op.length_plant stack
    rw [depthAfter, trees]
    cases planted : op.plant stack with
    | none =>
      rw [planted] at length
      split at length
      · cases length
      · rename_i lacking
        rw [if_neg lacking]
        rfl
    | some stack' =>
      rw [planted] at length
      split at length
      · rename_i fed
        rw [if_pos fed, ← Option.some.inj length]
        exact ih stack'
      · cases length

structure Plants (p : Program ν) (ts : List (Resolved ν)) : Prop where
  trees_eq : ∀ stack, trees p stack = some (ts.reverse ++ stack)
  listed : ∀ op ∈ p, op.IsListed

namespace Plants

variable {p q : Program ν} {ts us : List (Resolved ν)}

theorem nil : Plants ([] : Program ν) [] := ⟨fun _ => rfl, nofun⟩

theorem load (x : ν) : Plants [.load x] [.number x] :=
  ⟨fun _ => rfl, fun op member => by rw [List.mem_singleton.mp member]; trivial⟩

theorem append (hp : Plants p ts) (hq : Plants q us) : Plants (p ++ q) (ts ++ us) where
  trees_eq stack := by
    rw [trees_append, hp.trees_eq, Option.bind_some, hq.trees_eq, List.reverse_append,
      List.append_assoc]
  listed := List.forall_mem_append.mpr ⟨hp.listed, hq.listed⟩

theorem then_plant {op : Opcode ν} {t : Resolved ν} (hp : Plants p ts) (listed : op.IsListed)
    (planted : ∀ stack, op.plant (ts.reverse ++ stack) = some (t :: stack)) :
    Plants (p ++ [op]) [t] where
  trees_eq stack := by
    rw [trees_append, hp.trees_eq, Option.bind_some, trees, planted]
    rfl
  listed := by
    refine List.forall_mem_append.mpr ⟨hp.listed, fun last member => ?_⟩
    rwa [List.mem_singleton.mp member]

theorem wellFormed {t : Resolved ν} (hp : Plants p [t]) : p.WellFormed where
  listed f argc member := hp.listed _ member
  depth := by
    have length := depthAfter_eq_length p []
    rwa [hp.trees_eq] at length

/-- What a program leaves on the empty stack is one list of trees. -/
theorem unique (hp : Plants p ts) (hp' : Plants p us) : ts = us := by
  have same := (hp.trees_eq []).symm.trans (hp'.trees_eq [])
  simpa using same

end Plants

end Program

namespace Expr

open Program

mutual

theorem compile_plants : (e : Expr ν) → {code : Program ν} → e.compile = .ok code →
    ∃ t, e.resolved? = some t ∧ Plants code [t]
  | .number x, _, h => by
    cases h
    exact ⟨.number x, rfl, .load x⟩
  | .name _, _, h => by cases h
  | .binary l sign r, _, h => by
    simp only [compile, bind_eq_ok] at h
    obtain ⟨left, hl, right, hr, h⟩ := h
    obtain ⟨t, ht, pt⟩ := compile_plants l hl
    obtain ⟨u, hu, pu⟩ := compile_plants r hr
    split at h
    · rename_i op found
      cases h
      refine ⟨.binary t sign u, by simp [resolved?, ht, hu], (pt.append pu).then_plant trivial ?_⟩
      intro stack
      rw [← BinaryOp.sign_of_ofSign found]
      rfl
    · cases h
  | .unary sign e, _, h => by
    simp only [compile, bind_eq_ok] at h
    obtain ⟨inner, he, h⟩ := h
    obtain ⟨t, ht, pt⟩ := compile_plants e he
    split at h
    · rename_i op found
      cases h
      refine ⟨.unary sign t, by simp [resolved?, ht], pt.then_plant trivial ?_⟩
      intro stack
      rw [← UnaryOp.sign_of_ofSign found]
      rfl
    · cases h
  | .call s es, _, h => by
    simp only [compile, bind_eq_ok] at h
    obtain ⟨f, found, inner, hes, h⟩ := h
    cases h
    obtain ⟨ts, hts, count, pts⟩ := compileAll_plants es hes
    refine ⟨.call f ts, by simp [resolved?, hts, found, Except.toOption], pts.then_plant
      ⟨_, Builtin.mem_catalogue_of_find found⟩ ?_⟩
    intro stack
    simp [Opcode.plant, ← count]

theorem compileAll_plants : (es : List (Expr ν)) → {code : Program ν} →
    compileAll es = .ok code →
      ∃ ts, resolvedAll? es = some ts ∧ ts.length = es.length ∧ Plants code ts
  | [], _, h => by
    cases h
    exact ⟨[], rfl, rfl, .nil⟩
  | e :: es, _, h => by
    simp only [compileAll, bind_eq_ok] at h
    obtain ⟨first, he, others, hes, h⟩ := h
    cases h
    obtain ⟨t, ht, pt⟩ := compile_plants e he
    obtain ⟨ts, hts, count, pts⟩ := compileAll_plants es hes
    exact ⟨t :: ts, by simp [resolvedAll?, ht, hts], by simp [count], pt.append pts⟩

end

theorem compileAll_singleton {e : Expr ν} {code : Program ν} :
    compileAll [e] = .ok code ↔ e.compile = .ok code := by
  simp [compileAll, bind_eq_ok]

theorem compileAll_append {es fs : List (Expr ν)} {code : Program ν} :
    compileAll (es ++ fs) = .ok code ↔
      ∃ left right, compileAll es = .ok left ∧ compileAll fs = .ok right ∧
        left ++ right = code := by
  induction es generalizing code with
  | nil => simp [compileAll]
  | cons e es ih =>
    simp only [List.cons_append, compileAll, bind_eq_ok, ih, Except.ok.injEq]
    constructor
    · rintro ⟨first, he, _, ⟨left, right, hes, hfs, rfl⟩, rfl⟩
      exact ⟨first ++ left, right, ⟨first, he, left, hes, rfl⟩, hfs, List.append_assoc ..⟩
    · rintro ⟨_, right, ⟨first, he, left, hes, rfl⟩, hfs, rfl⟩
      exact ⟨first, he, left ++ right, ⟨left, right, hes, hfs, rfl⟩, (List.append_assoc ..).symm⟩

/-- An instruction after the code of its operands is the code of a tree. -/
theorem exists_compile_node {op : Opcode ν} (listed : op.IsListed) {es : List (Expr ν)}
    (count : es.length = op.operands) {code : Program ν} (compiled : compileAll es = .ok code) :
    ∃ e : Expr ν, e.compile = .ok (code ++ [op]) := by
  cases op with
  | load x =>
    rw [List.length_eq_zero_iff.mp count] at compiled
    cases compiled
    exact ⟨.number x, rfl⟩
  | binary op =>
    obtain ⟨l, r, rfl⟩ := List.length_eq_two.mp count
    rw [← List.singleton_append, compileAll_append] at compiled
    obtain ⟨left, right, hl, hr, rfl⟩ := compiled
    rw [compileAll_singleton] at hl hr
    exact ⟨.binary l op.sign r, by simp [compile, hl, hr, BinaryOp.ofSign_sign]⟩
  | unary op =>
    obtain ⟨e, rfl⟩ := List.length_eq_one_iff.mp count
    have he := compileAll_singleton.mp compiled
    exact ⟨.unary op.sign e, by simp [compile, he, UnaryOp.ofSign_sign]⟩
  | call f argc =>
    obtain ⟨name, row⟩ := listed
    have argc_eq : es.length = argc := count
    have found := Builtin.find_of_mem_catalogue row
    rw [← argc_eq] at found ⊢
    exact ⟨.call name es, by simp [compile, found, compiled]⟩

/-- The trees on the stack, the last one first, with one instruction more. -/
theorem exists_compile_step {op : Opcode ν} (listed : op.IsListed) {es : List (Expr ν)}
    (fed : op.operands ≤ es.length) {code : Program ν}
    (compiled : compileAll es.reverse = .ok code) :
    ∃ fs : List (Expr ν), fs.length = es.length - op.operands + 1 ∧
      compileAll fs.reverse = .ok (code ++ [op]) := by
  -- The operands are on top, so they are the trees that were compiled last.
  have parts : es.reverse = (es.drop op.operands).reverse ++ (es.take op.operands).reverse := by
    rw [← List.reverse_append, List.take_append_drop]
  rw [parts, compileAll_append] at compiled
  obtain ⟨below, taken, hbelow, htaken, rfl⟩ := compiled
  have count : (es.take op.operands).reverse.length = op.operands := by
    rw [List.length_reverse, List.length_take_of_le fed]
  obtain ⟨e, he⟩ := exists_compile_node listed count htaken
  refine ⟨e :: es.drop op.operands, by rw [List.length_cons, List.length_drop], ?_⟩
  rw [List.reverse_cons, compileAll_append]
  refine ⟨below, taken ++ [op], hbelow, by simp [compileAll, he], ?_⟩
  rw [List.append_assoc]

/-- A run of a program that finds its operands, followed by trees. -/
theorem exists_compile_run {p : Program ν} (listed : ∀ op ∈ p, op.IsListed) {es : List (Expr ν)}
    {code : Program ν} (compiled : compileAll es.reverse = .ok code) {n : Nat}
    (depth : p.depthAfter es.length = some n) :
    ∃ fs : List (Expr ν), fs.length = n ∧ compileAll fs.reverse = .ok (code ++ p) := by
  induction p generalizing es code with
  | nil =>
    cases depth
    exact ⟨es, rfl, by rwa [List.append_nil]⟩
  | cons op p ih =>
    rw [depthAfter] at depth
    split at depth
    · rename_i fed
      obtain ⟨gs, count, compiled'⟩ := exists_compile_step (listed op (.head _)) fed compiled
      rw [← count] at depth
      have others : ∀ op ∈ p, op.IsListed := fun op member => listed op (.tail _ member)
      obtain ⟨fs, length, result⟩ := ih others compiled' depth
      exact ⟨fs, length, by rw [result, List.append_assoc, List.singleton_append]⟩
    · cases depth

theorem exists_compile_of_wellFormed {p : Program ν} (wellFormed : p.WellFormed) :
    ∃ e : Expr ν, e.compile = .ok p := by
  have listed : ∀ op ∈ p, op.IsListed := by
    intro op member
    cases op with
    | call f argc => exact wellFormed.listed f argc member
    | load | binary | unary => trivial
  have start : compileAll ([] : List (Expr ν)).reverse = .ok [] := rfl
  obtain ⟨es, count, compiled⟩ := exists_compile_run listed start wellFormed.depth
  obtain ⟨e, rfl⟩ := List.length_eq_one_iff.mp count
  exact ⟨e, compileAll_singleton.mp compiled⟩

/-- The programs that trees compile to are the well-formed ones. Two trees with the same program
are the same tree, once every name of a call is replaced by its function. -/
theorem compile_uniquely_readable (p : Program ν) :
    ((∃ e : Expr ν, e.compile = .ok p) ↔ p.WellFormed) ∧
      ∀ e e' : Expr ν, e.compile = .ok p → e'.compile = .ok p →
        ∃ t, e.resolved? = some t ∧ e'.resolved? = some t := by
  refine ⟨⟨?_, exists_compile_of_wellFormed⟩, fun e e' compiled compiled' => ?_⟩
  · rintro ⟨e, compiled⟩
    obtain ⟨t, _, plants⟩ := compile_plants e compiled
    exact plants.wellFormed
  · obtain ⟨t, resolved, plants⟩ := compile_plants e compiled
    obtain ⟨t', resolved', plants'⟩ := compile_plants e' compiled'
    cases plants.unique plants'
    exact ⟨t, resolved, resolved'⟩

def arrangements (name : String) : Expr Float := .unary '-' (.call name [.number 5, .number 2])

def arrangementsCode : Program Float := [.load 5, .load 2, .call .perm 2, .unary .neg]

theorem compile_uniquely_readable_arrangements :
    (arrangements "nPr").compile = .ok arrangementsCode ∧
      (arrangements "perm").compile = .ok arrangementsCode ∧ arrangementsCode.WellFormed ∧
      ∃ t, (arrangements "nPr").resolved? = some t ∧ (arrangements "perm").resolved? = some t := by
  have nPr : (arrangements "nPr").compile = .ok arrangementsCode := by decide +kernel
  have perm : (arrangements "perm").compile = .ok arrangementsCode := by decide +kernel
  obtain ⟨compiled, unique⟩ := compile_uniquely_readable arrangementsCode
  exact ⟨nPr, perm, compiled.mp ⟨_, nPr⟩, unique _ _ nPr perm⟩

end Expr

end Reckoner
