import Mathlib.Algebra.Group.Nat.Defs
import Reckoner.Settings.Load

/-! Settings that are read from an object. Every field is the one that is given, or else the default,
and what is written is read back, whole or in part. -/
namespace Reckoner

class LawfulNamed (α : Type) [Named α] : Prop where
  all (a : α) : a ∈ Named.values
  injective {a b : α} : Named.name a = Named.name b → a = b

instance : LawfulNamed AngleMode where
  all a := by cases a <;> decide
  injective {a b} same := by cases a <;> cases b <;> first | rfl | exact absurd same (by decide)

instance : LawfulNamed DisplayMode where
  all a := by cases a <;> decide
  injective {a b} same := by cases a <;> cases b <;> first | rfl | exact absurd same (by decide)

instance : LawfulNamed ParenPolicy where
  all a := by cases a <;> decide
  injective {a b} same := by cases a <;> cases b <;> first | rfl | exact absurd same (by decide)

instance : LawfulNamed TaylorScheme where
  all a := by cases a <;> decide
  injective {a b} same := by cases a <;> cases b <;> first | rfl | exact absurd same (by decide)

namespace Document

inductive IsName {α : Type} [Named α] (a : α) : Document → Prop
  | text : IsName a (.text (Named.name a))
  | key : IsName a (.record [(Named.name a, .null)])

inductive IsCount (n : Nat) : Document → Prop
  | integer (short : n < 2 ^ 64) : IsCount n (.integer n)

/-- Whether a document is a number, an integer being rounded to a double. -/
inductive IsNumber : Float → Document → Prop
  | integer (n : Int) : IsNumber (Binary.ofInt n) (.integer n)
  | decimal (x : Float) : IsNumber x (.decimal x)

def IsObject (fields : List (String × Document)) : Prop := (fields.map Prod.fst).Nodup

/-- Whether a value is the one that is given for a key, or the default where none is given. -/
def Given {α : Type} (fields : List (String × Document)) (key : String)
    (reads : α → Document → Prop) (default value : α) : Prop :=
  (∃ d, (key, d) ∈ fields ∧ reads value d) ∨ (∀ d, (key, d) ∉ fields) ∧ value = default

/-- Whether two objects have the same entries for some keys, whatever their order and their other
keys. -/
def SameFor (keys : List String) (fields fields' : List (String × Document)) : Prop :=
  ∀ key ∈ keys, ∀ d, (key, d) ∈ fields ↔ (key, d) ∈ fields'

def restrict (kept : String → Bool) : Document → Document
  | .record fields => .record (fields.filter fun e => kept e.1)
  | d => d

/-- A record with the keys that are kept, and the records in it with those that are kept inside. -/
def prune (kept inner : String → Bool) : Document → Document
  | .record fields =>
    .record ((fields.map fun e => (e.1, e.2.restrict inner)).filter fun e => kept e.1)
  | d => d

section

variable {α : Type} {a default : α} {read : Document → Option α} {d : Document}
  {fields fields' : List (String × Document)} {key : String}

theorem find_name_eq_some_iff [Named α] [LawfulNamed α] {s : String} :
    Named.values.find? (Named.name (α := α) · == s) = some a ↔ Named.name a = s := by
  constructor
  · intro found
    simpa using List.find?_some found
  · rintro rfl
    cases found : Named.values.find? (Named.name (α := α) · == Named.name a) with
    | none => exact absurd (List.find?_eq_none.mp found a (LawfulNamed.all a)) (by simp)
    | some b =>
      have same : Named.name b = Named.name a := by simpa using List.find?_some found
      rw [LawfulNamed.injective same]

theorem named_eq_some_iff [Named α] [LawfulNamed α] : d.named? = some a ↔ IsName a d := by
  constructor
  · intro read
    unfold named? at read
    split at read
    · exact find_name_eq_some_iff.mp read ▸ .text
    · exact find_name_eq_some_iff.mp read ▸ .key
    · cases read
  · rintro (_ | _)
    · exact find_name_eq_some_iff.mpr rfl
    · exact find_name_eq_some_iff.mpr rfl

theorem count_integer {n : Nat} (short : n < 2 ^ 64) : count? (.integer n) = some n := by
  have range : 0 ≤ (n : Int) ∧ (n : Int) < Int.pow 2 64 := by
    change 0 ≤ (n : Int) ∧ (n : Int) < 18446744073709551616
    omega
  rw [count?, if_pos range]
  rfl

theorem count_eq_some_iff {n : Nat} : d.count? = some n ↔ IsCount n d := by
  constructor
  · intro read
    unfold count? at read
    split at read
    · split at read
      · rename_i range
        obtain ⟨n, rfl⟩ := Int.eq_ofNat_of_zero_le range.1
        cases read
        have short : (n : Int) < 18446744073709551616 := range.2
        exact .integer (by omega)
      · cases read
    · cases read
  · rintro ⟨short⟩
    exact count_integer short

theorem number_eq_some_iff {x : Float} : d.number? = some x ↔ IsNumber x d := by
  constructor
  · intro read
    unfold number? at read
    split at read
    · cases read
      exact .integer _
    · cases read
      exact .decimal _
    · cases read
  · rintro (_ | _) <;> rfl

theorem IsObject.lookup_eq_some_iff (object : IsObject fields) :
    fields.lookup key = some d ↔ (key, d) ∈ fields := by
  rw [List.lookup_eq_some_iff]
  constructor
  · rintro ⟨before, after, rfl, _⟩
    simp
  · intro member
    obtain ⟨before, after, rfl⟩ := List.append_of_mem member
    refine ⟨before, after, rfl, fun p first => ?_⟩
    rw [IsObject, List.map_append, List.nodup_append] at object
    have different := object.2.2 p.1 (List.mem_map_of_mem first) key (by simp)
    rw [bne_iff_ne]
    exact different.symm

theorem lookup_eq_none_iff : fields.lookup key = none ↔ ∀ d, (key, d) ∉ fields := by
  rw [List.lookup_eq_none_iff]
  constructor
  · intro absent d member
    simpa using absent _ member
  · intro absent p member
    rw [bne_iff_ne]
    rintro rfl
    exact absent p.2 member

theorem field_of_lookup (h : fields.lookup key = some d) :
    field? fields key read default = read d := by
  rw [field?, h]

theorem field_eq_some_iff {reads : α → Document → Prop} (object : IsObject fields)
    (h : ∀ d, (key, d) ∈ fields → (read d = some a ↔ reads a d)) :
    field? fields key read default = some a ↔ Given fields key reads default a := by
  unfold field?
  cases found : fields.lookup key with
  | none =>
    have absent := lookup_eq_none_iff.mp found
    constructor
    · rintro ⟨⟩
      exact .inr ⟨absent, rfl⟩
    · rintro (⟨d, member, _⟩ | ⟨_, rfl⟩)
      · exact absurd member (absent d)
      · rfl
  | some d =>
    have member := object.lookup_eq_some_iff.mp found
    constructor
    · exact fun read => .inl ⟨d, member, (h d member).mp read⟩
    · rintro (⟨d', member', reads⟩ | ⟨absent, _⟩)
      · cases found.symm.trans (object.lookup_eq_some_iff.mpr member')
        exact (h d member).mpr reads
      · exact absurd member (absent d)

theorem field_number_eq_some_iff {x default : Float} (object : IsObject fields) :
    field? fields key number? default = some x ↔ Given fields key IsNumber default x :=
  field_eq_some_iff object fun _ _ => number_eq_some_iff

theorem field_count_eq_some_iff {n default : Nat} (object : IsObject fields) :
    field? fields key count? default = some n ↔ Given fields key IsCount default n :=
  field_eq_some_iff object fun _ _ => count_eq_some_iff

theorem field_named_eq_some_iff [Named α] [LawfulNamed α] (object : IsObject fields) :
    field? fields key named? default = some a ↔ Given fields key IsName default a :=
  field_eq_some_iff object fun _ _ => named_eq_some_iff

theorem count_lt_of_field {n default : Nat} (h : field? fields key count? default = some n)
    (short : default < 2 ^ 64) : n < 2 ^ 64 := by
  unfold field? at h
  split at h
  · obtain ⟨bound⟩ := count_eq_some_iff.mp h
    exact bound
  · cases h
    exact short

theorem field_congr (object : IsObject fields) (object' : IsObject fields')
    (same : ∀ d, (key, d) ∈ fields ↔ (key, d) ∈ fields') :
    field? fields key read default = field? fields' key read default := by
  have entry : fields.lookup key = fields'.lookup key := by
    ext d
    rw [object.lookup_eq_some_iff, object'.lookup_eq_some_iff]
    exact same d
  rw [field?, field?, entry]

theorem lookup_filter (kept : String → Bool) (fields : List (String × Document)) (key : String) :
    (fields.filter fun e => kept e.1).lookup key =
      if kept key then fields.lookup key else none := by
  induction fields with
  | nil => simp
  | cons e rest ih =>
    obtain ⟨k, d⟩ := e
    rw [List.filter_cons, List.lookup_cons]
    cases same : key == k with
    | true =>
      obtain rfl := eq_of_beq same
      cases keep : kept key with
      | true => rw [if_pos rfl, if_pos rfl, List.lookup_cons, same]
      | false =>
        rw [keep] at ih
        exact ih
    | false =>
      cases kept k with
      | true =>
        rw [if_pos rfl, List.lookup_cons, same]
        exact ih
      | false => exact ih

/-- A key that is dropped has the default, and the others are read as before. -/
theorem field_filter (kept : String → Bool) (h : field? fields key read default = some a) :
    field? (fields.filter fun e => kept e.1) key read default =
      some (if kept key then a else default) := by
  unfold field? at h ⊢
  rw [lookup_filter]
  cases kept key with
  | true => exact h
  | false => rfl

end

end Document

open Document

namespace CalculusSettings

/-- Whether the settings are the defaults with the fields that are given in their place. -/
structure Overrides (fields : List (String × Document)) (s : CalculusSettings) : Prop where
  derivativeStep : Given fields "derivative_step" IsNumber 1e-4 s.derivativeStep
  integrationIntervals : Given fields "integration_intervals" IsCount 1000 s.integrationIntervals
  scanStep : Given fields "scan_step" IsNumber 0.1 s.scanStep
  taylorTerms : Given fields "taylor_terms" IsCount 6 s.taylorTerms
  taylorScheme : Given fields "taylor_scheme" IsName .repeatedFirstDifference s.taylorScheme

def IsRead (s : CalculusSettings) (d : Document) : Prop :=
  ∃ fields, d = .record fields ∧ IsObject fields ∧ s.Overrides fields

def keep (kept : String → Bool) (s : CalculusSettings) : CalculusSettings where
  derivativeStep := if kept "derivative_step" then s.derivativeStep else 1e-4
  integrationIntervals := if kept "integration_intervals" then s.integrationIntervals else 1000
  scanStep := if kept "scan_step" then s.scanStep else 0.1
  taylorTerms := if kept "taylor_terms" then s.taylorTerms else 6
  taylorScheme := if kept "taylor_scheme" then s.taylorScheme else .repeatedFirstDifference

section

variable {s : CalculusSettings} {d : Document} {fields fields' : List (String × Document)}

theorem load_record_iff (object : IsObject fields) :
    load (.record fields) = some s ↔ s.Overrides fields := by
  simp only [load, entries?, Option.bind_eq_bind, Option.bind_some, Option.bind_eq_some_iff,
    field_number_eq_some_iff object, field_count_eq_some_iff object,
    field_named_eq_some_iff object]
  constructor
  · rintro ⟨_, derivativeStep, _, intervals, _, scanStep, _, terms, _, scheme, ⟨⟩⟩
    exact ⟨derivativeStep, intervals, scanStep, terms, scheme⟩
  · intro h
    exact ⟨_, h.derivativeStep, _, h.integrationIntervals, _, h.scanStep, _, h.taylorTerms, _,
      h.taylorScheme, rfl⟩

theorem load_congr (object : IsObject fields) (object' : IsObject fields')
    (same : SameFor keys fields fields') : load (.record fields) = load (.record fields') := by
  simp only [load, entries?, Option.bind_eq_bind, Option.bind_some]
  rw [field_congr object object' (same "derivative_step" (by decide)),
    field_congr object object' (same "integration_intervals" (by decide)),
    field_congr object object' (same "scan_step" (by decide)),
    field_congr object object' (same "taylor_terms" (by decide)),
    field_congr object object' (same "taylor_scheme" (by decide))]

theorem counts_of_load (h : load d = some s) :
    s.integrationIntervals < 2 ^ 64 ∧ s.taylorTerms < 2 ^ 64 := by
  simp only [load, Option.bind_eq_bind, Option.bind_eq_some_iff] at h
  obtain ⟨fields, _, _, _, _, intervals, _, _, _, terms, _, _, ⟨⟩⟩ := h
  exact ⟨count_lt_of_field intervals (by decide), count_lt_of_field terms (by decide)⟩

theorem load_restrict (kept : String → Bool) (intervals : s.integrationIntervals < 2 ^ 64)
    (terms : s.taylorTerms < 2 ^ 64) :
    load (s.toDocument.restrict kept) = some (s.keep kept) := by
  have derivativeStep : field? s.entries "derivative_step" number? 1e-4 = some s.derivativeStep :=
    field_of_lookup (d := .decimal s.derivativeStep) rfl
  have integrationIntervals :
      field? s.entries "integration_intervals" count? 1000 = some s.integrationIntervals :=
    (field_of_lookup rfl).trans (count_integer intervals)
  have scanStep : field? s.entries "scan_step" number? 0.1 = some s.scanStep :=
    field_of_lookup (d := .decimal s.scanStep) rfl
  have taylorTerms : field? s.entries "taylor_terms" count? 6 = some s.taylorTerms :=
    (field_of_lookup rfl).trans (count_integer terms)
  have taylorScheme :
      field? s.entries "taylor_scheme" named? .repeatedFirstDifference = some s.taylorScheme :=
    (field_of_lookup rfl).trans (named_eq_some_iff.mpr .text)
  rw [toDocument, restrict, load]
  dsimp only [entries?, Option.bind_eq_bind, Option.bind_some]
  rw [field_filter kept derivativeStep, field_filter kept integrationIntervals,
    field_filter kept scanStep, field_filter kept taylorTerms, field_filter kept taylorScheme]
  rfl

end

end CalculusSettings

namespace Settings

/-- Whether the settings are the defaults with the fields that are given in their place, those of the
calculus one by one. -/
structure Overrides (fields : List (String × Document)) (s : Settings) : Prop where
  angle : Given fields "angle_mode" IsName .degree s.angle
  display : Given fields "display_mode" IsName .fixed s.display
  places : ∃ n, Given fields "decimal_places" IsCount 10 n ∧ s.places = min n 100
  policy : Given fields "paren_policy" IsName .repair s.policy
  calculus : Given fields "calculus" CalculusSettings.IsRead {} s.calculus

def keep (kept inner : String → Bool) (s : Settings) : Settings where
  angle := if kept "angle_mode" then s.angle else .degree
  display := if kept "display_mode" then s.display else .fixed
  places := if kept "decimal_places" then s.places else 10
  policy := if kept "paren_policy" then s.policy else .repair
  calculus := if kept "calculus" then s.calculus.keep inner else {}

section

variable {s : Settings} {d : Document} {fields fields' : List (String × Document)}

theorem load_record_iff (object : IsObject fields)
    (nested : ∀ d, ("calculus", d) ∈ fields → ∃ inner, d = .record inner ∧ IsObject inner) :
    load (.record fields) = some s ↔ s.Overrides fields := by
  have calculus {c : CalculusSettings} :
      field? fields "calculus" CalculusSettings.load {} = some c ↔
        Given fields "calculus" CalculusSettings.IsRead {} c := by
    refine field_eq_some_iff object fun d member => ?_
    obtain ⟨inner, rfl, object'⟩ := nested d member
    rw [CalculusSettings.load_record_iff object']
    constructor
    · exact fun h => ⟨inner, rfl, object', h⟩
    · rintro ⟨_, ⟨⟩, _, h⟩
      exact h
  simp only [load, entries?, Option.bind_eq_bind, Option.bind_some, Option.bind_eq_some_iff,
    field_count_eq_some_iff object, field_named_eq_some_iff object, calculus]
  constructor
  · rintro ⟨_, angle, _, display, n, places, _, policy, _, calculus, ⟨⟩⟩
    exact ⟨angle, display, ⟨n, places, rfl⟩, policy, calculus⟩
  · intro h
    obtain ⟨n, places, clamped⟩ := h.places
    refine ⟨_, h.angle, _, h.display, n, places, _, h.policy, _, h.calculus, ?_⟩
    rw [Display.maxPlaces, ← clamped]

theorem load_congr (object : IsObject fields) (object' : IsObject fields')
    (same : SameFor keys fields fields') : load (.record fields) = load (.record fields') := by
  simp only [load, entries?, Option.bind_eq_bind, Option.bind_some]
  rw [field_congr object object' (same "angle_mode" (by decide)),
    field_congr object object' (same "display_mode" (by decide)),
    field_congr object object' (same "decimal_places" (by decide)),
    field_congr object object' (same "paren_policy" (by decide)),
    field_congr object object' (same "calculus" (by decide))]

theorem bounds_of_load (h : load d = some s) :
    s.places ≤ 100 ∧ s.calculus.integrationIntervals < 2 ^ 64 ∧
      s.calculus.taylorTerms < 2 ^ 64 := by
  simp only [load, Option.bind_eq_bind, Option.bind_eq_some_iff] at h
  obtain ⟨fields, _, _, _, _, _, n, _, _, _, c, calculus, ⟨⟩⟩ := h
  refine ⟨Nat.min_le_right _ _, ?_⟩
  unfold field? at calculus
  split at calculus
  · exact CalculusSettings.counts_of_load calculus
  · cases calculus
    change 1000 < 2 ^ 64 ∧ 6 < 2 ^ 64
    decide

/-- Written settings of which some keys are dropped. The places are no more than the most already, so
that they stay as they are. -/
theorem load_prune (kept inner : String → Bool) (clamped : s.places ≤ 100)
    (intervals : s.calculus.integrationIntervals < 2 ^ 64)
    (terms : s.calculus.taylorTerms < 2 ^ 64) :
    load (s.toDocument.prune kept inner) = some (s.keep kept inner) := by
  rw [toDocument, prune, load]
  dsimp only [entries?, Option.bind_eq_bind, Option.bind_some]
  generalize written : (s.entries.map fun e => (e.1, e.2.restrict inner)) = fields
  have angle : field? fields "angle_mode" named? .degree = some s.angle :=
    (field_of_lookup (written ▸ rfl)).trans (named_eq_some_iff.mpr .text)
  have display : field? fields "display_mode" named? .fixed = some s.display :=
    (field_of_lookup (written ▸ rfl)).trans (named_eq_some_iff.mpr .text)
  have places : field? fields "decimal_places" count? 10 = some s.places :=
    (field_of_lookup (written ▸ rfl)).trans (count_integer (by omega))
  have policy : field? fields "paren_policy" named? .repair = some s.policy :=
    (field_of_lookup (written ▸ rfl)).trans (named_eq_some_iff.mpr .text)
  have calculus : field? fields "calculus" CalculusSettings.load {} =
      some (s.calculus.keep inner) :=
    (field_of_lookup (written ▸ rfl)).trans (s.calculus.load_restrict inner intervals terms)
  have unclamped : min (if kept "decimal_places" then s.places else 10) Display.maxPlaces =
      if kept "decimal_places" then s.places else 10 := by
    rw [Display.maxPlaces]
    split <;> omega
  rw [field_filter kept angle, field_filter kept display, field_filter kept places,
    field_filter kept policy, field_filter kept calculus]
  simp only [Option.bind_some, unclamped]
  rfl

theorem load_toDocument (clamped : s.places ≤ 100)
    (intervals : s.calculus.integrationIntervals < 2 ^ 64)
    (terms : s.calculus.taylorTerms < 2 ^ 64) : load s.toDocument = some s :=
  load_prune (fun _ => true) (fun _ => true) clamped intervals terms

end

/-- An object of settings overrides the defaults: it is read where every key that is given can be, each
field is then the one that is given or else the default, and neither the order of the keys nor keys that
are not known matter. What is written of settings that were read is read back, and so is what is left of
it when keys are dropped. -/
theorem load_overrides (fields : List (String × Document)) (object : IsObject fields)
    (nested : ∀ d, ("calculus", d) ∈ fields → ∃ inner, d = .record inner ∧ IsObject inner) :
    (∀ s, load (.record fields) = some s ↔ s.Overrides fields) ∧
      (∀ fields', IsObject fields' → SameFor keys fields fields' →
        load (.record fields) = load (.record fields')) ∧
      (∀ inner inner', IsObject inner → IsObject inner' →
        SameFor CalculusSettings.keys inner inner' →
          CalculusSettings.load (.record inner) = CalculusSettings.load (.record inner')) ∧
      ∀ s, load (.record fields) = some s →
        load s.toDocument = some s ∧
          ∀ kept inner, load (s.toDocument.prune kept inner) = some (s.keep kept inner) := by
  refine ⟨fun s => load_record_iff object nested, fun fields' object' => load_congr object object',
    fun inner inner' object object' => CalculusSettings.load_congr object object',
    fun s loaded => ?_⟩
  obtain ⟨clamped, intervals, terms⟩ := bounds_of_load loaded
  exact ⟨load_toDocument clamped intervals terms,
    fun kept inner => load_prune kept inner clamped intervals terms⟩

def radians : Settings := { angle := .radian, places := 100, calculus := { scanStep := 0.5 } }

theorem load_overrides_partly :
    load (.record [("decimal_places", .integer 5000000), ("units", .null),
      ("calculus", .record [("scan_step", .decimal 0.5)]), ("angle_mode", .text "radian")]) =
        some radians ∧
      load radians.toDocument = some radians ∧
      load (radians.toDocument.prune (· == "calculus") (· == "scan_step")) =
        some { calculus := { scanStep := 0.5 } } := by
  have calculus : CalculusSettings.IsRead { scanStep := 0.5 }
      (.record [("scan_step", .decimal 0.5)]) :=
    ⟨_, rfl, by simp [IsObject], .inr ⟨by simp, rfl⟩, .inr ⟨by simp, rfl⟩,
      .inl ⟨_, .head _, .decimal _⟩, .inr ⟨by simp, rfl⟩, .inr ⟨by simp, rfl⟩⟩
  obtain ⟨reads, _, _, again⟩ := load_overrides [("decimal_places", .integer 5000000),
    ("units", .null), ("calculus", .record [("scan_step", .decimal 0.5)]),
    ("angle_mode", .text "radian")] (by unfold IsObject; decide) (by simp [IsObject])
  have loaded := (reads radians).mpr ⟨?angle, ?display, ?places, ?policy, ?calculus⟩
  case angle => exact .inl ⟨.text "radian", by simp, .text⟩
  case display => exact .inr ⟨by simp, rfl⟩
  case places => exact ⟨5000000, .inl ⟨_, .head _, .integer (by decide)⟩, rfl⟩
  case policy => exact .inr ⟨by simp, rfl⟩
  case calculus => exact .inl ⟨_, by simp, calculus⟩
  obtain ⟨reloaded, pruned⟩ := again radians loaded
  exact ⟨loaded, reloaded, pruned _ _⟩

end Settings

end Reckoner
