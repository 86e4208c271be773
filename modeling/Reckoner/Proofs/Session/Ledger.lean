import Reckoner.Proofs.Result
import Reckoner.Session.Request

/-! What a session has on record after any requests. A ledger is kept beside the session: it takes
down every expression that is committed, with its value and the text shown for it, and every time
the history is cleared. It never looks at the answer or the history that the session keeps, and
nothing is ever taken out of it. -/
namespace Reckoner

inductive Event where
  | committed (entry : HistoryEntry)
  | cleared

/-- All that was committed and cleared, the latest first. -/
abbrev Ledger := List Event

namespace Ledger

def latest? : Ledger → Option HistoryEntry
  | [] => none
  | .committed entry :: _ => some entry
  | .cleared :: past => latest? past

def current : Ledger → List HistoryEntry
  | .committed entry :: past => current past ++ [entry]
  | _ => []

theorem latest_of_getLast {past : Ledger} {entry : HistoryEntry}
    (h : past.current.getLast? = some entry) : past.latest? = some entry := by
  rcases past with _ | ⟨entry' | _, past⟩
  · cases h
  · rw [current, List.getLast?_concat] at h
    exact h
  · cases h

end Ledger

namespace Session

def attempt (s : Session) (text : String) : Option Event :=
  match s.evaluate text with
  | .ok x => some (.committed ⟨text, x, s.settings.display.format s.settings.places x⟩)
  | .error _ => none

/-- What a request adds to the ledger. The entry that is recalled is looked up in the ledger. -/
def event? (s : Session) (past : Ledger) : Request → Option Event
  | .commit text => s.attempt text
  | .calculate text => s.attempt text
  | .recall index => past.current[index]?.bind fun entry => s.attempt entry.expression
  | .clearHistory => some .cleared
  | _ => none

def ledger (s : Session) (past : Ledger) : List Request → Ledger
  | [] => past
  | r :: rs => ledger (s.perform r).1 ((s.event? past r).toList ++ past) rs

/-- All that a request can do to a session, with what it adds to the ledger. -/
inductive Effect (s : Session) : Option Event → Session → Prop where
  | unchanged : Effect s none s
  | recorded {text : String} {x : Float} : s.evaluate text = .ok x →
      Effect s (some (.committed ⟨text, x, s.settings.display.format s.settings.places x⟩))
        (s.record text x)
  | cleared : Effect s (some .cleared) s.clearHistory
  | adjusted {t : Settings} : t.places = s.settings.places ∨ t.places ≤ Display.maxPlaces →
      Effect s none { s with settings := t }
  | stored {name : Char} {x : Float} : name.isUpper = true →
      Effect s none { s with symbols := s.symbols.set name x }
  | forgotten : Effect s none s.clearVariables
  | memory (x : Float) : Effect s none { s with memory := x }

section

variable {s s' : Session} {r : Request}

theorem perform_of_ok {reply : Reply} (h : s.respond r = .ok (s', reply)) :
    (s.perform r).1 = s' := by
  rw [perform, h]

theorem perform_of_error {error : Error} (h : s.respond r = .error error) :
    (s.perform r).1 = s := by
  rw [perform, h]

theorem effect_of_bind {α : Type} {x : Except Error α} {f : α → Session × Reply}
    (effect : ∀ a, x = .ok a → Effect s none (f a).1)
    (h : s.respond r = x >>= fun a => .ok (f a)) : Effect s none (s.perform r).1 := by
  cases step : x with
  | error e =>
    rw [step] at h
    rw [perform_of_error h]
    exact .unchanged
  | ok a =>
    rw [step] at h
    rw [perform_of_ok h]
    exact effect a step

theorem effect_of_setVariable {name : Char} {x : Float} (h : s.setVariable name x = .ok s') :
    Effect s none s' := by
  unfold setVariable at h
  split at h
  · cases h
    exact .stored ‹_›
  · cases h

inductive Attempted (s : Session) (text : String) : Session → Prop where
  | failed {error : Error} : s.evaluate text = .error error → Attempted s text s
  | recorded {x : Float} : s.evaluate text = .ok x → Attempted s text (s.record text x)

theorem commit_of_value {text : String} {x : Float} (value : s.evaluate text = .ok x) :
    s.commit text = .ok (s.record text x, x) := by
  rw [commit, value, ok_bind]

theorem attempted_of_commit {text : String}
    (failed : ∀ error, s.commit text = .error error → (s.perform r).1 = s)
    (committed : ∀ s' x, s.commit text = .ok (s', x) → (s.perform r).1 = s') :
    s.Attempted text (s.perform r).1 := by
  cases value : s.evaluate text with
  | error e =>
    have commit : s.commit text = .error e := by rw [Session.commit, value, error_bind]
    rw [failed e commit]
    exact .failed value
  | ok x =>
    rw [committed _ x (commit_of_value value)]
    exact .recorded value

theorem attempted_commit (s : Session) (text : String) :
    s.Attempted text (s.perform (.commit text)).1 :=
  attempted_of_commit
    (fun _ h => perform_of_error (by rw [respond, h, error_bind]))
    (fun _ _ h => perform_of_ok (by rw [respond, h, ok_bind]))

theorem attempted_calculate (s : Session) (text : String) :
    s.Attempted text (s.perform (.calculate text)).1 :=
  attempted_of_commit
    (fun _ h => perform_of_ok (by rw [respond, h]))
    (fun _ _ h => perform_of_ok (by rw [respond, h]))

/-- An entry that is found is committed like any other text. -/
theorem attempted_recall {index : Nat} {entry : HistoryEntry}
    (found : s.history[index]? = some entry) :
    s.Attempted entry.expression (s.perform (.recall index)).1 := by
  have again : s.respond (.recall index) = s.respond (.commit entry.expression) := by
    simp only [respond, recallEntry, found]
  rw [perform, again, ← perform]
  exact attempted_commit s entry.expression

theorem perform_recall_missing {index : Nat} (missing : s.history[index]? = none) :
    (s.perform (.recall index)).1 = s := by
  have refused : s.respond (.recall index) = .error (.domain (.noHistory index)) := by
    simp only [respond, recallEntry, missing, error_bind]
  exact perform_of_error refused

theorem Attempted.effect {text : String} (h : s.Attempted text s') :
    Effect s (s.attempt text) s' := by
  unfold attempt
  cases h with
  | failed value =>
    rw [value]
    exact .unchanged
  | recorded value =>
    rw [value]
    exact .recorded value

end

/-- Nothing else can be done to a session whose history is the one in the ledger. -/
theorem perform_effect {s : Session} {past : Ledger} (history : s.history = past.current)
    (r : Request) : Effect s (s.event? past r) (s.perform r).1 := by
  cases r with
  | commit text => exact (attempted_commit s text).effect
  | calculate text => exact (attempted_calculate s text).effect
  | «recall» index =>
    rw [event?, ← history]
    cases found : s.history[index]? with
    | none =>
      rw [perform_recall_missing found]
      exact .unchanged
    | some entry => exact (attempted_recall found).effect
  | storeVariable name =>
    have stored : s.respond (.storeVariable name) = s.setVariable name s.symbols.answer >>=
        fun s' => .ok (s', .number s.symbols.answer) := by
      rw [respond, storeVariable]
      cases s.setVariable name s.symbols.answer <;> rfl
    exact effect_of_bind (fun s' h => effect_of_setVariable h) stored
  | setVariable name x => exact effect_of_bind (fun s' h => effect_of_setVariable h) rfl
  | clearVariables => exact .forgotten
  | memoryAdd => exact .memory _
  | memorySubtract => exact .memory _
  | memoryClear => exact .memory _
  | clearHistory => exact .cleared
  | setAngle word =>
    exact effect_of_bind
      (fun mode _ => .adjusted (t := { s.settings with angle := mode }) (.inl rfl)) rfl
  | setDisplay word =>
    exact effect_of_bind
      (fun mode _ => .adjusted (t := { s.settings with display := mode }) (.inl rfl)) rfl
  | setPolicy word =>
    exact effect_of_bind
      (fun policy _ => .adjusted (t := { s.settings with policy := policy }) (.inl rfl)) rfl
  | setPlaces places => exact .adjusted (.inr (Nat.min_le_right _ _))
  | evaluate text => exact effect_of_bind (fun _ _ => .unchanged) rfl
  | matrix text => exact effect_of_bind (fun _ _ => .unchanged) rfl
  | vector text => exact effect_of_bind (fun _ _ => .unchanged) rfl
  | inquire text free inquiry => exact effect_of_bind (fun _ _ => .unchanged) rfl
  | preview => exact .unchanged
  | format => exact .unchanged
  | getVariable => exact .unchanged
  | lastAnswer => exact .unchanged
  | memoryRecall => exact .unchanged
  | history => exact .unchanged
  | settings => exact .unchanged

/-- What a session and its ledger have to do with each other. -/
structure Accords (s : Session) (past : Ledger) : Prop where
  places : s.settings.places ≤ Display.maxPlaces
  letters : ∀ entry ∈ s.symbols.variables, entry.1.isUpper = true
  answer : s.symbols.lastAnswer = past.latest?.map (·.value)
  history : s.history = past.current

theorem start_accords (settings : Settings) : (start settings).Accords [] where
  places := Nat.min_le_right _ _
  letters entry h := by cases h
  answer := rfl
  history := rfl

theorem Accords.effect {s s' : Session} {past : Ledger} {event : Option Event}
    (accords : s.Accords past) (effect : s.Effect event s') :
    s'.Accords (event.toList ++ past) := by
  have ⟨places, letters, answer, history⟩ := accords
  cases effect with
  | unchanged => exact accords
  | recorded value =>
    exact ⟨places, letters, rfl, congrArg (· ++ _) history⟩
  | cleared => exact ⟨places, letters, answer, rfl⟩
  | adjusted bounded =>
    refine ⟨?_, letters, answer, history⟩
    rcases bounded with same | bounded
    · exact le_of_eq_of_le same places
    · exact bounded
  | stored isUpper =>
    refine ⟨places, fun entry h => ?_, answer, history⟩
    rcases List.mem_cons.mp h with rfl | kept
    · exact isUpper
    · exact letters entry (List.mem_filter.mp kept).1
  | forgotten => exact ⟨places, fun _ h => (List.not_mem_nil h).elim, answer, history⟩
  | memory x => exact ⟨places, letters, answer, history⟩

theorem Accords.run {s : Session} {past : Ledger} (accords : s.Accords past)
    (rs : List Request) : (s.run rs).Accords (s.ledger past rs) := by
  induction rs generalizing s past with
  | nil => exact accords
  | cons r rs ih => exact ih (accords.effect (perform_effect accords.history r))

/-- After any requests to a new session: the last answer is the value of the latest commit, and the
history has the commits since it was last cleared. Only capital letters have a value, and there are
no more decimal places than are shown. -/
theorem run_accords (settings : Settings) (rs : List Request) :
    ((start settings).run rs).settings.places ≤ 100 ∧
      (∀ c x, (c, x) ∈ ((start settings).run rs).symbols.variables → 'A' ≤ c ∧ c ≤ 'Z') ∧
      ((start settings).run rs).symbols.lastAnswer =
        ((start settings).ledger [] rs).latest?.map (·.value) ∧
      ((start settings).run rs).history = ((start settings).ledger [] rs).current ∧
      ∀ entry, ((start settings).run rs).history.getLast? = some entry →
        ((start settings).run rs).symbols.lastAnswer = some entry.value := by
  have ⟨places, letters, answer, history⟩ := (start_accords settings).run rs
  refine ⟨places, fun c x h => ?_, answer, history, fun entry h => ?_⟩
  · exact of_decide_eq_true (letters (c, x) h)
  · rw [answer, Ledger.latest_of_getLast (history ▸ h), Option.map_some]

end Session

end Reckoner
