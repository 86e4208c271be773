import Reckoner.Host.Method
import Reckoner.Proofs.Result

/-! Operations that write to a session in place, one field at a time. A failure ends an operation
but takes nothing back: what was written before it stays written. Carried out in this way, every
request and every call gives the session and the answer that it gives as a whole. -/
namespace Reckoner

/-- Steps on a session in place. The session comes out of a failure as it was left. -/
abbrev Action (α : Type) : Type := ExceptT Error (StateM Session) α

namespace Action

variable {α β : Type}

def on (a : Action α) (s : Session) : Session × Except Error α :=
  let (result, s') := a.run.run s
  (s', result)

def look (read : Session → Except Error α) : Action α := do
  MonadExcept.ofExcept (read (← get))

def commit (text : String) : Action Float := do
  let x ← look (·.evaluate text)
  let shown := (← get).format x
  modify fun s => { s with symbols.lastAnswer := some x }
  modify fun s => { s with history := s.history ++ [⟨text, x, shown⟩] }
  return x

/-- A failed commit is answered with the text of its error. -/
def calculate (text : String) : Action String :=
  tryCatch
    (do
      let x ← commit text
      return (← get).format x)
    fun e => return Error.shown e.message

def recallEntry (index : Nat) : Action Float := do
  match (← get).history[index]? with
  | some entry => commit entry.expression
  | none => throw (.domain (.noHistory index))

def setVariable (name : Char) (x : Float) : Action Unit := do
  if !name.isUpper then
    throw (.domain (.notAVariable name))
  modify fun s => { s with symbols := s.symbols.set name x }

def storeVariable (name : Char) : Action Float := do
  let x := (← get).symbols.answer
  setVariable name x
  return x

def choose (κ : Type) [Choice κ] (word : String) (write : κ → Session → Session) :
    Action Unit := do
  let choice ← MonadExcept.ofExcept (Choice.read κ word)
  modify (write choice)

def memoryAdd : Action Float := do
  modify fun s => { s with memory := s.memory + s.symbols.answer }
  return (← get).memory

def memorySubtract : Action Float := do
  modify fun s => { s with memory := s.memory - s.symbols.answer }
  return (← get).memory

def reply : Request → Action Reply
  | .evaluate text => return .number (← look (·.evaluate text))
  | .commit text => return .number (← commit text)
  | .preview text => look fun s => .ok (.text (s.shown (s.evaluate text)))
  | .calculate text => return .text (← calculate text)
  | .format x => look fun s => .ok (.text (s.format x))
  | .storeVariable name => return .number (← storeVariable name)
  | .setVariable name x => do
    setVariable name x
    return .done
  | .getVariable name => look fun s => .ok (.option (s.symbols.get? name))
  | .clearVariables => do
    modify fun s => { s with symbols := s.symbols.clear }
    return .done
  | .lastAnswer => look fun s => .ok (.option s.symbols.lastAnswer)
  | .memoryAdd => return .number (← memoryAdd)
  | .memorySubtract => return .number (← memorySubtract)
  | .memoryClear => do
    modify fun s => { s with memory := 0 }
    return .done
  | .memoryRecall => look fun s => .ok (.number s.memory)
  | .history => look fun s => .ok (.history s.history)
  | .clearHistory => do
    modify fun s => { s with history := [] }
    return .done
  | .recall index => return .number (← recallEntry index)
  | .setAngle word => do
    choose AngleMode word fun mode s => { s with settings.angle := mode }
    return .done
  | .setDisplay word => do
    choose DisplayMode word fun mode s => { s with settings.display := mode }
    return .done
  | .setPolicy word => do
    choose ParenPolicy word fun policy s => { s with settings.policy := policy }
    return .done
  | .setPlaces places => do
    modify fun s => { s with settings.places := min places Display.maxPlaces }
    return .done
  | .settings => look fun s => .ok (.settings s.settings)
  | .matrix text => return .rows (← look (·.evaluateMatrix text)).toRows
  | .vector text => return .numbers (← look (·.evaluateVector text))
  | .inquire text free inquiry => look fun s => s.answer (s.function text free) inquiry

end Action

namespace Session

variable {α : Type} {s : Session}

def settle (s : Session) : Except Error (Session × α) → Session × Except Error α
  | .ok (s', a) => (s', .ok a)
  | .error e => (s, .error e)

theorem perform_eq_settle (s : Session) (r : Request) : s.perform r = s.settle (s.respond r) := by
  rw [perform]
  rcases s.respond r with e | ⟨s', reply⟩ <;> rfl

end Session

namespace Action

variable {α β : Type} {s : Session}

theorem on_bind (a : Action α) (f : α → Action β) (s : Session) :
    (a >>= f).on s =
      match a.on s with
      | (s', .ok x) => (f x).on s'
      | (s', .error e) => (s', .error e) := by
  simp only [on, ExceptT.run_bind, StateT.run_bind]
  rcases a.run.run s with ⟨e | x, s'⟩ <;> rfl

theorem on_tryCatch (a : Action α) (f : Error → Action α) (s : Session) :
    (tryCatch a f).on s =
      match a.on s with
      | (s', .ok x) => (s', .ok x)
      | (s', .error e) => (f e).on s' := by
  simp only [on, ExceptT.run_tryCatch, StateT.run_bind]
  rcases a.run.run s with ⟨e | x, s'⟩ <;> rfl

theorem on_ofExcept (r : Except Error α) (s : Session) :
    (MonadExcept.ofExcept r : Action α).on s = (s, r) := by
  cases r <;> rfl

theorem on_look (read : Session → Except Error α) (s : Session) :
    (look read).on s = (s, read s) :=
  on_ofExcept (read s) s

theorem on_commit (text : String) (s : Session) :
    (commit text).on s = s.settle (s.commit text) := by
  rw [commit, on_bind, on_look, Session.commit]
  cases s.evaluate text <;> rfl

theorem on_recallEntry (index : Nat) (s : Session) :
    (recallEntry index).on s = s.settle (s.recallEntry index) := by
  change (match s.history[index]? with
    | some entry => commit entry.expression
    | none => throw (.domain (.noHistory index)) : Action Float).on s = _
  rw [Session.recallEntry]
  cases s.history[index]? with
  | none => rfl
  | some entry => exact on_commit entry.expression s

theorem on_setVariable (name : Char) (x : Float) (s : Session) :
    (setVariable name x).on s = s.settle ((s.setVariable name x).map (·, ())) := by
  rw [setVariable, Session.setVariable]
  cases name.isUpper <;> rfl

theorem on_storeVariable (name : Char) (s : Session) :
    (storeVariable name).on s = s.settle (s.storeVariable name) := by
  change (setVariable name s.symbols.answer >>= fun _ => pure s.symbols.answer).on s = _
  rw [on_bind, on_setVariable, Session.storeVariable]
  cases s.setVariable name s.symbols.answer <;> rfl

theorem on_choose (κ : Type) [Choice κ] (word : String) (write : κ → Session → Session)
    (s : Session) :
    (choose κ word write).on s =
      s.settle ((Choice.read κ word).map fun choice => (write choice s, ())) := by
  rw [choose, on_bind, on_ofExcept]
  cases Choice.read κ word <;> rfl

theorem on_calculate (text : String) (s : Session) :
    (calculate text).on s =
      match s.commit text with
      | .ok (s', x) => (s', .ok (s'.format x))
      | .error e => (s, .ok (Error.shown e.message)) := by
  rw [calculate, on_tryCatch, on_bind, on_commit]
  rcases s.commit text with e | ⟨s', x⟩ <;> rfl

theorem on_reply (r : Request) (s : Session) : (reply r).on s = s.perform r := by
  rw [Session.perform_eq_settle]
  cases r with
  | evaluate text =>
    rw [reply, on_bind, on_look, Session.respond]
    cases s.evaluate text <;> rfl
  | commit text =>
    rw [reply, on_bind, on_commit, Session.respond]
    rcases s.commit text with e | ⟨s', x⟩ <;> rfl
  | calculate text =>
    rw [reply, on_bind, on_calculate, Session.respond]
    rcases s.commit text with e | ⟨s', x⟩ <;> rfl
  | «recall» index =>
    rw [reply, on_bind, on_recallEntry, Session.respond]
    rcases s.recallEntry index with e | ⟨s', x⟩ <;> rfl
  | storeVariable name =>
    rw [reply, on_bind, on_storeVariable, Session.respond]
    rcases s.storeVariable name with e | ⟨s', x⟩ <;> rfl
  | setVariable name x =>
    rw [reply, on_bind, on_setVariable, Session.respond]
    cases s.setVariable name x <;> rfl
  | setAngle word =>
    rw [reply, on_bind, on_choose, Session.respond]
    cases Choice.read AngleMode word <;> rfl
  | setDisplay word =>
    rw [reply, on_bind, on_choose, Session.respond]
    cases Choice.read DisplayMode word <;> rfl
  | setPolicy word =>
    rw [reply, on_bind, on_choose, Session.respond]
    cases Choice.read ParenPolicy word <;> rfl
  | matrix text =>
    rw [reply, on_bind, on_look, Session.respond]
    cases s.evaluateMatrix text <;> rfl
  | vector text =>
    rw [reply, on_bind, on_look, Session.respond]
    cases s.evaluateVector text <;> rfl
  | inquire text free inquiry =>
    rw [reply, on_look, Session.respond]
    cases s.answer (s.function text free) inquiry <;> rfl
  | _ => rfl

end Action

namespace Host

def carryOut (s : Session) : Call → Session × Outcome
  | .request context r => answered context ((Action.reply r).on s)
  | .onVariable context name r =>
    match variableName name with
    | .ok c => answered context ((Action.reply (r c)).on s)
    | .error message => (s, .thrown (within context message))
  | .recall index =>
    match (Action.recallEntry index).on s with
    | (s', .ok x) => (s', .returned (.text (s'.format x)))
    | (s', .error e) => (s', .returned (.text (Error.shown e.message)))
  | .reading r => (s, .of (consult s r))
where
  answered (context : String) : Session × Except Error Reply → Session × Outcome
    | (s', .ok reply) => (s', .ofReply reply)
    | (s', .error e) => (s', .thrown (within context e.message))

theorem carryOut_eq_invoke (s : Session) (c : Call) : carryOut s c = invoke s c := by
  have sent (context : String) (r : Request) :
      carryOut.answered context ((Action.reply r).on s) = send s context r := by
    rw [Action.on_reply]
    rfl
  cases c with
  | request context r => exact sent context r
  | onVariable context name r =>
    rw [carryOut, invoke]
    cases variableName name with
    | ok c => exact sent context (r c)
    | error message => rfl
  | «recall» index =>
    rw [carryOut, invoke, Action.on_recallEntry]
    rcases s.recallEntry index with e | ⟨s', x⟩ <;> rfl
  | reading r => rfl

end Host

end Reckoner
