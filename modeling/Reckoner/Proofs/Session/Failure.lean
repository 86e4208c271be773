import Reckoner.Proofs.Display.Letters
import Reckoner.Proofs.Normal.Balance
import Reckoner.Proofs.Session.InPlace

/-! Operations that fail. An error is an answer of its own kind or a text that is shown in place of
a result. Whichever it is, and however the operation got there, the session is what it was. -/
namespace Reckoner

/-- What is asked of a session, by its owner or by the page that hosts it. -/
inductive Operation where
  | request (r : Request)
  | call (c : Host.Call)

inductive Answer where
  | reply (result : Except Error Reply)
  | outcome (outcome : Host.Outcome)

def Error.Shows (text : String) : Prop := ∃ e : Error, text = Error.shown e.message

def Answer.Fails : Answer → Prop
  | .reply (.error _) => True
  | .reply (.ok (.text text)) => Error.Shows text
  | .reply (.ok _) => False
  | .outcome (.thrown _) => True
  | .outcome (.returned (.text text)) => Error.Shows text
  | .outcome (.returned _) => False
  | .outcome .never => False

theorem not_shows_format (s : Session) (x : Float) : ¬ Error.Shows (s.format x) := by
  rintro ⟨e, same⟩
  refine not_unmarked_shown e.message ?_
  rw [← same]
  exact .format _ _ x

/-- Whether a request asks for what cannot be done. -/
def Request.Refused (s : Session) : Request → Prop
  | .evaluate text | .preview text | .commit text | .calculate text =>
    ∃ e, s.evaluate text = .error e
  | .recall index =>
    ∀ entry, s.history[index]? = some entry → ∃ e, s.evaluate entry.expression = .error e
  | .storeVariable name | .setVariable name _ => ¬ ('A' ≤ name ∧ name ≤ 'Z')
  | .setAngle word => ∀ mode, Choice.read AngleMode word ≠ .ok mode
  | .setDisplay word => ∀ mode, Choice.read DisplayMode word ≠ .ok mode
  | .setPolicy word => ∀ policy, Choice.read ParenPolicy word ≠ .ok policy
  | _ => False

def Host.Call.Refused (s : Session) : Call → Prop
  | .request _ r => r.Refused s
  | .onVariable _ name r => ∀ c, Text.trimmed name.toList = [c] → (r c).Refused s
  | .recall index => (Request.recall index).Refused s
  | .reading _ => False

namespace Operation

def Refused (s : Session) : Operation → Prop
  | .request r => r.Refused s
  | .call c => c.Refused s

/-- Carries out an operation as a whole. -/
def perform (s : Session) : Operation → Session × Answer
  | .request r => ((s.perform r).1, .reply (s.perform r).2)
  | .call c => ((Host.invoke s c).1, .outcome (Host.invoke s c).2)

/-- Carries out an operation in place. -/
def carryOut (s : Session) : Operation → Session × Answer
  | .request r => (((Action.reply r).on s).1, .reply ((Action.reply r).on s).2)
  | .call c => ((Host.carryOut s c).1, .outcome (Host.carryOut s c).2)

theorem carryOut_eq_perform (s : Session) (o : Operation) : o.carryOut s = o.perform s := by
  cases o with
  | request r => rw [carryOut, Action.on_reply, perform]
  | call c => rw [carryOut, Host.carryOut_eq_invoke, perform]

end Operation

namespace Session

variable {s s' : Session} {r : Request}

/-- A text is the answer to a question, which changes nothing, or it shows a value. -/
theorem respond_text {text : String} (h : s.respond r = .ok (s', .text text)) :
    s' = s ∨ ∃ x, text = s'.format x := by
  cases r with
  | calculate =>
    rw [respond] at h
    split at h
    · cases h
      exact .inr ⟨_, rfl⟩
    · cases h
      exact .inl rfl
  | preview =>
    cases h
    exact .inl rfl
  | format =>
    cases h
    exact .inl rfl
  | inquire =>
    obtain ⟨_, _, h⟩ := bind_eq_ok.mp h
    cases h
    exact .inl rfl
  | evaluate | commit | storeVariable | setVariable | «recall» | setAngle | setDisplay | setPolicy
    | matrix | vector =>
    obtain ⟨_, _, h⟩ := bind_eq_ok.mp h
    cases h
  | _ => cases h

theorem perform_of_fails (failed : (Answer.reply (s.perform r).2).Fails) : (s.perform r).1 = s := by
  rw [perform] at failed ⊢
  cases result : s.respond r with
  | error e => rfl
  | ok given =>
    obtain ⟨s', reply⟩ := given
    rw [result] at failed
    cases reply with
    | text text =>
      obtain unchanged | ⟨x, rfl⟩ := respond_text result
      · exact unchanged
      · exact absurd failed (not_shows_format s' x)
    | _ => exact failed.elim

theorem recallEntry_of_refused {index : Nat} (refused : (Request.recall index).Refused s) :
    ∃ e, s.recallEntry index = .error e := by
  cases found : s.history[index]? with
  | none => exact ⟨_, by rw [recallEntry, found]⟩
  | some entry =>
    obtain ⟨e, failed⟩ := refused entry found
    refine ⟨e, ?_⟩
    simp only [recallEntry, found, commit, failed, error_bind]

theorem setVariable_of_refused {name : Char} {x : Float} (refused : ¬ ('A' ≤ name ∧ name ≤ 'Z')) :
    s.setVariable name x = .error (.domain (.notAVariable name)) := by
  rw [setVariable, if_neg]
  intro isUpper
  exact refused (of_decide_eq_true isUpper)

theorem fails_of_bind {α : Type} {x : Except Error α} {f : α → Except Error (Session × Reply)}
    (refused : ∀ a, x ≠ .ok a) (h : s.respond r = x >>= f) :
    (Answer.reply (s.perform r).2).Fails := by
  rw [perform, h]
  cases x with
  | error e => trivial
  | ok a => exact absurd rfl (refused a)

theorem perform_of_refused (refused : r.Refused s) : (Answer.reply (s.perform r).2).Fails := by
  rw [perform]
  cases r with
  | evaluate text =>
    obtain ⟨e, failed⟩ := refused
    rw [respond, failed]
    trivial
  | preview text =>
    obtain ⟨e, failed⟩ := refused
    rw [respond, failed]
    exact ⟨e, rfl⟩
  | commit text =>
    obtain ⟨e, failed⟩ := refused
    rw [respond, commit, failed]
    trivial
  | calculate text =>
    obtain ⟨e, failed⟩ := refused
    rw [respond, commit, failed]
    exact ⟨e, rfl⟩
  | «recall» index =>
    obtain ⟨e, failed⟩ := recallEntry_of_refused refused
    rw [respond, failed]
    trivial
  | storeVariable name =>
    rw [respond, storeVariable, setVariable_of_refused refused]
    trivial
  | setVariable name x =>
    rw [respond, setVariable_of_refused refused]
    trivial
  | setAngle word => exact fails_of_bind refused rfl
  | setDisplay word => exact fails_of_bind refused rfl
  | setPolicy word => exact fails_of_bind refused rfl
  | _ => exact refused.elim

end Session

namespace Host

variable {s : Session} {c : Call}

/-- A reply crosses to the page as a text exactly if it is one. -/
theorem fails_ofReply_iff (reply : Reply) :
    (Answer.outcome (.ofReply reply)).Fails ↔ (Answer.reply (.ok reply)).Fails := by
  cases reply with
  | option x | limit x => cases x <;> exact Iff.rfl
  | extrema found => cases found <;> exact Iff.rfl
  | _ => exact Iff.rfl

theorem send_session (s : Session) (context : String) (r : Request) :
    (send s context r).1 = (s.perform r).1 := by
  rw [send]
  rcases s.perform r with ⟨s', e | reply⟩ <;> rfl

theorem fails_send_iff (s : Session) (context : String) (r : Request) :
    (Answer.outcome (send s context r).2).Fails ↔ (Answer.reply (s.perform r).2).Fails := by
  rw [send]
  rcases s.perform r with ⟨s', e | reply⟩
  · exact Iff.rfl
  · exact fails_ofReply_iff reply

theorem send_of_fails {context : String} {r : Request}
    (failed : (Answer.outcome (send s context r).2).Fails) : (send s context r).1 = s := by
  rw [send_session]
  exact Session.perform_of_fails ((fails_send_iff s context r).mp failed)

theorem send_of_refused {context : String} {r : Request} (refused : r.Refused s) :
    (Answer.outcome (send s context r).2).Fails :=
  (fails_send_iff s context r).mpr (Session.perform_of_refused refused)

theorem invoke_of_fails (failed : (Answer.outcome (invoke s c).2).Fails) : (invoke s c).1 = s := by
  cases c with
  | request context r => exact send_of_fails failed
  | onVariable context name r =>
    rw [invoke] at failed ⊢
    split at failed
    · exact send_of_fails failed
    · rfl
  | «recall» index =>
    rw [invoke] at failed ⊢
    split at failed
    · exact absurd failed (not_shows_format _ _)
    · rfl
  | reading r => rfl

theorem invoke_of_refused (refused : c.Refused s) : (Answer.outcome (invoke s c).2).Fails := by
  cases c with
  | request context r => exact send_of_refused refused
  | onVariable context name r =>
    rw [invoke, variableName]
    split
    · rename_i c single
      split at single <;> cases single
      exact send_of_refused (refused c ‹_›)
    · trivial
  | «recall» index =>
    obtain ⟨e, failed⟩ := Session.recallEntry_of_refused refused
    rw [invoke, failed]
    exact ⟨e, rfl⟩
  | reading r => exact refused.elim

end Host

namespace Operation

variable {s : Session} {o : Operation}

theorem fails_of_refused (refused : o.Refused s) : (o.perform s).2.Fails := by
  cases o with
  | request r => exact Session.perform_of_refused refused
  | call c => exact Host.invoke_of_refused refused

theorem perform_of_fails (failed : (o.perform s).2.Fails) : (o.perform s).1 = s := by
  cases o with
  | request r => exact Session.perform_of_fails failed
  | call c => exact Host.invoke_of_fails failed

def run (s : Session) : List Operation → Session × List Answer
  | [] => (s, [])
  | o :: os =>
    let rest := run (o.carryOut s).1 os
    (rest.1, (o.carryOut s).2 :: rest.2)

theorem run_append (s : Session) (os os' : List Operation) :
    run s (os ++ os') = ((run (run s os).1 os').1, (run s os).2 ++ (run (run s os).1 os').2) := by
  induction os generalizing s with
  | nil => rfl
  | cons o os ih => simp only [List.cons_append, run, ih]

/-- What is refused reports an error, and what reports an error has left the session as it was,
although every write is made in place. So a run goes on as if the operation had not been there. -/
theorem run_past_failure {s : Session} {before after : List Operation} {o : Operation}
    (failed : o.Refused (run s before).1 ∨ (o.carryOut (run s before).1).2.Fails) :
    (o.carryOut (run s before).1).2.Fails ∧
      (o.carryOut (run s before).1).1 = (run s before).1 ∧
      (run s (before ++ o :: after)).1 = (run s (before ++ after)).1 ∧
      (run s (before ++ o :: after)).2 = (run s before).2 ++
        (o.carryOut (run s before).1).2 :: (run (run s before).1 after).2 ∧
      (run s (before ++ after)).2 = (run s before).2 ++ (run (run s before).1 after).2 ∧
      ∀ s o, carryOut s o = perform s o := by
  have fails : (o.carryOut (run s before).1).2.Fails := by
    rcases failed with refused | fails
    · rw [carryOut_eq_perform]
      exact fails_of_refused refused
    · exact fails
  have unchanged : (o.carryOut (run s before).1).1 = (run s before).1 := by
    rw [carryOut_eq_perform] at fails ⊢
    exact perform_of_fails fails
  refine ⟨fails, unchanged, ?_, ?_, ?_, carryOut_eq_perform⟩
  · simp only [run_append, run, unchanged]
  · simp only [run_append, run, unchanged]
  · rw [run_append]

/-- An open parenthesis with nothing after it, between storing a variable and using it. -/
theorem run_past_failure_openParenthesis :
    (call (.request "calculate" (.calculate "2*("))).Refused
        (run (.start {}) [.request (.setVariable 'A' 2)]).1 ∧
      (run (.start {}) [.request (.setVariable 'A' 2),
          .call (.request "calculate" (.calculate "2*(")), .request (.commit "A")]).1 =
        (run (.start {}) [.request (.setVariable 'A' 2), .request (.commit "A")]).1 := by
  have scanned : tokenize "2*(" = .ok [.number 2, .mark .star, .mark .opening] := by
    decide +kernel
  have depth : Paren.depthAfter 0 (textParens "2*(".toList) = some 1 := by decide +kernel
  have read : parse [.number (2 : Float), .mark .star, .mark .opening, .mark .closing] =
      .error (.read (.unexpected (some .closing))) := by cbv
  have refused : (call (.request "calculate" (.calculate "2*("))).Refused
      (run (.start {}) [.request (.setVariable 'A' 2)]).1 := by
    refine ⟨.read (.unexpected (some .closing)), ?_⟩
    rw [Session.evaluate, evaluateText, normalize, normalizeWith_eq, depth]
    simp only [scanned]
    change evaluateTokens [.number 2, .mark .star, .mark .opening, .mark .closing] _ = _
    rw [evaluateTokens, read, error_bind]
  have past := @run_past_failure (.start {}) [.request (.setVariable 'A' 2)]
    [.request (.commit "A")] _ (.inl refused)
  exact ⟨refused, past.2.2.1⟩

end Operation

end Reckoner
