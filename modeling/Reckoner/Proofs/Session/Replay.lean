import Reckoner.Proofs.Normal.Balance
import Reckoner.Proofs.Parse.Context
import Reckoner.Proofs.Session.Ledger

/-! Replaying a history. As long as nothing but reading and committing is asked of a new session,
the session is what its history makes of it: failed commits and failed recalls leave no trace, and a
recall leaves the entry that it commits. -/
namespace Reckoner

open Grammar (IsAtom)

def Request.Reads : Request → Prop
  | .evaluate _ | .preview _ | .format _ | .getVariable _ | .lastAnswer | .memoryRecall | .history
  | .settings | .matrix _ | .vector _ | .inquire _ _ _ => True
  | _ => False

def Request.Commits : Request → Prop
  | .commit _ | .calculate _ | .recall _ => True
  | _ => False

namespace Session

def commitAll (s : Session) : List String → Except Error Session
  | [] => .ok s
  | text :: texts => do
    let (s', _) ← s.commit text
    s'.commitAll texts

/-- Whether committing the expressions of a history makes of a first session the one that has that
history. -/
def Replays (first s : Session) : Prop :=
  first.commitAll (s.history.map (·.expression)) = .ok s

section

variable {first s s' : Session} {r : Request}

theorem commitAll_concat {texts : List String} {text : String} {x : Float}
    (before : first.commitAll texts = .ok s) (value : s.evaluate text = .ok x) :
    first.commitAll (texts ++ [text]) = .ok (s.record text x) := by
  induction texts generalizing first with
  | nil =>
    cases before
    rw [List.nil_append, commitAll, commit_of_value value]
    rfl
  | cons earlier texts ih =>
    obtain ⟨⟨next, y⟩, committed, others⟩ := bind_eq_ok.mp before
    rw [List.cons_append, commitAll, committed, ok_bind]
    exact ih others

theorem Replays.record {text : String} {x : Float} (replays : first.Replays s)
    (value : s.evaluate text = .ok x) : first.Replays (s.record text x) := by
  have concat := commitAll_concat replays value
  rwa [← List.map_singleton (f := HistoryEntry.expression) (a := ⟨text, x, s.format x⟩),
    ← List.map_append] at concat

theorem perform_of_look {α : Type} {x : Except Error α} {reply : α → Reply}
    (h : s.respond r = x >>= fun a => .ok (s, reply a)) : (s.perform r).1 = s := by
  rw [perform, h]
  cases x <;> rfl

theorem perform_of_reads (reads : r.Reads) : (s.perform r).1 = s := by
  cases r with
  | evaluate | matrix | vector | inquire => exact perform_of_look rfl
  | preview | format | getVariable | lastAnswer | memoryRecall | history | settings => rfl
  | _ => exact reads.elim

theorem Replays.attempted {text : String} (replays : first.Replays s)
    (attempted : s.Attempted text s') : first.Replays s' := by
  cases attempted with
  | failed _ => exact replays
  | recorded value => exact replays.record value

theorem Replays.commits (replays : first.Replays s) (commits : r.Commits) :
    first.Replays (s.perform r).1 := by
  cases r with
  | commit text => exact replays.attempted (attempted_commit s text)
  | calculate text => exact replays.attempted (attempted_calculate s text)
  | «recall» index =>
    cases found : s.history[index]? with
    | none => rwa [perform_recall_missing found]
    | some entry => exact replays.attempted (attempted_recall found)
  | _ => exact commits.elim

theorem Replays.perform (replays : first.Replays s) (only : r.Reads ∨ r.Commits) :
    first.Replays (s.perform r).1 := by
  rcases only with reads | commits
  · rwa [perform_of_reads reads]
  · exact replays.commits commits

theorem Replays.run (replays : first.Replays s) {rs : List Request}
    (only : ∀ r ∈ rs, r.Reads ∨ r.Commits) : first.Replays (s.run rs) := by
  induction rs generalizing s with
  | nil => exact replays
  | cons r rs ih =>
    have ⟨head, tail⟩ := List.forall_mem_cons.mp only
    exact ih (replays.perform head) tail

end

/-- If a new session is only read and committed to, whether that fails or not, then committing the
expressions of its history in another new session succeeds all the way and leads to the same
session: to the same history, with the same values and texts shown, and to the same last answer. -/
theorem commitAll_history (settings : Settings) (rs : List Request)
    (only : ∀ r ∈ rs, r.Reads ∨ r.Commits) :
    (start settings).commitAll (((start settings).run rs).history.map (·.expression)) =
      .ok ((start settings).run rs) := by
  have fresh : (start settings).Replays (start settings) := rfl
  exact fresh.run only

def recalledOnce : List Request := [.commit "ANS+1", .calculate "1)", .recall 0, .recall 7]

theorem evaluate_answerPlusOne {s : Session} (notNegative : ¬ s.symbols.answer < 0) :
    s.evaluate "ANS+1" = .ok (s.symbols.answer + 1) := by
  have scanned : tokenize "ANS+1" = .ok [.name "ANS", .mark .plus, .number 1] := by
    decide +kernel
  have balanced : Paren.depthAfter 0 (textParens "ANS+1".toList) = some 0 := by decide +kernel
  have replaced : Normal.replaceNames id s.symbols none [.name "ANS", .mark .plus, .number 1] =
      [.number s.symbols.answer, .mark .plus, .number 1] := by
    simp [Normal.replaceNames, Normal.replacement, Normal.spelled, notNegative]
  have sum : parse [.number s.symbols.answer, .mark .plus, .number 1] =
      .ok (.binary (.number s.symbols.answer) '+' (.number 1)) :=
    parse_eq_ok_iff_isSum.mpr
      (.plus (IsAtom.number.isPower rfl).isSum (IsAtom.number.isPower rfl).isProduct)
  rw [evaluate, evaluateText, normalize, normalizeWith_of_balanced balanced scanned, ok_bind,
    replaced]
  exact evaluateTokens_eq_ok_iff.mpr ⟨_, _, sum, rfl, by simp [Expr.value?]⟩

theorem commitAll_history_recalledOnce :
    (∀ r ∈ recalledOnce, r.Reads ∨ r.Commits) ∧
      ((start {}).run recalledOnce).history.map (·.expression) = ["ANS+1", "ANS+1"] ∧
      (start {}).commitAll ["ANS+1", "ANS+1"] = .ok ((start {}).run recalledOnce) := by
  have only : ∀ r ∈ recalledOnce, r.Reads ∨ r.Commits := by simp [recalledOnce, Request.Commits]
  let once := (start {}).record "ANS+1" ((start {}).symbols.answer + 1)
  let twice := once.record "ANS+1" (once.symbols.answer + 1)
  have first : ((start {}).perform (.commit "ANS+1")).1 = once := by
    rw [perform, respond, commit_of_value (evaluate_answerPlusOne (by decide +kernel))]
    rfl
  have failed : (once.perform (.calculate "1)")).1 = once := by rfl
  have again : (once.perform (.recall 0)).1 = twice := by
    have found : once.recallEntry 0 = once.commit "ANS+1" := rfl
    rw [perform, respond, found, commit_of_value (evaluate_answerPlusOne (by decide +kernel))]
    rfl
  have missing : (twice.perform (.recall 7)).1 = twice := by rfl
  have ran : (start {}).run recalledOnce = twice := by
    simp only [run, recalledOnce, List.foldl, first, failed, again, missing]
  have history : ((start {}).run recalledOnce).history.map (·.expression) =
      ["ANS+1", "ANS+1"] := by
    rw [ran]
    rfl
  exact ⟨only, history, history ▸ commitAll_history {} recalledOnce only⟩

end Session

end Reckoner
