import Mathlib.Logic.ExistsUnique
import Workflow.Proofs.Executor.Calls
import Workflow.Proofs.Executor.Creation
import Workflow.Proofs.Executor.Journal

/-!
# Phases

An execution has not started, is at a task with a payload, or has a result. From each phase every
call goes to a phase again, and no call meets a name that is no task.
-/

namespace Workflow

/-- How far an execution has come. -/
inductive Phase where
  | starting
  | inFlight
  | terminal
  deriving DecidableEq

namespace Phase

/-- Whether an execution of a machine is in a phase, by its state and its result. -/
def Holds (machine : Machine) (state : Option ExecutionState) (result : Option ExecutionResult) :
    Phase → Prop
  | .starting => state = none ∧ result = none
  | .inFlight =>
    result = none ∧ ∃ name payload task,
      state = some { name, data := some payload } ∧ machine.state? name = some (.task task)
  | .terminal => state = none ∧ ∃ ended, result = some ended

theorem eq_of_holds {machine : Machine} {state : Option ExecutionState}
    {result : Option ExecutionResult} {first second : Phase}
    (hfirst : first.Holds machine state result) (hsecond : second.Holds machine state result) :
    first = second := by
  cases first <;> cases second <;> simp_all [Holds]

end Phase

namespace ExecutionRecord

/-- The record of an execution of a machine that is in some phase. -/
def IsSound (record : ExecutionRecord) (machine : Machine) : Prop :=
  ∃ phase : Phase, phase.Holds machine record.state record.result

variable {record : ExecutionRecord} {machine : Machine} {progress : Progress}

theorem IsSound.existsUnique (h : record.IsSound machine) :
    ∃! phase : Phase, phase.Holds machine record.state record.result := by
  obtain ⟨phase, hphase⟩ := h
  exact ⟨phase, hphase, fun _ hother => Phase.eq_of_holds hother hphase⟩

theorem isSound_following (id : String) (machine : Machine) : (following id).IsSound machine :=
  ⟨.starting, rfl, rfl⟩

theorem isSound_arrived (hresult : record.result = none) (hat : progress.IsAt machine) :
    (record.arrived progress).IsSound machine := by
  cases progress with
  | done result => exact ⟨.terminal, rfl, result, rfl⟩
  | pending name resource payload =>
      obtain ⟨task, htask, _⟩ := hat name resource payload rfl
      exact ⟨.inFlight, hresult, name, payload, task, rfl, htask⟩

/-- A dispatched execution has finished or enters a state of its machine. -/
theorem IsSound.dispatch_cases (h : record.IsSound machine) (hvalid : machine.violations = [])
    (input : Json) :
    (∃ result, record.state = none ∧ record.result = some result) ∨
    (record.result = none ∧ ∃ name progress,
      record.entrance? machine = some name ∧ machine.enter? name input = some progress ∧
      progress.IsAt machine) := by
  have henter : ∀ name, machine.knows name = true →
      ∃ progress, machine.enter? name input = some progress ∧ progress.IsAt machine := by
    intro name hknows
    obtain ⟨progress, hprogress⟩ := Machine.exists_enter?_of_knows hknows input
    exact ⟨progress, hprogress, Machine.isAt_of_enter? hprogress⟩
  obtain ⟨phase, hphase⟩ := h
  cases phase with
  | starting =>
      obtain ⟨hstate, hresult⟩ := hphase
      obtain ⟨progress, hprogress, hat⟩ := henter _ (Machine.knows_startAt hvalid)
      refine .inr ⟨hresult, machine.startAt, progress, ?_, hprogress, hat⟩
      rw [entrance?, hstate, hresult]
  | inFlight =>
      obtain ⟨hresult, name, payload, task, hstate, htask⟩ := hphase
      obtain ⟨progress, hprogress, hat⟩ := henter name (Dict.contains_eq_true_iff.mpr ⟨_, htask⟩)
      refine .inr ⟨hresult, name, progress, ?_, hprogress, hat⟩
      rw [entrance?, hstate]
  | terminal =>
      obtain ⟨hstate, result, hresult⟩ := hphase
      exact .inl ⟨result, hstate, hresult⟩

theorem IsSound.report_cases (h : record.IsSound machine) (hvalid : machine.violations = [])
    (report : Except String Json) :
    record.state = none ∨
    (record.result = none ∧ ∃ state task progress,
      record.state = some state ∧ machine.state? state.name = some (.task task) ∧
      machine.complete? task report = some progress ∧ progress.IsAt machine) := by
  obtain ⟨phase, hphase⟩ := h
  cases phase with
  | starting => exact .inl hphase.1
  | terminal => exact .inl hphase.1
  | inFlight =>
      obtain ⟨hresult, name, payload, task, hstate, htask⟩ := hphase
      obtain ⟨progress, hprogress⟩ := Machine.exists_complete?_of_valid hvalid htask report
      exact .inr ⟨hresult, { name, data := some payload }, task, progress, hstate, htask, hprogress,
        Machine.isAt_of_complete? hprogress⟩

end ExecutionRecord

/-- The errors of a name that is no task of the machine. -/
def ExecutorError.IsMiss : ExecutorError → Prop
  | .unknownState _ | .notAtTask _ _ => True
  | _ => False

theorem Progress.not_isMiss_of_answer {progress : Progress} {rejection : Option String}
    {error : ExecutorError} (h : progress.answer rejection = .error error) : ¬error.IsMiss := by
  cases progress with
  | done result => cases h
  | pending name resource payload =>
      cases rejection with
      | none => cases h
      | some reason =>
          cases h
          exact id

namespace Stage

/-- What a call does to an execution, wherever its record is kept. It leaves everything as it is and
answers without handing anything off, or it takes the execution somewhere. -/
inductive Moves (action : Action Stage Outcome) (record : ExecutionRecord) (machine : Machine) :
    Prop where
  | stays (answer : Except ExecutorError Outcome)
      (hanswer : ∀ state resource, answer ≠ .ok (.suspended state resource))
      (hmiss : ∀ error, answer = .error error → ¬error.IsMiss)
      (hstays : ∀ stage, stage.Stands record machine → action stage = Action.leave answer stage)
  | arrives (progress : Progress) (write : Journal → Option String → Journal)
      (hresult : record.result = none) (hat : progress.IsAt machine)
      (harrives : ∀ stage, stage.Stands record machine → ∃ after,
        action stage = Action.leave (progress.answer stage.site.rejection) after ∧
        stage.Reaches record progress after ∧
        after.journal = write stage.journal stage.site.rejection)

variable {record : ExecutionRecord} {machine : Machine}

theorem moves_dispatch (hsound : record.IsSound machine) (hvalid : machine.violations = [])
    (input : Json) : Moves (dispatch input) record machine := by
  rcases hsound.dispatch_cases hvalid input with
    ⟨result, hstate, hresult⟩ | ⟨hresult, name, progress, hentrance, hprogress, hat⟩
  · refine .stays (.ok (.finished result)) ?_ ?_ ?_
    · intro state resource heq
      cases heq
    · intro error heq
      cases heq
    · intro stage hstands
      exact dispatch_of_finished hstands hstate hresult input
  · refine .arrives progress (fun journal => journal.arrived "" name progress) hresult hat ?_
    intro stage hstands
    exact ⟨_, dispatch_of_entrance hstands hentrance hprogress, reaches_arrived _ _ _ _ _,
      journal_arrived _ _ _ _ _⟩

end Stage

end Workflow
