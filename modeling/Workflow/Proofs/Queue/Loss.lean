import Workflow.Proofs.Queue.Ledger
import Workflow.Proofs.Session.Handover

/-!
# Tasks that are lost before they ran

A turn can fail before the worker is called. Either nobody can take over from the context of the oldest
task, or somebody has taken over and finds that the execution is not at a task. Only in the first case
the task goes back to the queue.
-/

namespace Workflow

namespace Stage

/-- The task that there is to do: the execution has a record and is at a state, and its machine can be
looked up and has a task there. -/
def taskAt? (stage : Stage) : Option TaskState := do
  let record ← stage.handle.record.toOption
  let state ← record.state
  let machine ← stage.lookUp.1.toOption
  (machine.state? state.name).bind (·.task?)

/-- The task in flight is found if there is one, and asking for it fails otherwise. -/
theorem taskInFlight_cases (stage : Stage) :
    (∃ name task after, taskInFlight stage = .ok (name, task) after ∧ stage.taskAt? = some task) ∨
      (∃ error after, taskInFlight stage = .error error after ∧ stage.taskAt? = none) := by
  unfold taskAt?
  cases hrecord : stage.handle.record with
  | error error => exact .inr ⟨_, _, Action.bind_of_error (onHandle_getRecord_bind hrecord) _, rfl⟩
  | ok record =>
      cases hstate : record.state with
      | none => exact .inr ⟨_, _, taskInFlight_of_idle hrecord hstate, by simp [Except.toOption, hstate]⟩
      | some state =>
          have hdefinition := stage.definition_apply
          have hcurrent := current_of_recorded hrecord
          rw [hstate] at hcurrent
          unfold taskInFlight
          rw [Action.bind_of_ok hcurrent]
          cases hmachine : stage.lookUp.1 with
          | error error =>
              rw [hmachine] at hdefinition
              exact .inr ⟨_, _, Action.bind_of_error hdefinition _, by simp [Except.toOption]⟩
          | ok machine =>
              rw [hmachine] at hdefinition
              simp only [Action.bind_of_ok hdefinition]
              cases hfound : machine.state? state.name with
              | none => exact .inr ⟨_, _, rfl, by simp [Except.toOption, hstate, hfound]⟩
              | some found =>
                  cases found with
                  | task task => exact .inl ⟨_, _, _, rfl, by simp [Except.toOption, hstate, hfound, State.task?]⟩
                  | succeed comment => exact .inr ⟨_, _, rfl, by simp [Except.toOption, hstate, hfound, State.task?]⟩
                  | fail failure => exact .inr ⟨_, _, rfl, by simp [Except.toOption, hstate, hfound, State.task?]⟩

end Stage

namespace Worker

variable {ρ ε : Type} (worker : Worker ρ ε) {site : Site} {task : QueuedTask}
  {waiting : List QueuedTask}

/-- The queue that a turn leaves which fails before the worker is called. -/
inductive Stalls (site : Site) : Queue → Prop
  /-- Nobody can take over from the context of the oldest task. -/
  | refused {task : QueuedTask} {waiting : List QueuedTask} {error : ExecutorError} {left : Site}
      (hpending : site.queue.pending = task :: waiting)
      (hrefused : Executor.hydrate task.context
        { site with queue := { site.queue with pending := waiting } } = .error error left) :
      Stalls site site.queue
  /-- Somebody has taken over, and there is no task to do. -/
  | stranded {task : QueuedTask} {waiting : List QueuedTask} {executor : Executor} {taken : Site}
      (hpending : site.queue.pending = task :: waiting)
      (htaken : Executor.hydrate task.context
        { site with queue := { site.queue with pending := waiting } } = .ok executor taken)
      (hidle : Stage.taskAt? { executor, site := taken } = none) :
      Stalls site { site.queue with pending := waiting }

/-- A turn that has taken an execution over and finds no task to do has lost the one that it took. -/
theorem runNext_of_stranded (hpending : site.queue.pending = task :: waiting) {executor : Executor}
    {taken : Site}
    (htaken : Executor.hydrate task.context
      { site with queue := { site.queue with pending := waiting } } = .ok executor taken)
    (hidle : Stage.taskAt? { executor, site := taken } = none) (memory : ρ) :
    ∃ error after, worker.runNext (site, memory) = .error error (after, memory) ∧
      after.queue = { site.queue with pending := waiting } := by
  have hhydrate := Executor.keeps_hydrate task.context
    { site with queue := { site.queue with pending := waiting } }
  rw [htaken] at hhydrate
  have hqueue : taken.queue = { site.queue with pending := waiting } := hhydrate
  have hflight := Stage.keeps_taskInFlight { executor, site := taken }
  rcases Stage.taskInFlight_cases { executor, site := taken } with
    ⟨_, _, _, _, hfound⟩ | ⟨error, after, herror, _⟩
  · cases hidle.symm.trans hfound
  · rw [herror] at hflight
    refine ⟨error, after.site, ?_, hflight.trans hqueue⟩
    unfold runNext runTask
    simp only [Queue.take_of_pending hpending, htaken, herror]

theorem inHand?_of_taskAt? (hpending : site.queue.pending = task :: waiting) {executor : Executor}
    {taken : Site}
    (htaken : Executor.hydrate task.context
      { site with queue := { site.queue with pending := waiting } } = .ok executor taken)
    {state : TaskState} (hstate : Stage.taskAt? { executor, site := taken } = some state) :
    ∃ hand, site.inHand? = some hand := by
  rcases Stage.taskInFlight_cases { executor, site := taken } with
    ⟨name, found, after, hflight, _⟩ | ⟨_, _, _, hnone⟩
  · refine ⟨{ task, stage := after, name, state := found }, ?_⟩
    unfold Site.inHand?
    simp only [Queue.take_of_pending hpending, htaken, hflight]
  · cases hnone.symm.trans hstate

theorem stalls_of_uncalled {memory rest : ρ} {error : ExecutorError} {after : Site}
    (hrun : worker.recording.runNext (site, memory, []) = .error error (after, rest, [])) :
    Stalls site after.queue := by
  have hcalls : (memoryAfter (worker.recording.runNext (site, memory, []))).2 = _ :=
    worker.calls_runNext memory []
  rw [hrun] at hcalls
  cases hpending : site.queue.pending with
  | nil =>
      rw [runNext_of_idle hpending] at hrun
      cases hrun
  | cons task waiting =>
      cases hhydrate : Executor.hydrate task.context
          { site with queue := { site.queue with pending := waiting } } with
      | error refusal left =>
          rw [runNext_of_refused _ hpending hhydrate] at hrun
          cases hrun
          exact .refused hpending hhydrate
      | ok executor taken =>
          cases htask : Stage.taskAt? { executor, site := taken } with
          | some state =>
              obtain ⟨hand, hhand⟩ := inHand?_of_taskAt? hpending hhydrate htask
              rw [hhand] at hcalls
              cases hcalls
          | none =>
              obtain ⟨_, _, hlost, hqueue⟩ :=
                worker.recording.runNext_of_stranded hpending hhydrate htask (memory, [])
              cases hlost.symm.trans hrun
              rw [hqueue]
              exact .stranded hpending hhydrate htask

/-- A turn that fails before the worker is called leaves the queue as it was if nobody could take over
from the context of the oldest task, and without that task if somebody could. -/
theorem fails_uncalled_iff_stalls (site : Site) (memory : ρ) (queue : Queue) :
    (∃ error after rest,
      worker.recording.runNext (site, memory, []) = .error error (after, rest, []) ∧
        after.queue = queue) ↔
      Stalls site queue := by
  refine ⟨?_, ?_⟩
  · rintro ⟨error, after, rest, hrun, rfl⟩
    exact worker.stalls_of_uncalled hrun
  · rintro (⟨hpending, hrefused⟩ | ⟨hpending, htaken, hidle⟩)
    · exact ⟨_, _, _, worker.recording.runNext_of_refused hpending hrefused, rfl⟩
    · obtain ⟨error, after, hrun, hqueue⟩ :=
        worker.recording.runNext_of_stranded hpending htaken hidle (memory, [])
      exact ⟨error, after, memory, hrun, hqueue⟩

/-- The task of a visitor whose machine is not known here. -/
def visitorTask : QueuedTask :=
  { resource := "courier"
    input := .null
    context := Session.visitor.exported (.plain homeShelf) }

/-- The visitor is taken over, its machine is not found, and its task is gone. -/
theorem loses_visitorTask :
    ∃ error after,
      hopeless.recording.runNext
          ({ Site.fresh false with queue := Queue.empty.push visitorTask }, (), []) =
        .error error (after, (), []) ∧
      (Queue.empty.push visitorTask).pending = [visitorTask] ∧ after.queue.pending = [] := by
  have hpending : ({ Site.fresh false with
      queue := Queue.empty.push visitorTask } : Site).queue.pending = visitorTask :: [] := rfl
  have hdefined : ∀ record, Session.visitor.execution.held = some record →
      record.definitionId ≠ none := by
    rintro record ⟨⟩
    exact Option.some_ne_none _
  -- Said of any new identifier, so that the one that is given out is not computed.
  have hidle : ∀ executorId site, site.library = Library.empty → site.definitions = .plain homeShelf →
      Stage.taskAt? { executor := { Session.visitor with executorId }, site } = none := by
    rintro executorId ⟨library, definitions, central, table, log, queue, rejection, issued⟩ rfl rfl
    rfl
  obtain ⟨error, after, hrun, hqueue⟩ := hopeless.recording.runNext_of_stranded hpending
    (Executor.hydrate_exported rfl rfl rfl hdefined) (hidle _ _ rfl rfl) ((), [])
  exact ⟨error, after, hrun, rfl, congrArg Queue.pending hqueue⟩

end Worker

end Workflow
