import Workflow.Proofs.Executor.Admission
import Workflow.Proofs.Executor.Calls
import Workflow.Proofs.Executor.Conduct

/-!
# What leaves the queue alone

Whatever comes of an action, it leaves alone what none of its steps touches. All that an executor does
leaves the queue alone until it hands its task off, and that it does at last and says so in its answer.
-/

namespace Workflow

namespace Action

variable {σ τ α β γ : Type}

/-- Whether an action leaves a part of the state as it is. -/
def Keeps (part : σ → γ) (action : Action σ α) : Prop :=
  ∀ state, part (stateAfter (action state)) = part state

variable {part : σ → γ}

theorem Keeps.bind {action : Action σ α} {next : α → Action σ β} (h : Keeps part action)
    (hnext : ∀ value, Keeps part (next value)) : Keeps part (action >>= next) := by
  intro state
  have hfirst := h state
  cases haction : action state with
  | error error after =>
      rw [bind_of_error haction]
      rwa [haction] at hfirst
  | ok value after =>
      rw [bind_of_ok haction]
      rw [haction] at hfirst
      exact (hnext value after).trans hfirst

theorem keeps_pure (value : α) : Keeps part (pure value : Action σ α) :=
  fun _ => rfl

theorem keeps_throw (error : ExecutorError) : Keeps part (throw error : Action σ α) :=
  fun _ => rfl

theorem keeps_get : Keeps part (get : Action σ σ) :=
  fun _ => rfl

theorem keeps_modify {f : σ → σ} (h : ∀ state, part (f state) = part state) :
    Keeps part (modify f : Action σ PUnit) :=
  h

theorem keeps_ofContext (outcome : Except ContextError α) :
    Keeps part (ofContext outcome : Action σ α) := by
  cases outcome <;> exact fun _ => rfl

theorem keeps_ofComponent (outcome : Except ComponentError α) :
    Keeps part (ofComponent outcome : Action σ α) := by
  cases outcome <;> exact fun _ => rfl

theorem keeps_onPart {get : τ → σ} {put : τ → σ → τ} {action : Action σ α} {whole : τ → γ}
    (h : Keeps part action) (hget : ∀ state, part (get state) = whole state)
    (hput : ∀ state inner, whole (put state inner) = part inner) :
    Keeps whole (onPart get put action) := by
  intro state
  have hinner := (h (get state)).trans (hget state)
  unfold onPart
  cases haction : action (get state) with
  | error error after =>
      rw [haction] at hinner
      exact (hput state after).trans hinner
  | ok value after =>
      rw [haction] at hinner
      exact (hput state after).trans hinner

end Action

open Workflow.Action

namespace Handle

theorem queue_setRecord (handle : Handle) (record : ExecutionRecord) :
    (handle.setRecord record).site.queue = handle.site.queue := by
  unfold setRecord
  split <;> rfl

theorem keeps_getRecord {γ : Type} {part : Handle → γ} : Keeps part getRecord :=
  keeps_get.bind fun _ => keeps_ofComponent _

theorem keeps_modifyRecord (f : ExecutionRecord → ExecutionRecord) :
    Keeps (·.site.queue) (modifyRecord f) :=
  keeps_getRecord.bind fun _ => keeps_modify fun _ => queue_setRecord _ _

end Handle

namespace Executor

theorem keeps_adoptDefinitions (context : Context) : Keeps (·.queue) (adoptDefinitions context) := by
  intro site
  unfold adoptDefinitions
  rw [bind_of_ok (get_apply site)]
  cases site.definitions.adopt (context.slice site.definitions.spaceName) <;> rfl

theorem keeps_adoptExecution (id : String) (context : Context) :
    Keeps (·.queue) (adoptExecution id context) := by
  intro site
  rw [adoptExecution_apply, stateAfter_leave]

/-- Taking over from a context leaves the queue alone, whatever comes of it. -/
theorem keeps_hydrate (context : Context) : Keeps (·.queue) (hydrate context) := by
  have htakenOver : Keeps (·.queue) (hydrateAs "" context) :=
    (keeps_ofContext _).bind fun id =>
      (keeps_adoptDefinitions context).bind fun _ =>
        (keeps_adoptExecution id context).bind fun _ =>
          (keeps_ofContext _).bind fun _ => keeps_pure _
  have hissued : Keeps (·.queue) Site.freshId := fun _ => rfl
  exact htakenOver.bind fun _ => hissued.bind fun _ => keeps_pure _

end Executor

namespace Stage

section Keeping

variable {α : Type}

theorem keeps_onHandle {action : Action Handle α} (h : Keeps (·.site.queue) action) :
    Keeps (·.site.queue) (onHandle action) :=
  keeps_onPart h (fun _ => rfl) fun _ _ => rfl

theorem keeps_changeState (name : String) (data : Option Json) :
    Keeps (·.site.queue) (onHandle (Handle.changeState name data)) :=
  keeps_onHandle (Handle.keeps_modifyRecord _)

theorem keeps_setResult (result : ExecutionResult) :
    Keeps (·.site.queue) (onHandle (Handle.setResult result)) :=
  keeps_onHandle (Handle.keeps_modifyRecord _)

theorem keeps_current : Keeps (·.site.queue) current :=
  keeps_onHandle (Handle.keeps_getRecord.bind fun _ => keeps_pure _)

theorem keeps_definition : Keeps (·.site.queue) definition := by
  intro stage
  rw [definition_apply, stateAfter_leave]
  rfl

theorem keeps_log (resource state message : String) :
    Keeps (·.site.queue) (log resource state message) :=
  keeps_modify fun _ => rfl

theorem keeps_taskInFlight : Keeps (·.site.queue) taskInFlight := by
  refine keeps_current.bind ?_
  rintro ⟨state | state, result⟩
  · cases result with
    | some result => exact keeps_throw _
    | none => exact keeps_throw _
  · refine keeps_definition.bind fun machine => ?_
    cases machine.state? state.name with
    | none => exact keeps_throw _
    | some found =>
        cases found with
        | task task => exact keeps_pure _
        | succeed comment => exact keeps_throw _
        | fail failure => exact keeps_throw _

end Keeping

/-- What a call has handed in that has ended at the stage with an answer. A call that answers which
task it waits for has handed it in, with the payload that the execution is at and with the context that
the executor exports. -/
def handedIn (stage : Stage) : Outcome → List QueuedTask
  | .finished _ => []
  | .suspended _ resource =>
    match stage.handle.record, stage.executor.context stage.site with
    | .ok record, .ok context =>
      (record.state.bind (·.data)).toList.map fun input => { resource, input, context }
    | _, _ => []

/-- Whether the queue gets what an action says that it has handed in, and nothing from one that fails. -/
def HandsIn (action : Action Stage Outcome) : Prop :=
  ∀ stage,
    match action stage with
    | .ok outcome after => after.site.queue = (after.handedIn outcome).foldl Queue.push stage.site.queue
    | .error _ after => after.site.queue = stage.site.queue

section HandingIn

variable {α : Type}

theorem HandsIn.of_keeps {action : Action Stage α} {next : α → Action Stage Outcome}
    (h : Keeps (·.site.queue) action) (hnext : ∀ value, HandsIn (next value)) :
    HandsIn (action >>= next) := by
  intro stage
  have hfirst := h stage
  cases haction : action stage with
  | error error after =>
      rw [haction] at hfirst
      rw [bind_of_error haction]
      exact hfirst
  | ok value after =>
      rw [haction] at hfirst
      have hlater := hnext value after
      have hqueue : after.site.queue = stage.site.queue := hfirst
      rw [bind_of_ok haction, ← hqueue]
      exact hlater

theorem handsIn_throw (error : ExecutorError) : HandsIn (throw error) :=
  fun _ => rfl

theorem handsIn_finished (result : ExecutionResult) : HandsIn (pure (.finished result)) :=
  fun _ => rfl

theorem handsIn_finish (resource state : String) (result : ExecutionResult) :
    HandsIn (finish resource state result) :=
  .of_keeps (keeps_log _ _ _) fun _ => .of_keeps (keeps_setResult result) fun _ =>
    handsIn_finished result

theorem handedIn_queued {stage : Stage} {record : ExecutionRecord} {input : Json} {context : Context}
    (hrecord : stage.handle.record = .ok record) (hdata : record.state.bind (·.data) = some input)
    (hcontext : stage.executor.context stage.site = .ok context) (name resource : String) :
    handedIn (stage.queued { resource, input, context }) (.suspended name resource) =
      [{ resource, input, context }] := by
  have hrecorded : (stage.queued { resource, input, context }).handle.record = .ok record := hrecord
  have hexported : (stage.queued { resource, input, context }).executor.context
      (stage.queued { resource, input, context }).site = .ok context := hcontext
  unfold handedIn
  simp only [hrecorded, hexported, hdata]
  rfl

/-- Whatever goes wrong before a task is accepted, the queue is as it was. -/
theorem handsIn_handOff (name : String) (task : TaskState) (input : Json) :
    HandsIn (handOff name task input) := by
  intro stage
  unfold handOff
  cases hrecord : stage.handle.record with
  | error error =>
      have hupdate : onHandle (Handle.updateData input) stage = .error (.component error) stage :=
        onHandle_getRecord_bind hrecord
      rw [bind_of_error hupdate]
  | ok record =>
      cases hstate : record.state with
      | none =>
          rw [bind_of_error (onHandle_of_error (Handle.updateData_of_stateless hrecord hstate input))]
      | some state =>
          rw [bind_of_ok (updateData_of_recorded hrecord hstate input), bind_of_ok (log_apply _ _ _ _),
            bind_of_ok (get_apply _)]
          -- The execution is at the task now, with the input, and the queue as it was.
          generalize hentered : (stage.withRecord
            { record with state := some { state with data := some input } }).logged
              task.resource name "dispatching" = entered
          have hrecorded : entered.handle.record =
              .ok { record with state := some { state with data := some input } } := by
            rw [← hentered]
            exact record_withRecord stage _
          have hqueue : entered.site.queue = stage.site.queue := by
            rw [← hentered]
            exact Handle.queue_setRecord stage.handle _
          cases hcontext : entered.executor.context entered.site with
          | error error => exact hqueue
          | ok context =>
              rw [ofContext_bind]
              cases hrejection : entered.site.rejection with
              | some reason =>
                  simp only [Site.handOff_of_rejecting hrejection]
                  exact hqueue
              | none =>
                  have haccepted := handedIn_queued hrecorded rfl hcontext name task.resource
                  simp only [Site.handOff_of_accepting hrejection]
                  change (entered.queued { resource := task.resource, input, context }).site.queue =
                    (handedIn (entered.queued { resource := task.resource, input, context })
                      (.suspended name task.resource)).foldl Queue.push stage.site.queue
                  rw [haccepted, ← hqueue]
                  rfl

theorem handsIn_enter (machine : Machine) (name : String) (input : Json) :
    HandsIn (enter machine name input) := by
  unfold enter
  cases machine.state? name with
  | none => exact handsIn_throw _
  | some state =>
      cases state with
      | succeed comment => exact handsIn_finish _ _ _
      | fail failure => exact handsIn_finish _ _ _
      | task task => exact handsIn_handOff name task input

theorem handsIn_dispatch (input : Json) : HandsIn (dispatch input) := by
  refine .of_keeps keeps_definition fun machine => .of_keeps keeps_current ?_
  rintro ⟨state | state, result⟩
  · cases result with
    | some result => exact handsIn_finished result
    | none => exact .of_keeps (keeps_changeState _ _) fun _ => handsIn_enter machine _ input
  · exact handsIn_enter machine state.name input

theorem handsIn_recordSuccess (name : String) (task : TaskState) (output : Json) :
    HandsIn (recordSuccess name task output) := by
  unfold recordSuccess
  cases task.next with
  | none => exact .of_keeps (keeps_log _ _ _) fun _ => handsIn_finish _ _ _
  | some next =>
      exact .of_keeps (keeps_log _ _ _) fun _ =>
        .of_keeps (keeps_changeState next none) fun _ => handsIn_dispatch output

theorem handsIn_recordFailure (name : String) (task : TaskState) (code : String) :
    HandsIn (recordFailure name task code) := by
  unfold recordFailure
  cases task.catcherFor? code with
  | none => exact .of_keeps (keeps_log _ _ _) fun _ => handsIn_finish _ _ _
  | some catcher =>
      exact .of_keeps (keeps_log _ _ _) fun _ =>
        .of_keeps (keeps_changeState catcher.next _) fun _ => handsIn_dispatch .emptyObject

theorem handsIn_recordReport (name : String) (task : TaskState) (report : Except String Json) :
    HandsIn (recordReport name task report) := by
  cases report with
  | ok output => exact handsIn_recordSuccess name task output
  | error code => exact handsIn_recordFailure name task code

end HandingIn

end Stage

end Workflow
